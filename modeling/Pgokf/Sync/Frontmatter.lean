import Mathlib.Data.List.DropRight
import Pgokf.Lib.Lines
import Pgokf.Lib.Utf8
import Pgokf.Sync.Classify

/-! # The front matter of a document (`okf-parser/src/frontmatter.rs`, `pgokf-web/src/markdown.rs`)

The block between two `---` lines is looked for by the parser, by the reader of a bundle's version,
and by the web pages. Each counts bytes and cuts the text there. -/

namespace Pgokf.Sync

open Lib Guarded

def lineBytes (t : Text) : Nat := (utf8Bytes t).length

/-- `segment.trim_end_matches(['\r', '\n']) == "---"`. -/
def isDelimiter (segment : Text) : Bool := segment.rdropWhile (fun c => c == '\r' || c == '\n') == "---"

inductive FrontmatterError where
  | missingFrontmatter (path : Text)
  | unterminatedFrontmatter (path : Text)
  | frontmatterTooLarge (path : Text) (actual limit : Nat)
  deriving DecidableEq

inductive BlockScan where
  | closed (yamlEnd bodyStart : Nat)
  | unterminated
  | tooLarge (actual : Nat)

def scanBlock (maxBytes : Nat) : List Text → Nat → BlockScan
  | [], _ => .unterminated
  | segment :: segments, consumed =>
    if isDelimiter segment then .closed consumed (consumed + lineBytes segment)
    else if maxBytes < consumed + lineBytes segment then .tooLarge (consumed + lineBytes segment)
    else scanBlock maxBytes segments (consumed + lineBytes segment)

/- The text behind the opening line. -/
def afterOpen (source : Text) : Option Text :=
  ("---\n".toList.isPrefixOf? source).or ("---\r\n".toList.isPrefixOf? source)

def split (source path : Text) (maxBytes : Nat) : Guarded (Except FrontmatterError (Text × Text)) :=
  match afterOpen source with
  | none => pure (.error (.missingFrontmatter path))
  | some rest =>
    match scanBlock maxBytes (splitInclusive '\n' rest) 0 with
    | .tooLarge actual => pure (.error (.frontmatterTooLarge path actual maxBytes))
    | .unterminated => pure (.error (.unterminatedFrontmatter path))
    | .closed yamlEnd bodyStart =>
      if maxBytes < yamlEnd then pure (.error (.frontmatterTooLarge path yamlEnd maxBytes))
      else do
        let yaml ← sliceTo rest yamlEnd
        let body ← sliceFrom rest bodyStart
        pure (.ok (yaml, body))

def stripBom (text : Text) : Text := (['\uFEFF'].isPrefixOf? text).getD text

def scanIndex (maxBytes : Nat) : List Text → Nat → Option Nat
  | [], _ => none
  | segment :: segments, consumed =>
    if isDelimiter segment then some consumed
    else if maxBytes < consumed + lineBytes segment then none
    else scanIndex maxBytes segments (consumed + lineBytes segment)

/- The YAML text that the version is read from. -/
def indexBlock (text : Text) (maxBytes : Nat) : Guarded Text := do
  let rest ← ofOption (afterOpen (stripBom text))
  let yamlEnd ← ofOption (scanIndex maxBytes (splitInclusive '\n' rest) 0)
  sliceTo rest yamlEnd

/- The value of `okf_version`, as the YAML library gives it; a number with its own text. -/
inductive VersionValue where
  | string (text : Text)
  | number (shown : Text)
  | other

def VersionValue.version : VersionValue → Option Text
  | .string text => if trim text = [] then none else some (trim text)
  | .number shown => some shown
  | .other => none

/- `from_utf8`. -/
def decodeUtf8 (source : Bytes) : Option Text := (String.fromUTF8? source.toByteArray).map String.toList

/- `readYaml` is the YAML library on a block: an error, or the value of `okf_version` if it has one. -/
def indexOkfVersion (readYaml : Text → Option (Option VersionValue)) (source : Bytes)
    (maxBytes : Nat) : Guarded Text := do
  let text ← ofOption (decodeUtf8 source)
  let yaml ← indexBlock text maxBytes
  let parsed ← ofOption (readYaml yaml)
  let value ← ofOption parsed
  ofOption value.version

def scanBody : List Text → Nat → Option Nat
  | [], _ => none
  | line :: lines, offset =>
    if isDelimiter line then some (offset + lineBytes line) else scanBody lines (offset + lineBytes line)

def stripFrontmatter (source : Text) : Guarded Text :=
  match "---".toList.isPrefixOf? (stripBom source) with
  | none => pure source
  | some afterDashes =>
    match ['\n'].isPrefixOf? ((['\r'].isPrefixOf? afterDashes).getD afterDashes) with
    | none => pure source
    | some rest =>
      match scanBody (splitInclusive '\n' rest) 0 with
      | none => pure source
      | some bodyStart => sliceFrom rest bodyStart

/- The first delimiter line, and the lines around it. -/
structure Closes (segments before : List Text) (closing : Text) (after : List Text) : Prop where
  whole : segments = before ++ closing :: after
  plain : ∀ line ∈ before, isDelimiter line = false
  delimiter : isDelimiter closing = true

section Scans

variable {segments segments' before before' after after' : List Text} {closing closing' line : Text}
  {maxBytes consumed yamlEnd bodyStart : Nat}

theorem lineBytes_append {x y : Text} : lineBytes (x ++ y) = lineBytes x + lineBytes y := by
  rw [lineBytes, utf8Bytes_append, List.length_append]
  rfl

theorem Closes.here (h : isDelimiter line = true) : Closes (line :: segments) [] line segments :=
  ⟨rfl, by simp, h⟩

theorem Closes.later (hline : isDelimiter line = false) (h : Closes segments before closing after) :
    Closes (line :: segments) (line :: before) closing after where
  whole := by rw [h.whole, List.cons_append]
  plain l hl := by
    rcases List.mem_cons.mp hl with rfl | hl
    · exact hline
    · exact h.plain l hl
  delimiter := h.delimiter

theorem Closes.cons_cases (h : Closes segments (line :: before) closing after) :
    isDelimiter line = false ∧ ∃ rest, segments = line :: rest ∧ Closes rest before closing after :=
  ⟨h.plain line List.mem_cons_self, before ++ closing :: after, h.whole, rfl,
    fun l hl => h.plain l (List.mem_cons_of_mem _ hl), h.delimiter⟩

theorem Closes.unique (h : Closes segments before closing after)
    (h' : Closes segments before' closing' after') :
    before = before' ∧ closing = closing' ∧ after = after' := by
  induction before generalizing segments before' with
  | nil =>
    cases before' with
    | nil =>
      obtain ⟨rfl, rfl⟩ := List.cons.inj (h.whole.symm.trans h'.whole)
      exact ⟨rfl, rfl, rfl⟩
    | cons l before' =>
      obtain ⟨hplain, rest, rfl, -⟩ := h'.cons_cases
      obtain ⟨rfl, -⟩ := List.cons.inj h.whole
      exact absurd h.delimiter (Bool.eq_false_iff.mp hplain)
  | cons l before ih =>
    obtain ⟨hplain, rest, rfl, hrest⟩ := h.cons_cases
    cases before' with
    | nil =>
      obtain ⟨rfl, -⟩ := List.cons.inj h'.whole
      exact absurd h'.delimiter (Bool.eq_false_iff.mp hplain)
    | cons l' before' =>
      obtain ⟨-, rest', hcons, hrest'⟩ := h'.cons_cases
      obtain ⟨rfl, rfl⟩ := List.cons.inj hcons
      obtain ⟨rfl, rfl, rfl⟩ := ih hrest hrest'
      exact ⟨rfl, rfl, rfl⟩

theorem exists_closes (before after : List Text) (hclosing : isDelimiter closing = true) :
    ∃ before' closing' after', Closes (before ++ closing :: after) before' closing' after' ∧
      before' <+: before := by
  induction before with
  | nil => exact ⟨[], closing, after, .here hclosing, List.nil_prefix⟩
  | cons l before ih =>
    cases hl : isDelimiter l with
    | true => exact ⟨[], l, before ++ closing :: after, .here hl, List.nil_prefix⟩
    | false =>
      obtain ⟨before', closing', after', hcloses, hle⟩ := ih
      exact ⟨l :: before', closing', after', hcloses.later hl, List.cons_prefix_cons.mpr ⟨rfl, hle⟩⟩

theorem scanBlock_closed (h : Closes segments before closing after)
    (hle : consumed + lineBytes before.flatten ≤ maxBytes) :
    scanBlock maxBytes segments consumed =
      .closed (consumed + lineBytes before.flatten)
        (consumed + lineBytes before.flatten + lineBytes closing) := by
  induction before generalizing segments consumed with
  | nil =>
    rw [h.whole, List.nil_append, scanBlock, if_pos h.delimiter]
    rfl
  | cons l before ih =>
    obtain ⟨hl, rest, rfl, hrest⟩ := h.cons_cases
    rw [List.flatten_cons, lineBytes_append] at hle ⊢
    have hsmall : ¬maxBytes < consumed + lineBytes l := by omega
    rw [scanBlock, if_neg (Bool.eq_false_iff.mp hl), if_neg hsmall, ih hrest (by omega),
      Nat.add_assoc consumed]

theorem scanBlock_eq_closed (h : scanBlock maxBytes segments consumed = .closed yamlEnd bodyStart) :
    ∃ before closing after, Closes segments before closing after ∧
      yamlEnd = consumed + lineBytes before.flatten ∧ bodyStart = yamlEnd + lineBytes closing := by
  induction segments generalizing consumed with
  | nil => cases h
  | cons l segments ih =>
    rw [scanBlock] at h
    split at h
    next hl =>
      cases h
      exact ⟨[], l, segments, .here hl, rfl, rfl⟩
    next hl =>
      split at h
      next => cases h
      next =>
        obtain ⟨before, closing, after, hcloses, hend, hstart⟩ := ih h
        refine ⟨l :: before, closing, after, hcloses.later (Bool.eq_false_iff.mpr hl), ?_, hstart⟩
        rw [List.flatten_cons, lineBytes_append]
        omega

theorem scanIndex_eq_some (h : scanIndex maxBytes segments consumed = some yamlEnd) :
    ∃ before closing after, Closes segments before closing after ∧
      yamlEnd = consumed + lineBytes before.flatten := by
  induction segments generalizing consumed with
  | nil => cases h
  | cons l segments ih =>
    rw [scanIndex] at h
    split at h
    next hl => exact ⟨[], l, segments, .here hl, (Option.some.inj h).symm⟩
    next hl =>
      split at h
      next => cases h
      next =>
        obtain ⟨before, closing, after, hcloses, hend⟩ := ih h
        refine ⟨l :: before, closing, after, hcloses.later (Bool.eq_false_iff.mpr hl), ?_⟩
        rw [List.flatten_cons, lineBytes_append]
        omega

theorem scanBody_closed (h : Closes segments before closing after) :
    scanBody segments consumed = some (consumed + lineBytes before.flatten + lineBytes closing) := by
  induction before generalizing segments consumed with
  | nil =>
    rw [h.whole, List.nil_append, scanBody, if_pos h.delimiter]
    rfl
  | cons l before ih =>
    obtain ⟨hl, rest, rfl, hrest⟩ := h.cons_cases
    rw [scanBody, if_neg (Bool.eq_false_iff.mp hl), ih hrest, List.flatten_cons, lineBytes_append,
      Nat.add_assoc consumed]

end Scans

/-! ### The block -/

def IsOpening (opening : Text) : Prop := opening = "---\n" ∨ opening = "---\r\n"

/- An opening line, whole lines of YAML, a closing line, and the rest. -/
structure Block (source opening yaml closing body : Text) : Prop where
  whole : source = opening ++ (yaml ++ (closing ++ body))
  opens : IsOpening opening
  lines : yaml = [] ∨ yaml.getLast? = some '\n'
  line : EndsLine '\n' closing body
  closes : isDelimiter closing = true

def NoDelimiterLine (yaml : Text) : Prop := ∀ line ∈ splitInclusive '\n' yaml, isDelimiter line = false

section Blocks

variable {source opening yaml closing body rest path : Text} {maxBytes : Nat}

theorem afterOpen_eq_some : afterOpen source = some rest ↔ ∃ opening, IsOpening opening ∧
    source = opening ++ rest := by
  simp only [afterOpen, Option.or_eq_some_iff, List.isPrefixOf?_eq_some_iff_append_eq]
  constructor
  · rintro (h | ⟨-, h⟩)
    · exact ⟨_, .inl rfl, h.symm⟩
    · exact ⟨_, .inr rfl, h.symm⟩
  · rintro ⟨opening, rfl | rfl, rfl⟩
    · exact .inl rfl
    · exact .inr ⟨rfl, rfl⟩

theorem stripBom_of_opening (h : IsOpening opening) : stripBom (opening ++ rest) = opening ++ rest := by
  rcases h with rfl | rfl <;> rfl

theorem Block.segments (h : Block source opening yaml closing body) :
    splitInclusive '\n' (yaml ++ (closing ++ body)) =
      splitInclusive '\n' yaml ++ closing :: splitInclusive '\n' body := by
  rw [splitInclusive_append h.lines, splitInclusive_line h.line]

theorem Block.afterOpen (h : Block source opening yaml closing body) :
    afterOpen source = some (yaml ++ (closing ++ body)) :=
  afterOpen_eq_some.mpr ⟨opening, h.opens, h.whole⟩

theorem Block.closesAt (h : Block source opening yaml closing body) (hplain : NoDelimiterLine yaml) :
    Closes (splitInclusive '\n' (yaml ++ (closing ++ body))) (splitInclusive '\n' yaml) closing
      (splitInclusive '\n' body) :=
  ⟨h.segments, hplain, h.closes⟩

theorem Closes.block {before after : List Text} (hopens : IsOpening opening)
    (h : Closes (splitInclusive '\n' rest) before closing after) :
    Block (opening ++ rest) opening before.flatten closing after.flatten ∧
      NoDelimiterLine before.flatten := by
  obtain ⟨hrest, hlines, hline, hbefore⟩ := splitInclusive_eq_append_cons h.whole
  refine ⟨⟨by rw [← hrest], hopens, hlines, hline, h.delimiter⟩, fun line hmem => ?_⟩
  rw [hbefore] at hmem
  exact h.plain line hmem

theorem slices_of_block (yaml closing body : Text) :
    sliceTo (yaml ++ (closing ++ body)) (lineBytes yaml) = .value yaml ∧
      sliceFrom (yaml ++ (closing ++ body)) (lineBytes yaml + lineBytes closing) = .value body := by
  refine ⟨sliceTo_append, ?_⟩
  rw [← lineBytes_append, ← List.append_assoc]
  exact sliceFrom_append

theorem Block.split_eq (h : Block source opening yaml closing body) (hplain : NoDelimiterLine yaml)
    (hle : lineBytes yaml ≤ maxBytes) : split source path maxBytes = .value (.ok (yaml, body)) := by
  have hflatten : (splitInclusive '\n' yaml).flatten = yaml := flatten_splitInclusive
  have hle' : 0 + lineBytes (splitInclusive '\n' yaml).flatten ≤ maxBytes :=
    by rwa [hflatten, Nat.zero_add]
  have hscan := scanBlock_closed (h.closesAt hplain) hle'
  rw [hflatten, Nat.zero_add] at hscan
  obtain ⟨hyaml, hbody⟩ := slices_of_block yaml closing body
  rw [split, h.afterOpen]
  simp only [hscan, if_neg (Nat.not_lt.mpr hle), hyaml, hbody, bind_value]
  rfl

theorem split_eq_ok : split source path maxBytes = .value (.ok (yaml, body)) ↔
    ∃ opening closing, Block source opening yaml closing body ∧ NoDelimiterLine yaml ∧
      lineBytes yaml ≤ maxBytes := by
  constructor
  · intro h
    unfold split at h
    split at h
    next => cases h
    next rest hopen =>
      split at h
      next => cases h
      next => cases h
      next yamlEnd bodyStart hscan =>
        split at h
        next => cases h
        next hsmall =>
          obtain ⟨opening, hopens, rfl⟩ := afterOpen_eq_some.mp hopen
          obtain ⟨before, closing, after, hcloses, rfl, rfl⟩ := scanBlock_eq_closed hscan
          obtain ⟨hblock, hplain⟩ := hcloses.block hopens
          have hrest := List.append_cancel_left hblock.whole
          obtain ⟨hyaml, hbody⟩ := slices_of_block before.flatten closing after.flatten
          rw [Nat.zero_add] at hsmall h
          rw [hrest, hyaml, hbody] at h
          cases h
          exact ⟨opening, closing, hblock, hplain, Nat.not_lt.mp hsmall⟩
  · rintro ⟨opening, closing, hblock, hplain, hle⟩
    exact hblock.split_eq hplain hle

theorem exists_split : ∃ result, split source path maxBytes = .value result := by
  unfold split
  split
  next => exact ⟨_, rfl⟩
  next rest hopen =>
    split
    next => exact ⟨_, rfl⟩
    next => exact ⟨_, rfl⟩
    next yamlEnd bodyStart hscan =>
      split
      next => exact ⟨_, rfl⟩
      next =>
        obtain ⟨opening, hopens, rfl⟩ := afterOpen_eq_some.mp hopen
        obtain ⟨before, closing, after, hcloses, rfl, rfl⟩ := scanBlock_eq_closed hscan
        obtain ⟨hblock, -⟩ := hcloses.block hopens
        have hrest := List.append_cancel_left hblock.whole
        obtain ⟨hyaml, hbody⟩ := slices_of_block before.flatten closing after.flatten
        rw [Nat.zero_add, hrest, hyaml, hbody]
        exact ⟨_, rfl⟩

/-- A block whose YAML has a delimiter line is cut short at the first one. -/
theorem Block.first (h : Block source opening yaml closing body) :
    ∃ yaml' closing' body', Block source opening yaml' closing' body' ∧ NoDelimiterLine yaml' ∧
      lineBytes yaml' ≤ lineBytes yaml := by
  obtain ⟨before, closing', after, hcloses, hle⟩ :=
    exists_closes (splitInclusive '\n' yaml) (splitInclusive '\n' body) h.closes
  rw [← h.segments] at hcloses
  obtain ⟨hblock, hplain⟩ := hcloses.block h.opens
  rw [← h.whole] at hblock
  refine ⟨before.flatten, closing', after.flatten, hblock, hplain, ?_⟩
  obtain ⟨more, hmore⟩ := hle
  have hflatten : (splitInclusive '\n' yaml).flatten = yaml := flatten_splitInclusive
  rw [← hflatten, ← hmore, List.flatten_append, lineBytes_append]
  omega

variable {yaml' : Text}

theorem Block.unique {opening' closing' body' : Text} (h : Block source opening yaml closing body)
    (hplain : NoDelimiterLine yaml) (h' : Block source opening' yaml' closing' body')
    (hplain' : NoDelimiterLine yaml') :
    opening = opening' ∧ yaml = yaml' ∧ closing = closing' ∧ body = body' := by
  have hrest := Option.some.inj (h.afterOpen.symm.trans h'.afterOpen)
  have hclose' := h'.closesAt hplain'
  rw [← hrest] at hclose'
  obtain ⟨hyaml, hclosing, hbody⟩ := (h.closesAt hplain).unique hclose'
  have hflatten (t : Text) : (splitInclusive '\n' t).flatten = t := flatten_splitInclusive
  refine ⟨?_, ?_, hclosing, ?_⟩
  · have hwhole := h.whole.symm.trans h'.whole
    rw [hrest] at hwhole
    exact List.append_cancel_right hwhole
  · rw [← hflatten yaml, hyaml, hflatten]
  · rw [← hflatten body, hbody, hflatten]

theorem Block.index_eq (h : Block source opening yaml closing body) (hplain : NoDelimiterLine yaml)
    (hindex : indexBlock source maxBytes = .value yaml') : yaml' = yaml := by
  have hbom : stripBom source = source := by
    rw [h.whole]
    exact stripBom_of_opening h.opens
  rw [indexBlock, hbom, h.afterOpen, bind_eq_value] at hindex
  obtain ⟨rest, hrest, hindex⟩ := hindex
  obtain rfl := Option.some.inj (ofOption_eq_value.mp hrest)
  obtain ⟨yamlEnd, hscan, hslice⟩ := bind_eq_value.mp hindex
  obtain ⟨before, closing', after, hcloses, rfl⟩ := scanIndex_eq_some (ofOption_eq_value.mp hscan)
  obtain ⟨rfl, -, -⟩ := hcloses.unique (h.closesAt hplain)
  have hflatten : (splitInclusive '\n' yaml).flatten = yaml := flatten_splitInclusive
  rw [hflatten, Nat.zero_add, (slices_of_block yaml closing body).1] at hslice
  exact (Guarded.value.inj hslice).symm

theorem Block.strip_eq (h : Block source opening yaml closing body) (hplain : NoDelimiterLine yaml) :
    stripFrontmatter source = .value body := by
  have hopened : stripFrontmatter (opening ++ (yaml ++ (closing ++ body))) =
      match scanBody (splitInclusive '\n' (yaml ++ (closing ++ body))) 0 with
      | none => pure (opening ++ (yaml ++ (closing ++ body)))
      | some bodyStart => sliceFrom (yaml ++ (closing ++ body)) bodyStart := by
    rcases h.opens with rfl | rfl <;> rfl
  have hflatten : (splitInclusive '\n' yaml).flatten = yaml := flatten_splitInclusive
  have hscan : scanBody (splitInclusive '\n' (yaml ++ (closing ++ body))) 0 = some
    (lineBytes yaml + lineBytes closing) := by
    rw [scanBody_closed (h.closesAt hplain), hflatten, Nat.zero_add]
  rw [h.whole, hopened, hscan]
  exact (slices_of_block yaml closing body).2

theorem decodeUtf8_utf8Bytes (t : Text) : decodeUtf8 (utf8Bytes t) = some t := by
  have hbytes : (utf8Bytes t).toByteArray = (String.ofList t).toByteArray :=
    String.toByteArray_ofList.symm
  have hvalid : (utf8Bytes t).toByteArray.IsValidUTF8 := hbytes ▸ (String.ofList t).isValidUTF8
  have hdecoded : String.fromUTF8 (utf8Bytes t).toByteArray hvalid = String.ofList t :=
    String.toByteArray_inj.mp hbytes
  rw [decodeUtf8, String.fromUTF8?, dif_pos hvalid, hdecoded, Option.map_some, String.toList_ofList]

theorem Block.version_eq {readYaml : Text → Option (Option VersionValue)} {version : Text}
    (h : Block source opening yaml closing body) (hplain : NoDelimiterLine yaml)
    (hversion : indexOkfVersion readYaml (utf8Bytes source) maxBytes = .value version) :
    ∃ value, readYaml yaml = some (some value) ∧ value.version = some version := by
  simp only [indexOkfVersion, decodeUtf8_utf8Bytes, bind_eq_value, ofOption_eq_value] at hversion
  obtain ⟨text, htext, yaml', hindex, parsed, hparsed, value, hvalue, hresult⟩ := hversion
  obtain rfl := Option.some.inj htext
  obtain rfl := h.index_eq hplain hindex
  exact ⟨value, hvalue ▸ hparsed, hresult⟩

end Blocks

/-- `split` gives the one decomposition of a source into an opening line, YAML without a delimiter
line, a closing line and a body, where there is one within the limit; the other scanners cut where
it does. -/
theorem split_lossless (source path : Text) (maxBytes : Nat) :
    ((∃ result, split source path maxBytes = .value result) ∧
      ((∃ yaml body, split source path maxBytes = .value (.ok (yaml, body))) ↔
        ∃ opening yaml closing body, Block source opening yaml closing body ∧
          lineBytes yaml ≤ maxBytes)) ∧
    ∀ yaml body, split source path maxBytes = .value (.ok (yaml, body)) →
      (∃ opening closing, Block source opening yaml closing body ∧ NoDelimiterLine yaml ∧
        ∀ opening' yaml' closing' body', Block source opening' yaml' closing' body' →
          NoDelimiterLine yaml' →
          opening' = opening ∧ yaml' = yaml ∧ closing' = closing ∧ body' = body) ∧
      (∀ limit yaml', indexBlock source limit = .value yaml' → yaml' = yaml) ∧
      (∀ readYaml limit version, indexOkfVersion readYaml (utf8Bytes source) limit = .value version →
        ∃ value, readYaml yaml = some (some value) ∧ value.version = some version) ∧
      stripFrontmatter source = .value body := by
  refine ⟨⟨exists_split, ?_, ?_⟩, ?_⟩
  · rintro ⟨yaml, body, h⟩
    obtain ⟨opening, closing, hblock, -, hle⟩ := split_eq_ok.mp h
    exact ⟨opening, yaml, closing, body, hblock, hle⟩
  · rintro ⟨opening, yaml, closing, body, hblock, hle⟩
    obtain ⟨yaml', closing', body', hblock', hplain, hshorter⟩ := hblock.first
    exact ⟨yaml', body', hblock'.split_eq hplain (hshorter.trans hle)⟩
  · intro yaml body h
    obtain ⟨opening, closing, hblock, hplain, -⟩ := split_eq_ok.mp h
    refine ⟨⟨opening, closing, hblock, hplain, ?_⟩, fun _ _ => hblock.index_eq hplain,
      fun _ _ _ => hblock.version_eq hplain, hblock.strip_eq hplain⟩
    intro opening' yaml' closing' body' hblock' hplain'
    exact hblock'.unique hplain' hblock hplain

example : split "---\r\ntitle: A\n---\r\nBody\n" "a.md" 9 =
    .value (.ok ("title: A\n", "Body\n")) := by decide +kernel

end Pgokf.Sync
