import Pgokf.Sync.Convergence
import Pgokf.Sync.Normalize

/-! # The link graph of a bundle (`okf-parser/src/links.rs`, `catalog/links.rs`,
`catalog/packages.rs`)

A sync inserts the links of the concepts it stages and goes over all links: one whose target path is
that of a concept gets its id, and `resolved` is computed anew. -/

namespace Pgokf.Sync

open Lib

/-- A destination with a scheme, or relative to the protocol. -/
def isExternalTarget (target : Text) : Bool :=
  "//".toList.isPrefixOf target ||
    (splitOnce ':' target).any fun (scheme, _) =>
      match scheme with
      | [] => false
      | first :: rest => first.isAlpha && rest.all fun c => c.isAlphanum || c ∈ ['+', '.', '-']

def parentComponents (normalizedPath : Text) : List Text :=
  match rsplitOnce '/' normalizedPath with
  | some (directory, _) => directory.splitOn '/'
  | none => []

/- One component of a destination; `..` above the root of the bundle ends the walk. -/
def walkComponent (parts : List Text) (component : Text) : Option (List Text) :=
  if component = [] ∨ component = "." then some parts
  else if component = ".." then (if parts = [] then none else some parts.dropLast)
  else some (parts ++ [component])

def resolveLinkPath (target sourcePath : Text) : Option Text :=
  let folded := target.map fun c => if c = '\\' then '/' else c
  let withoutFragment := folded.takeWhile (· ≠ '#')
  if withoutFragment = [] then (if folded.head? = some '#' then some sourcePath else none)
  else do
    let (parts, remainder) := match withoutFragment with
      | '/' :: rooted => ([], rooted)
      | _ => (parentComponents sourcePath, withoutFragment)
    let parts ← (remainder.splitOn '/').foldlM walkComponent parts
    if parts = [] then none else some (['/'].intercalate parts)

def resolveLinkTarget (target sourcePath : Text) : Option Text :=
  (resolveLinkPath target sourcePath).bind fun resolved => (applyMarkdownExtension resolved).toOption

/- The last kind is that of the edges from a skill to its resources. -/
inductive LinkKind where
  | inline
  | reference
  | autolink
  | email
  | image
  | package
  deriving DecidableEq

structure Link where
  text : Option Text
  kind : LinkKind
  ordinal : Nat
  isExternal : Bool
  targetPath : Option Text
  targetId : Option Text
  deriving DecidableEq

structure PendingLink where
  target : Text
  label : Text
  kind : LinkKind

/- What is not opened here: the links of a document and the references of an Attested Computation. -/
structure LinkParser where
  pendingLinks : Bytes → List PendingLink
  attestations : Bytes → List Text

/-- `resolve_reference`, with what the edge is stored under. -/
def resolveReference (text : Option Text) (kind : LinkKind) (ordinal : Nat) (isExternal : Bool)
    (target sourcePath : Text) : Link :=
  let targetPath := if isExternal then none else resolveLinkTarget target sourcePath
  { text, kind, ordinal, isExternal, targetPath, targetId := targetPath.map conceptId }

def PendingLink.intoLink (pending : PendingLink) (ordinal : Nat) (sourcePath : Text) : Link :=
  resolveReference (some pending.label) pending.kind ordinal
    (pending.kind = .email || isExternalTarget pending.target) pending.target sourcePath

def isPackageResource (path packageRoot : Text) : Bool :=
  ((relative '/' packageRoot path).bind (splitOnce '/')).any fun (directory, file) =>
    directory ∈ resourceDirectories && file ≠ []

/-- In a manifest, a destination among the resources of the package has the path as its id. -/
def resolveResourceLink (target sourcePath packageRoot : Text) (link : Link) : Link :=
  if link.isExternal then link
  else match resolveLinkPath target sourcePath with
    | none => link
    | some resolved =>
      if isPackageResource resolved packageRoot then
        { link with targetId := some resolved, targetPath := some resolved }
      else link

section Staged

variable (parser : LinkParser) (source : Source) (current : List FileMetadata)

def StagedConcept.pending (s : StagedConcept) : List PendingLink :=
  match s.typed with
  | none | some (.skill _) => parser.pendingLinks ((source.readBytes s.path).toOption.getD [])
  | some (.script _) | some (.reference _) => []

def StagedConcept.bodyLinks (s : StagedConcept) : List Link :=
  (s.pending parser source).zipIdx.map fun (pending, ordinal) =>
    let link := pending.intoLink ordinal s.path
    match s.typed with
    | some (.skill _) => resolveResourceLink pending.target s.path (parentDirectory s.path) link
    | _ => link

/-- `collect_attestation_edges`: numbered after the links of the body. -/
def StagedConcept.attestationEdges (s : StagedConcept) : List Link :=
  match s.typed with
  | none =>
    let references := parser.attestations ((source.readBytes s.path).toOption.getD [])
    (references.zipIdx (s.pending parser source).length).map fun (reference, ordinal) =>
      resolveReference none .reference ordinal (isExternalTarget reference) reference s.path
  | some _ => []

def StagedConcept.membershipEdges (s : StagedConcept) : List Link :=
  match s.typed with
  | some (.skill _) =>
    let members := packageMembers (parentDirectory s.path) (manifestIndex current) current
    (members.zipIdx (s.pending parser source).length).map fun (member, ordinal) =>
      { text := none, kind := .package, ordinal, isExternal := false, targetPath := some member.path
        targetId := some member.conceptId }
  | _ => []

end Staged

/-! ### Stored links -/

/-- A row of `pgokf.links`: the link it was inserted for, with the derived id, and the columns that
later syncs rewrite. -/
structure LinkRow where
  sourceId : Text
  link : Link
  targetId : Option Text
  resolved : Bool
  deriving DecidableEq

def ConceptTable.idAt (t : ConceptTable) (path : Text) : Option Text :=
  (t.rows.find? (·.path = path)).map (·.id)

section Write

variable (concepts : ConceptTable)

def resolvedBy (link : Link) (targetId : Option Text) : Bool :=
  targetId.isSome && !link.isExternal &&
    concepts.rows.any fun r => some r.id = targetId || some r.path = link.targetPath

/-- `insert_staged_links`: the concept at the target path comes before the derived id. -/
def bodyRow (sourceId : Text) (link : Link) : LinkRow :=
  { sourceId, link, targetId := (link.targetPath.bind concepts.idAt).or link.targetId
    resolved := resolvedBy concepts link link.targetId }

/- `insert_attestation_edges` and `insert_membership_edges`: the derived id only. -/
def edgeRow (sourceId : Text) (link : Link) : LinkRow :=
  { sourceId, link, targetId := link.targetId
    resolved := link.targetId.isSome && !link.isExternal &&
      concepts.rows.any fun r => some r.id = link.targetId }

def insertLinks (what : String) (links rows : List LinkRow) : Except CatalogError (List LinkRow) :=
  rows.foldlM (fun links row => do
    ensure (!links.any fun l => l.sourceId = row.sourceId && l.link.ordinal = row.link.ordinal)
      (.internal ("failed to insert " ++ what ++
        ": duplicate key value violates unique constraint links_pkey"))
    pure (links ++ [row])) links

def LinkRow.retarget (row : LinkRow) : LinkRow :=
  { row with targetId := (row.link.targetPath.bind concepts.idAt).or row.targetId }

def LinkRow.reresolve (row : LinkRow) : LinkRow :=
  { row with resolved := resolvedBy concepts row.link row.targetId }

def reresolveBundle (links : List LinkRow) : List LinkRow :=
  (links.map (·.retarget concepts)).map (·.reresolve concepts)

/-- `links::project`, the edges of `packages::project`, and `reresolve_bundle`. -/
def projectLinks (parser : LinkParser) (source : Source) (staged : List StagedConcept)
    (links : List LinkRow) : Except CatalogError (List LinkRow) := do
  let cleared := links.filter fun l => l.sourceId ∉ staged.map (·.id)
  let links ← insertLinks "concept links" cleared
    (staged.flatMap fun s => (s.bodyLinks parser source).map (bodyRow concepts s.id))
  let links ← insertLinks "attestation edges" links
    (staged.flatMap fun s => (s.attestationEdges parser source).map (edgeRow concepts s.id))
  let links ← insertLinks "package membership edges" links
    (staged.flatMap fun s =>
      (s.membershipEdges parser source source.snapshot.entries).map (edgeRow concepts s.id))
  .ok (reresolveBundle concepts links)

end Write

structure LinkState where
  bundle : BundleState
  links : List LinkRow

def LinkState.empty : LinkState := ⟨.empty, []⟩

/-- A sync, with the links of deleted concepts deleted along with them. -/
def LinkState.sync (parsers : Parsers) (parser : LinkParser) (s : LinkState) (call : SyncCall) :
    Except CatalogError LinkState := do
  let (bundle, out) ← runBundleSync parsers s.bundle call
  let deleted := deletedRows s.bundle.tables (call.plan s.bundle.tables).removedPaths out.staged
  let links ← projectLinks bundle.tables.concepts parser call.source out.staged
    (s.links.filter fun l => deleted.concepts.rows.any (·.id = l.sourceId))
  .ok { bundle, links }

section Spec

variable {parsers : Parsers} {parser : LinkParser} {s s' : LinkState} {call : SyncCall}
  {t t' : ConceptTable} {p i : Text} {l : LinkRow}

theorem ConceptTable.idAt_eq_some : t.idAt p = some i ↔ ∃ r ∈ t.rows, r.path = p ∧ r.id = i := by
  simp only [idAt, Option.map_eq_some_iff, find?_key_eq_some t.paths_nodup, and_assoc]

theorem ConceptTable.idAt_congr (h : ∀ r, r ∈ t.rows ↔ r ∈ t'.rows) (p : Text) :
    t.idAt p = t'.idAt p := by
  refine Option.ext fun i => ?_
  simp only [ConceptTable.idAt_eq_some, h]

theorem mem_insertLinks {what : String} {links rows links' : List LinkRow}
    (h : insertLinks what links rows = .ok links') (hl : l ∈ links') : l ∈ links ∨ l ∈ rows := by
  refine foldlM_invariant (P := fun done links' => ∀ l ∈ links', l ∈ links ∨ l ∈ done) h ?_ ?_ l hl
  · exact fun l hl => .inl hl
  · intro done row rest links links' _ hlinks hstep l hl
    rw [bind_eq_ok] at hstep
    obtain ⟨-, -, hstep⟩ := hstep
    cases hstep
    rcases List.mem_append.mp hl with hl | hl
    · exact (hlinks l hl).imp_right fun h => List.mem_append_left [row] h
    · exact .inr (List.mem_append_right done hl)

def Inserted (t : ConceptTable) (l : LinkRow) : Prop :=
  l.targetId = l.link.targetId ∨ l.targetId = (l.link.targetPath.bind t.idAt).or l.link.targetId

/-- Each row after a sync is one from before whose source was neither deleted nor staged, or a new
one. -/
theorem sync_ok (h : s.sync parsers parser call = .ok s') :
    ∃ out, Synced parsers s.bundle call s'.bundle out ∧ ∀ l' ∈ s'.links, ∃ l,
      l' = (l.retarget s'.bundle.tables.concepts).reresolve s'.bundle.tables.concepts ∧
      ((l ∈ s.links ∧ l.sourceId ∉ out.staged.map (·.id) ∧
          (deletedRows s.bundle.tables (call.plan s.bundle.tables).removedPaths
            out.staged).concepts.Has l.sourceId) ∨
        Inserted s'.bundle.tables.concepts l) := by
  simp only [LinkState.sync, projectLinks, bind_eq_ok] at h
  obtain ⟨⟨bundle, out⟩, hsync, links, ⟨bodies, hbodies, attested, hattested, members, hmembers, hlinks⟩,
    h⟩ := h
  cases h
  cases hlinks
  refine ⟨out, runBundleSync_synced hsync, fun l' hl' => ?_⟩
  simp only [reresolveBundle, List.map_map, List.mem_map, Function.comp_apply] at hl'
  obtain ⟨l, hl, rfl⟩ := hl'
  refine ⟨l, rfl, ?_⟩
  have hedge : ∀ (edges : StagedConcept → List Link),
      l ∈ out.staged.flatMap (fun s => (edges s).map (edgeRow bundle.tables.concepts s.id)) →
      Inserted bundle.tables.concepts l := by
    intro edges hl
    obtain ⟨s, -, hl⟩ := List.mem_flatMap.mp hl
    obtain ⟨link, -, rfl⟩ := List.mem_map.mp hl
    exact .inl rfl
  rcases mem_insertLinks hmembers hl with hl | hl
  · rcases mem_insertLinks hattested hl with hl | hl
    · rcases mem_insertLinks hbodies hl with hl | hl
      · simp only [List.mem_filter, List.any_eq_true, decide_eq_true_eq] at hl
        obtain ⟨⟨hl, r, hr, hid⟩, hstaged⟩ := hl
        exact .inl ⟨hl, hstaged, r, hr, hid⟩
      · obtain ⟨s, -, hl⟩ := List.mem_flatMap.mp hl
        obtain ⟨link, -, rfl⟩ := List.mem_map.mp hl
        exact .inr (.inr rfl)
    · exact .inr (hedge _ hl)
  · exact .inr (hedge _ hl)

end Spec

/-! ### The law -/

def TargetLaw (t : ConceptTable) (l : LinkRow) : Prop :=
  l.targetId = (l.link.targetPath.bind t.idAt).or l.link.targetId

def ResolvedLaw (t : ConceptTable) (l : LinkRow) : Prop :=
  l.resolved = true ↔ l.link.isExternal = false ∧ ∃ i, l.targetId = some i ∧ t.Has i

/- The call can leave the links of a concept as they are: its file is still there and is not staged. -/
def LinkState.Leaves (s : LinkState) (call : SyncCall) (i : Text) : Prop :=
  (∃ r ∈ s.bundle.tables.concepts.rows, r.id = i ∧
    r.path ∈ call.source.snapshot.concepts.map (·.path)) ∧
  (call.defaults.strict = true → ∀ e ∈ (call.plan s.bundle.tables).toParse, e.conceptId ≠ i)

/-- The file of the row is in the snapshot and, where files can be skipped, no other one takes its
id. -/
def SyncCall.KeepsPath (call : SyncCall) (r : ConceptRow) : Prop :=
  (∃ e ∈ call.source.snapshot.concepts, e.path = r.path) ∧
  (call.defaults.strict = false →
    ∀ e ∈ call.source.snapshot.concepts, e.conceptId = r.id → e.path = r.path)

/-- Where a link leads by its path to a concept with another id than the derived one, that path
stays. -/
def LinkState.Retains (s : LinkState) (call : SyncCall) : Prop :=
  ∀ l ∈ s.links, s.Leaves call l.sourceId → ∀ r ∈ s.bundle.tables.concepts.rows,
    l.link.targetPath = some r.path → l.link.targetId ≠ some r.id → call.KeepsPath r

def LinkSync (parsers : Parsers) (parser : LinkParser) (s : LinkState) (call : SyncCall)
    (s' : LinkState) : Prop :=
  s.sync parsers parser call = .ok s'

def RetainingSync (parsers : Parsers) (parser : LinkParser) (s : LinkState) (call : SyncCall)
    (s' : LinkState) : Prop :=
  s.Retains call ∧ s.sync parsers parser call = .ok s'

section Law

variable {parsers : Parsers} {parser : LinkParser} {s s' : LinkState} {call : SyncCall}
  {t : ConceptTable} {l : LinkRow} {r : ConceptRow}

/-- The second alternative of the stored expression, the path, finds nothing that the id does not. -/
theorem resolvedLaw_reresolve (l : LinkRow) :
    ResolvedLaw t ((l.retarget t).reresolve t) := by
  unfold ResolvedLaw LinkRow.reresolve LinkRow.retarget resolvedBy
  simp only [Bool.and_eq_true, Bool.not_eq_true', List.any_eq_true, Bool.or_eq_true, decide_eq_true_eq,
    Option.isSome_iff_exists]
  constructor
  · rintro ⟨⟨⟨i, hi⟩, hext⟩, r, hr, hid | hpath⟩
    · exact ⟨hext, r.id, hid.symm, r, hr, rfl⟩
    · have hat : t.idAt r.path = some r.id := ConceptTable.idAt_eq_some.mpr ⟨r, hr, rfl, rfl⟩
      refine ⟨hext, r.id, ?_, r, hr, rfl⟩
      rw [← hpath, Option.bind_some, hat, Option.some_or]
  · rintro ⟨hext, i, hi, r, hr, rfl⟩
    exact ⟨⟨⟨r.id, hi⟩, hext⟩, r, hr, .inl hi.symm⟩

theorem sync_resolvedLaw (h : s.sync parsers parser call = .ok s') (hl : l ∈ s'.links) :
    ResolvedLaw s'.bundle.tables.concepts l := by
  obtain ⟨out, -, hrows⟩ := sync_ok h
  obtain ⟨l₀, rfl, -⟩ := hrows l hl
  exact resolvedLaw_reresolve l₀

variable {b b' : BundleState} {out : SyncOutcome}

theorem Synced.row_of_staged (h : Synced parsers b call b' out) {c : StagedConcept}
    (hc : c ∈ out.staged) :
    ∃ r ∈ b'.tables.concepts.rows, r.path = c.path := by
  obtain ⟨r, hr, hid⟩ := (upsertConcepts_has h.concepts c.id).mpr (.inr ⟨c, hc, rfl⟩)
  refine ⟨r, hr, ?_⟩
  rcases upsertConcepts_origin h.concepts hr with ⟨c', hc', rfl⟩ | ⟨-, hnot⟩
  · obtain ⟨e, -, he, rfl⟩ := h.entry hc
    obtain ⟨e', -, he', rfl⟩ := h.entry hc'
    exact Snapshot.path_eq_of_conceptId (Snapshot.concepts_subset he') (Snapshot.concepts_subset he) hid
  · exact absurd hid.symm (hnot c hc)

theorem Synced.id_not_staged (h : Synced parsers b call b' out) (hkeeps : call.defaults.strict = false →
      ∀ e ∈ call.source.snapshot.concepts, e.conceptId = r.id → e.path = r.path)
    (hr : r ∈ (deletedRows b.tables (call.plan b.tables).removedPaths out.staged).concepts.rows)
    (hpath : ∀ s ∈ out.staged, s.path ≠ r.path) : ∀ s ∈ out.staged, s.id ≠ r.id := by
  intro s hs hid
  obtain ⟨e, -, he, rfl⟩ := h.entry hs
  refine hpath _ hs ?_
  cases hstrict : call.defaults.strict with
  | true =>
    obtain ⟨e', he', hp', hid', -⟩ := h.surviving_row hstrict hr
    exact (Snapshot.path_eq_of_conceptId (Snapshot.concepts_subset he)
      (Snapshot.concepts_subset he') (hid.trans hid'.symm)).trans hp'
  | false => exact hkeeps hstrict e he hid

theorem Synced.keepsPath (h : Synced parsers b call b' out) (hr : r ∈ b.tables.concepts.rows)
    (hkeeps : call.KeepsPath r) :
    ∃ r' ∈ b'.tables.concepts.rows, r'.path = r.path := by
  obtain ⟨⟨e, he, hp⟩, hno⟩ := hkeeps
  by_cases hstaged : ∃ c ∈ out.staged, c.path = r.path
  · obtain ⟨c, hc, hpath⟩ := hstaged
    obtain ⟨r', hr', hp'⟩ := h.row_of_staged hc
    exact ⟨r', hr', hp'.trans hpath⟩
  · -- the row is not deleted, and no other file takes its id
    have hkept : r ∈ (deletedRows b.tables
      (call.plan b.tables).removedPaths out.staged).concepts.rows := by
      refine mem_deletedRows.mpr
        ⟨hr, fun hgone => ?_, fun c hc hpath => absurd ⟨c, hc, hpath.symm⟩ hstaged⟩
      exact (mem_planned_removedPaths.mp hgone).2 e he hp
    have hother := h.id_not_staged hno hkept fun c hc hpath => hstaged ⟨c, hc, hpath⟩
    obtain ⟨r', hr', hid⟩ := (upsertConcepts_has h.concepts r.id).mpr (.inl ⟨r, hkept, rfl⟩)
    rcases upsertConcepts_origin h.concepts hr' with ⟨c, hc, rfl⟩ | ⟨hmem, -⟩
    · exact absurd hid (hother c hc)
    · exact ⟨r', hr', by rw [ConceptTable.eq_of_id hmem hkept hid]⟩

theorem Synced.leaves (h : Synced parsers s.bundle call s'.bundle out) {i : Text}
    (hkept : (deletedRows s.bundle.tables (call.plan s.bundle.tables).removedPaths
      out.staged).concepts.Has i) (hstaged : i ∉ out.staged.map (·.id)) : s.Leaves call i := by
  constructor
  · obtain ⟨r, hr, hid⟩ := hkept
    obtain ⟨hold, hpath, -⟩ := mem_deletedRows.mp hr
    refine ⟨r, hold, hid, ?_⟩
    by_contra hgone
    refine hpath (mem_planned_removedPaths.mpr ⟨⟨r, hold, rfl⟩, fun e he hp => hgone ?_⟩)
    exact List.mem_map.mpr ⟨e, he, hp⟩
  · intro hstrict e he hid
    exact hstaged (List.mem_map.mpr ⟨_, h.staged_of_strict hstrict (h.toParse ▸ he), hid⟩)

theorem targetLaw_retarget (hl : Inserted t l) : TargetLaw t ((l.retarget t).reresolve t) := by
  change (l.link.targetPath.bind t.idAt).or l.targetId = _
  rcases hl with hl | hl
  · rw [hl]
    rfl
  · rw [hl, ← Option.or_assoc, Option.or_self]
    rfl

/-- A link left as it is: only the concept at its path can have given it another id than the derived
one. -/
theorem targetLaw_kept {t' : ConceptTable} (hl : TargetLaw t l)
    (hkept : ∀ r ∈ t.rows, l.link.targetPath = some r.path → l.link.targetId ≠ some r.id →
      ∃ r' ∈ t'.rows, r'.path = r.path) : TargetLaw t' ((l.retarget t').reresolve t') := by
  change (l.link.targetPath.bind t'.idAt).or l.targetId =
    (l.link.targetPath.bind t'.idAt).or l.link.targetId
  cases hnew : l.link.targetPath.bind t'.idAt with
  | some i => rfl
  | none =>
    rw [Option.none_or, Option.none_or]
    unfold TargetLaw at hl
    cases hold : l.link.targetPath.bind t.idAt with
    | none => rw [hl, hold, Option.none_or]
    | some i =>
      obtain ⟨p, hp, hat⟩ := Option.bind_eq_some_iff.mp hold
      obtain ⟨r, hr, rfl, rfl⟩ := ConceptTable.idAt_eq_some.mp hat
      rw [hl, hold, Option.some_or]
      by_contra hne
      obtain ⟨r', hr', hpath⟩ := hkept r hr hp fun h => hne h.symm
      have hat' : t'.idAt r.path = some r'.id := ConceptTable.idAt_eq_some.mpr ⟨r', hr', hpath, rfl⟩
      rw [hp, Option.bind_some, hat'] at hnew
      cases hnew

theorem sync_targetLaw (hs : ∀ l ∈ s.links, TargetLaw s.bundle.tables.concepts l)
    (h : RetainingSync parsers parser s call s') : ∀ l ∈ s'.links,
      TargetLaw s'.bundle.tables.concepts l := by
  intro l' hl'
  obtain ⟨out, hsynced, hrows⟩ := sync_ok h.2
  obtain ⟨l, rfl, ⟨hl, hstaged, hkept⟩ | hinserted⟩ := hrows l' hl'
  · refine targetLaw_kept (hs l hl) fun r hr hp hne => ?_
    exact hsynced.keepsPath hr (h.1 l hl (hsynced.leaves hkept hstaged) r hr hp hne)
  · exact targetLaw_retarget hinserted

variable {calls : List SyncCall}

theorem run_targetLaw (h : Run (RetainingSync parsers parser) .empty calls s) :
    ∀ l ∈ s.links, TargetLaw s.bundle.tables.concepts l := by
  refine h.invariant (P := fun s => ∀ l ∈ s.links, TargetLaw s.bundle.tables.concepts l) ?_ ?_
  · intro l hl
    cases hl
  · exact fun s call s' hs hstep => sync_targetLaw hs hstep

theorem run_resolvedLaw (h : Run (LinkSync parsers parser) .empty calls s) :
    ∀ l ∈ s.links, ResolvedLaw s.bundle.tables.concepts l := by
  refine h.invariant (P := fun s => ∀ l ∈ s.links, ResolvedLaw s.bundle.tables.concepts l) ?_ ?_
  · intro l hl
    cases hl
  · exact fun s call s' _ hstep l hl => sync_resolvedLaw hstep hl

theorem fresh_targetLaw (h : LinkState.empty.sync parsers parser call = .ok s) :
    ∀ l ∈ s.links, TargetLaw s.bundle.tables.concepts l := by
  refine sync_targetLaw (s := .empty) ?_ ⟨?_, h⟩
  · intro l hl
    cases hl
  · intro l hl
    cases hl

theorem sync_converged (h : s.sync parsers parser call = .ok s') (hstrict : call.defaults.strict = true)
    (hd : call.source.snapshot.Distinct) : Converged s'.bundle.tables call.source.snapshot := by
  obtain ⟨out, hsynced, -⟩ := sync_ok h
  exact hsynced.converged hstrict hd

theorem link_graph_consistent {calls : List SyncCall}
    (hrun : Run (LinkSync parsers parser) .empty calls s) :
    (∀ l ∈ s.links, ResolvedLaw s.bundle.tables.concepts l) ∧
    (Run (RetainingSync parsers parser) .empty calls s →
      (∀ l ∈ s.links, TargetLaw s.bundle.tables.concepts l) ∧
      ∀ done call, calls = done ++ [call] → call.defaults.strict = true →
        call.source.snapshot.Distinct → ∀ scratch fresh, scratch.source.snapshot = call.source.snapshot →
        scratch.defaults.strict = true → LinkState.empty.sync parsers parser scratch = .ok fresh →
        ∀ l ∈ s.links, ∀ l' ∈ fresh.links, l.sourceId = l'.sourceId → l.link = l'.link →
          l.targetId = l'.targetId) := by
  refine ⟨run_resolvedLaw hrun, fun hretaining => ?_⟩
  have hlaw := run_targetLaw hretaining
  refine ⟨hlaw, ?_⟩
  rintro done call rfl hstrict hd scratch fresh hsnap hstrict' hfresh l hl l' hl' - hlink
  obtain ⟨s₀, -, hlast⟩ := Run.snoc_iff.mp hrun
  have hstored := sync_converged hlast hstrict hd
  have hscratch := sync_converged hfresh hstrict' (by rwa [hsnap])
  -- both hold the concepts of the snapshot
  have hrows : ∀ r, r ∈ s.bundle.tables.concepts.rows ↔ r ∈ fresh.bundle.tables.concepts.rows := by
    intro r
    rw [hstored r, hscratch r, hsnap]
  have hsame : s.bundle.tables.concepts.idAt = fresh.bundle.tables.concepts.idAt :=
    funext (ConceptTable.idAt_congr hrows)
  have htarget := hlaw l hl
  have htarget' := fresh_targetLaw hfresh l' hl'
  unfold TargetLaw at htarget htarget'
  rw [htarget, htarget', hlink, hsame]

end Law

section Decide

variable {s : LinkState} {call : SyncCall}

instance {i : Text} : Decidable (s.Leaves call i) :=
  inferInstanceAs (Decidable ((∃ r ∈ s.bundle.tables.concepts.rows, _) ∧
    (_ → ∀ e ∈ (call.plan s.bundle.tables).toParse, _)))

instance {r : ConceptRow} : Decidable (call.KeepsPath r) :=
  inferInstanceAs (Decidable ((∃ e ∈ call.source.snapshot.concepts, _) ∧
    (_ → ∀ e ∈ call.source.snapshot.concepts, _ → _)))

instance : Decidable (s.Retains call) :=
  inferInstanceAs (Decidable (∀ l ∈ s.links, _ → ∀ r ∈ s.bundle.tables.concepts.rows, _ → _ → _))

end Decide

def guideParser : LinkParser where
  pendingLinks bytes := if bytes = [1] then [⟨"k/references/g.md", "g", .inline⟩] else []
  attestations _ := []

/- Only `a.md` has a link. -/
def guideCall (snapshot : Snapshot) (instant : Int) : SyncCall :=
  { sampleCall snapshot instant with
    source :=
      { snapshot, readBytes := fun path => .ok (if path = "a.md" then [1] else [])
        rootOkfVersion := none } }

def guideInPackage : Snapshot where
  entries :=
    [⟨"a.md", "h1", .okfDocument⟩, ⟨"k/SKILL.md", "h2", .skillManifest⟩,
      ⟨"k/references/g.md", "h3", .skillReference⟩]
  classified := by decide

def guideRemoved : Snapshot where
  entries :=
    [⟨"a.md", "h1", .okfDocument⟩, ⟨"k/SKILL.md", "h2", .skillManifest⟩]
  classified := by decide

def guideAlone : Snapshot where
  entries :=
    [⟨"a.md", "h1", .okfDocument⟩, ⟨"k/references/g.md", "h3", .okfDocument⟩]
  classified := by decide

def LinkState.after (s : LinkState) (call : SyncCall) : LinkState :=
  match s.sync sampleParsers guideParser call with
  | .ok s' => s'
  | .error _ => s

def guideStored : LinkState := LinkState.empty.after (guideCall guideInPackage 1)

def guideLink : Link where
  text := some "g"
  kind := .inline
  ordinal := 0
  isExternal := false
  targetPath := some "k/references/g.md"
  targetId := some "k/references/g"

/-- The package goes, and the link follows the file from its id as a resource to that as a document. -/
theorem link_graph_consistent_reclassified :
    let s := guideStored.after (guideCall guideAlone 2)
    let l : LinkRow := ⟨"a".toList, guideLink, some "k/references/g".toList, true⟩
    guideStored.links.map (·.targetId) =
      [some "k/references/g.md".toList, some "k/references/g.md".toList] ∧
    l ∈ s.links ∧ ResolvedLaw s.bundle.tables.concepts l ∧ TargetLaw s.bundle.tables.concepts l := by
  intro s l
  have hfirst : LinkState.empty.sync sampleParsers guideParser (guideCall guideInPackage 1) =
      .ok guideStored := rfl
  have hsecond : guideStored.sync sampleParsers guideParser (guideCall guideAlone 2) = .ok s := rfl
  have hrun : Run (LinkSync sampleParsers guideParser) .empty
      ([guideCall guideInPackage 1] ++ [guideCall guideAlone 2]) s :=
    .snoc (.snoc (.start _) hfirst) hsecond
  have hretaining : Run (RetainingSync sampleParsers guideParser) .empty
      ([guideCall guideInPackage 1] ++ [guideCall guideAlone 2]) s :=
    .snoc (.snoc (.start _) ⟨by decide, hfirst⟩) ⟨by decide, hsecond⟩
  have hl : l ∈ s.links := by decide
  have hlaws := link_graph_consistent hrun
  exact ⟨by decide, hl, hlaws.1 l hl, (hlaws.2 hretaining).1 l hl⟩

/-- The file goes, and the link keeps the id it had as a resource. -/
theorem link_target_outdated :
    let s := guideStored.after (guideCall guideRemoved 2)
    let fresh := LinkState.empty.after (guideCall guideRemoved 2)
    guideStored.sync sampleParsers guideParser (guideCall guideRemoved 2) = .ok s ∧
    LinkState.empty.sync sampleParsers guideParser (guideCall guideRemoved 2) = .ok fresh ∧
    s.links = [⟨"a", guideLink, some "k/references/g.md", false⟩] ∧
    fresh.links = [⟨"a", guideLink, some "k/references/g", false⟩] := by
  intro s fresh
  exact ⟨rfl, rfl, by decide, by decide⟩

end Pgokf.Sync
