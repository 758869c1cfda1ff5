import Mathlib.Data.Int.ConditionallyCompleteOrder
import Mathlib.Data.Prod.Lex
import Mathlib.Order.ConditionallyCompleteLattice.Basic
import Pgokf.Lib.Batch
import Pgokf.Sync.Package
import Pgokf.Json
import Pgokf.Catalog.Bundles

/-! # The rows of a relationship write (`relationships.rs`)

The wire shape of a row, what a submitted array has to pass, and the canonical identity of rows. -/

namespace Pgokf.Catalog

open Lib Sync

inductive Direction where
  | directed
  | undirected
  deriving DecidableEq

def Direction.text : Direction → Text
  | .directed => "directed"
  | .undirected => "undirected"

def directions : List Direction := [.directed, .undirected]

structure RelationshipRow (F : Type) where
  sourceConceptId : Text
  relationType : Text
  direction : Direction
  targetBundleId : Option BundleId
  targetConceptId : Option Text
  externalTarget : Option Text
  sourceLocation : Option Text
  confidence : Option F
  provenance : Option Text
  -- Both flags are set by endpoint resolution.
  unresolved : Bool
  crossBundle : Bool
  deriving DecidableEq

/- What the code asks of `f64` and of `serde_json`. -/
structure Serde (F : Type) where
  ofInt : Int → F
  inUnit : F → Bool
  display : F → Text
  render : Json F → Text

/-! ### One row -/

def rowKeys : List Text :=
  ["source_concept_id", "relation_type", "direction", "target_bundle_id",
    "target_concept_id", "external_target", "source_location",
    "confidence", "provenance"]

def debugChar (c : Char) : String :=
  match c.toNat with
  | 0 => "\\0"
  | 9 => "\\t"
  | 10 => "\\n"
  | 13 => "\\r"
  | 34 => "\\\""
  | 92 => "\\\\"
  | n =>
    if n < 32 || n == 127 then "\\u\x7b" ++ String.ofList (Nat.toDigits 16 n) ++ "\x7d"
    else String.singleton c

/-- The `Debug` form of a string: in quotes, with the control characters escaped. -/
def debugText (t : Text) : String := "\"" ++ String.join (t.map debugChar) ++ "\""

def boundedText (key : String) (maxLen : Nat) (text : Text) : Except String Text := do
  ensure (!text.isEmpty) (key ++ " must not be empty")
  ensure (utf8Len text ≤ maxLen) (key ++ " exceeds the " ++ toString maxLen ++ "-character limit")
  pure text

section Fields

variable {F : Type} (object : List (Text × Json F))

def requiredText (key : String) (maxLen : Nat) : Except String Text := do
  let value ← orRefuse (object.lookup key.toList) (key ++ " is required")
  let text ← orRefuse value.asStr (key ++ " must be a string")
  boundedText key maxLen text

/-- A field that may be absent or `null`; what stands there otherwise is read by `f`. -/
def nullable {α : Type} (key : String) (f : Json F → Except String α) : Except String (Option α) :=
  match object.lookup key.toList with
  | none => pure none
  | some value => if value.isNull then pure none else some <$> f value

def optionalText (key : String) (maxLen : Nat) : Except String (Option Text) :=
  nullable object key fun value => do
    let text ← orRefuse value.asStr (key ++ " must be a string or null")
    boundedText key maxLen text

def validateRelationType (relationType : Text) : Except String Unit :=
  let namespaced := match splitOnce ':' relationType with
    | some (space, name) => !space.isEmpty && !name.isEmpty
    | none => false
  ensure namespaced ("relation_type must be namespaced as <namespace>:<name>, got " ++
    debugText relationType)

def rowDirection : Except String Direction := do
  let text := (← optionalText object "direction" 16).getD "directed"
  orRefuse (directions.find? (·.text = text))
    ("direction must be one of 'directed', 'undirected', got " ++ debugText text)

def rowTargetBundle : Except String (Option BundleId) :=
  nullable object "target_bundle_id" fun value => do
    let raw ← orRefuse value.asI64 "target_bundle_id must be an integer"
    ensure (0 < raw) "target_bundle_id must be greater than 0"
    pure raw

def rowConfidence (serde : Serde F) : Except String (Option F) :=
  nullable object "confidence" fun value => do
    let raw ← orRefuse (value.asF64 serde.ofInt) "confidence must be a number"
    ensure (serde.inUnit raw)
      ("confidence must be between 0 and 1, got " ++ String.ofList (serde.display raw))
    pure raw

def opaqueField (serde : Serde F) (key : String) : Except String (Option Text) :=
  nullable object key fun value => do
    ensure (utf8Len (serde.render value) ≤ 16384) (key ++ " exceeds the 16384-byte limit")
    pure (serde.render value)

end Fields

def supportedKeys {F : Type} (object : List (Text × Json F)) : Except String Unit :=
  match (object.map (·.1)).find? (· ∉ rowKeys) with
  | some key => .error ("unsupported key " ++ debugText key ++ "; the v1 row shape allows only [" ++
      String.intercalate ", " (rowKeys.map debugText) ++ "]")
  | none => .ok ()

def rowFields {F : Type} (serde : Serde F) (value : Json F) : Except String (RelationshipRow F) := do
  let object ← orRefuse value.asObject "each row must be a JSON object"
  supportedKeys object
  let sourceConceptId ← requiredText object "source_concept_id" 1024
  let relationType ← requiredText object "relation_type" 128
  validateRelationType relationType
  let direction ← rowDirection object
  let targetBundleId ← rowTargetBundle object
  let targetConceptId ← optionalText object "target_concept_id" 1024
  let externalTarget ← optionalText object "external_target" 1024
  ensure (targetBundleId.isNone || targetConceptId.isSome) "target_bundle_id requires target_concept_id"
  ensure (targetConceptId.isNone || externalTarget.isNone)
    "a row names either a resolved target concept or an external target, not both"
  let confidence ← rowConfidence object serde
  let sourceLocation ← opaqueField object serde "source_location"
  let provenance ← opaqueField object serde "provenance"
  pure { sourceConceptId, relationType, direction, targetBundleId, targetConceptId, externalTarget
         sourceLocation, confidence, provenance, unresolved := false, crossBundle := false }

def rowError (index : Nat) (message : String) : CatalogError :=
  .invalidParameter ("relationship row at index " ++ toString index ++ ": " ++ message)

def parseRow {F : Type} (serde : Serde F) (index : Nat) (value : Json F) :
    Except CatalogError (RelationshipRow F) :=
  (rowFields serde value).mapError (rowError index)

def parseRows {F : Type} (serde : Serde F) (rows : Json F) (maxRows : Nat) :
    Except CatalogError (List (RelationshipRow F)) := do
  let array ← orRefuse rows.asArray (.invalidParameter "rows must be a JSON array of row objects")
  ensure (array.length ≤ maxRows)
    (.invalidParameter ("rows holds " ++ toString array.length ++
      " entries but the hard limit is " ++ toString maxRows))
  array.zipIdx.mapM fun entry => parseRow serde entry.2 entry.1

/-! ### Canonical identities -/

/- `CanonicalIdentity`, ordered as the tuple is, with an absent option first and strings by code
points. -/
abbrev CanonicalIdentity :=
  Text ×ₗ Text ×ₗ Text ×ₗ WithBot Int ×ₗ WithBot Text ×ₗ WithBot Text

def canonicalIdentity {F : Type} (row : RelationshipRow F) : CanonicalIdentity :=
  toLex (row.sourceConceptId, toLex (row.relationType, toLex (row.direction.text,
    toLex (row.targetBundleId, toLex (row.targetConceptId, row.externalTarget)))))

def duplicateIdentity {F : Type} (row : RelationshipRow F) : CatalogError :=
  .invalidParameter ("duplicate canonical identity in rows: source " ++
    String.ofList row.sourceConceptId ++ " relation " ++ String.ofList row.relationType)

def rejectDuplicates {F : Type} (rows : List (RelationshipRow F)) (seen : List CanonicalIdentity := []) :
    Except CatalogError Unit :=
  match rows with
  | [] => pure ()
  | row :: rows => do
    ensure (canonicalIdentity row ∉ seen) (duplicateIdentity row)
    rejectDuplicates rows (canonicalIdentity row :: seen)

/-- `parse_rows` and `reject_duplicates`: the rows of a write as declared by its producer. -/
def declaredRows {F : Type} (serde : Serde F) (maxRows : Nat) (rows : Jsonb F) :
    Except CatalogError (List (RelationshipRow F)) := do
  let parsed ← parseRows serde rows.value maxRows
  rejectDuplicates parsed
  pure parsed

section Lemmas

variable {F : Type} {serde : Serde F} {object : List (Text × Json F)} {value : Json F}
  {row row' : RelationshipRow F} {key : String} {maxLen : Nat}

theorem Direction.text_injective : Function.Injective Direction.text := by
  intro a b h
  cases a <;> cases b <;> first | rfl | (revert h; decide)

theorem canonicalIdentity_inj : canonicalIdentity row = canonicalIdentity row' ↔
    row.sourceConceptId = row'.sourceConceptId ∧ row.relationType = row'.relationType ∧
      row.direction = row'.direction ∧ row.targetBundleId = row'.targetBundleId ∧
      row.targetConceptId = row'.targetConceptId ∧ row.externalTarget = row'.externalTarget := by
  constructor
  · intro h
    obtain ⟨hsource, h⟩ := Prod.mk.inj (toLex.injective h)
    obtain ⟨hrelation, h⟩ := Prod.mk.inj (toLex.injective h)
    obtain ⟨hdirection, h⟩ := Prod.mk.inj (toLex.injective h)
    obtain ⟨hbundle, h⟩ := Prod.mk.inj (toLex.injective h)
    obtain ⟨hconcept, hexternal⟩ := Prod.mk.inj (toLex.injective h)
    exact ⟨hsource, hrelation, Direction.text_injective hdirection, hbundle, hconcept, hexternal⟩
  · rintro ⟨hsource, hrelation, hdirection, hbundle, hconcept, hexternal⟩
    simp only [canonicalIdentity, hsource, hrelation, hdirection, hbundle, hconcept, hexternal]

variable {rows : List (RelationshipRow F)}

theorem rejectDuplicates_ok {seen : List CanonicalIdentity} (hseen : seen.Nodup) :
    rejectDuplicates rows seen = .ok () ↔
      (rows.map canonicalIdentity).Nodup ∧ ∀ i ∈ rows.map canonicalIdentity, i ∉ seen := by
  induction rows generalizing seen with
  | nil => simp [rejectDuplicates]
  | cons row rows ih =>
    simp only [rejectDuplicates, bind_eq_ok, ensure_eq_ok, decide_eq_true_eq]
    constructor
    · rintro ⟨-, hnew, hrest⟩
      obtain ⟨hnodup, hdisjoint⟩ := (ih (List.nodup_cons.mpr ⟨hnew, hseen⟩)).mp hrest
      grind
    · rintro ⟨hnodup, hdisjoint⟩
      have hnew : canonicalIdentity row ∉ seen := hdisjoint _ (by simp)
      refine ⟨(), hnew, (ih (List.nodup_cons.mpr ⟨hnew, hseen⟩)).mpr ?_⟩
      grind

variable {t : Text}

theorem boundedText_ok {text : Text} (h : boundedText key maxLen text = .ok t) : text = t := by
  simp only [boundedText, bind_eq_ok, pure_eq_ok] at h
  obtain ⟨-, -, -, -, h⟩ := h
  exact h

theorem requiredText_ok (h : requiredText object key maxLen = .ok t) :
    t ∈ (Json.object object).texts := by
  simp only [requiredText, bind_eq_ok, orRefuse_eq_ok] at h
  obtain ⟨value, hvalue, text, htext, hbound⟩ := h
  obtain rfl := boundedText_ok hbound
  exact Json.mem_texts_of_lookup hvalue (Json.mem_texts_of_asStr htext)

theorem nullable_ok {α : Type} {f : Json F → Except String α} {o : Option α} {a : α}
    (h : nullable object key f = .ok o) (ha : o = some a) :
    ∃ value, object.lookup key.toList = some value ∧ f value = .ok a := by
  subst ha
  unfold nullable at h
  split at h
  · cases h
  · rename_i value hvalue
    split at h
    · cases h
    · refine ⟨value, hvalue, ?_⟩
      cases hf : f value with
      | error e => simp [hf, Functor.map, Except.map] at h
      | ok b => simpa [hf, Functor.map, Except.map] using h

variable {o : Option Text}

theorem optionalText_ok (h : optionalText object key maxLen = .ok o) (ht : o = some t) :
    t ∈ (Json.object object).texts := by
  obtain ⟨value, hvalue, hf⟩ := nullable_ok h ht
  simp only [bind_eq_ok, orRefuse_eq_ok] at hf
  obtain ⟨text, htext, hbound⟩ := hf
  obtain rfl := boundedText_ok hbound
  exact Json.mem_texts_of_lookup hvalue (Json.mem_texts_of_asStr htext)

theorem opaqueField_ok (h : opaqueField object serde key = .ok o) (ht : o = some t) :
    ∃ value, t = serde.render value := by
  obtain ⟨value, -, hf⟩ := nullable_ok h ht
  simp only [bind_eq_ok, pure_eq_ok] at hf
  obtain ⟨-, -, rfl⟩ := hf
  exact ⟨value, rfl⟩

theorem rowConfidence_ok {o : Option F} {x : F} (h : rowConfidence object serde = .ok o)
    (hx : o = some x) : serde.inUnit x = true := by
  obtain ⟨value, -, hf⟩ := nullable_ok h hx
  simp only [bind_eq_ok, ensure_eq_ok, pure_eq_ok] at hf
  obtain ⟨raw, -, -, hunit, rfl⟩ := hf
  exact hunit

structure RelationshipRow.WellShaped (row : RelationshipRow F) : Prop where
  concept_of_bundle : row.targetBundleId.isSome → row.targetConceptId.isSome
  external_of_concept : row.targetConceptId.isSome → row.externalTarget = none

structure RelationshipRow.Plain (serde : Serde F) (row : RelationshipRow F) : Prop where
  source : nul ∉ row.sourceConceptId
  relation : nul ∉ row.relationType
  concept : ∀ t, row.targetConceptId = some t → nul ∉ t
  external : ∀ t, row.externalTarget = some t → nul ∉ t
  confidence : ∀ x, row.confidence = some x → serde.inUnit x = true
  location : ∀ t, row.sourceLocation = some t → ∃ value, t = serde.render value
  provenance : ∀ t, row.provenance = some t → ∃ value, t = serde.render value

theorem rowFields_ok (h : rowFields serde value = .ok row) (hplain : ∀ t ∈ value.texts, nul ∉ t) :
    row.WellShaped ∧ row.Plain serde := by
  simp only [rowFields, bind_eq_ok, orRefuse_eq_ok, ensure_eq_ok, pure_eq_ok] at h
  obtain ⟨object, hobject, -, -, source, hsource, relation, hrelation, -, -, direction, -, bundle,
    -, concept, hconcept, external, hexternal, -, hpair, -, hone, confidence, hconfidence, location,
    hlocation, provenance, hprovenance, rfl⟩ := h
  obtain rfl : value = .object object := by
    cases value <;> simp_all [Json.asObject]
  refine ⟨⟨fun hb => ?_, fun hc => ?_⟩,
    ⟨hplain _ (requiredText_ok hsource), hplain _ (requiredText_ok hrelation),
      fun t ht => hplain _ (optionalText_ok hconcept ht),
      fun t ht => hplain _ (optionalText_ok hexternal ht), fun x hx => rowConfidence_ok hconfidence hx,
      fun t ht => opaqueField_ok hlocation ht, fun t ht => opaqueField_ok hprovenance ht⟩⟩
  · cases bundle <;> simp_all
  · cases concept <;> simp_all

theorem parseRow_ok {index : Nat} : parseRow serde index value = .ok row ↔
    rowFields serde value = .ok row := by
  unfold parseRow
  cases rowFields serde value <;> simp [Except.mapError]

variable {maxRows : Nat}

theorem parseRows_ok {json : Json F} :
    parseRows serde json maxRows = .ok rows ↔ ∃ items, json = .array items ∧ items.length ≤ maxRows ∧
      List.Forall₂ (fun value row => rowFields serde value = .ok row) items rows := by
  have hitems : ∀ items : List (Json F), json.asArray = some items ↔ json = .array items := by
    intro items
    cases json <;> simp [Json.asArray]
  -- The position of a row is heard only in its error.
  have hindex : ∀ items : List (Json F),
      (items.zipIdx.mapM fun entry => parseRow serde entry.2 entry.1) = .ok rows ↔
        List.Forall₂ (fun value row => rowFields serde value = .ok row) items rows := by
    intro items
    conv_rhs => rw [← List.zipIdx_map_fst 0 items, List.forall₂_map_left_iff]
    refine Iff.trans ⟨forall₂_of_mapM, mapM_of_forall₂⟩ ?_
    simp only [parseRow_ok]
  simp only [parseRows, bind_eq_ok, orRefuse_eq_ok, ensure_eq_ok, decide_eq_true_eq, hitems, hindex]
  simp

variable {json : Jsonb F}

theorem declaredRows_ok :
    declaredRows serde maxRows json = .ok rows ↔ ∃ items, json.value = .array items ∧
      items.length ≤ maxRows ∧
        List.Forall₂ (fun value row => rowFields serde value = .ok row) items rows ∧
      (rows.map canonicalIdentity).Nodup := by
  simp only [declaredRows, bind_eq_ok, pure_eq_ok, parseRows_ok,
    rejectDuplicates_ok List.nodup_nil]
  constructor
  · rintro ⟨rows, ⟨items, hitems, hlen, hrows⟩, -, ⟨hnodup, -⟩, rfl⟩
    exact ⟨items, hitems, hlen, hrows, hnodup⟩
  · rintro ⟨items, hitems, hlen, hrows, hnodup⟩
    exact ⟨rows, ⟨items, hitems, hlen, hrows⟩, (), ⟨hnodup, by simp⟩, rfl⟩

theorem declaredRows_shape (h : declaredRows serde maxRows json = .ok rows) :
    ∀ row ∈ rows, row.WellShaped ∧ row.Plain serde := by
  obtain ⟨items, hitems, -, hrows, -⟩ := declaredRows_ok.mp h
  intro row hrow
  obtain ⟨value, hvalue, hfields⟩ := exists_of_forall₂_right hrows hrow
  refine rowFields_ok hfields fun t ht => json.plain t ?_
  rw [hitems]
  exact Json.mem_texts_of_array hvalue ht

end Lemmas

end Pgokf.Catalog
