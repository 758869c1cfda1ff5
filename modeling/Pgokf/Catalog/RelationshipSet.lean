import Pgokf.Lib.Separated
import Pgokf.Catalog.RelationshipRows
import Pgokf.Catalog.Relationships

/-! # Canonical relationship sets (`relationships.rs`)

Endpoint resolution, the canonical order of the rows, and the set hash that identifies a
publication. -/

namespace Pgokf.Catalog

open Lib Sync

/- What `resolve_endpoints` reads of the catalog: the visible active bundles and the rows of
`pgokf.concepts`. -/
structure Endpoints where
  sourceBundleId : BundleId
  visible : BundleId → Bool
  concepts : BundleId → Text → Bool

section Definitions

variable {F : Type}

namespace RelationshipRow

/-- A target concept named without a bundle lies in the source bundle. -/
def declareBundle (sourceBundleId : BundleId) (row : RelationshipRow F) : RelationshipRow F :=
  if row.targetConceptId.isSome && row.targetBundleId.isNone then
    { row with targetBundleId := some sourceBundleId }
  else row

def dropInvisible (e : Endpoints) (row : RelationshipRow F) : RelationshipRow F :=
  let flagged := { row with crossBundle := row.targetBundleId.any (· != e.sourceBundleId) }
  match row.targetBundleId with
  | some target =>
    if e.visible target then flagged
    else { flagged with targetBundleId := none, targetConceptId := none, unresolved := true }
  | none => flagged

/- A staged row is unresolved until its activation; one that activates at once if its target concept
is absent. External and target-less rows always are. -/
def settle (e : Endpoints) (validateConcepts : Bool) (row : RelationshipRow F) : RelationshipRow F :=
  match row.targetBundleId, row.targetConceptId with
  | some bundle, some concept =>
    { row with unresolved := row.unresolved || !validateConcepts || !e.concepts bundle concept }
  | _, none => { row with unresolved := true }
  | none, some _ => row

def resolve (e : Endpoints) (validateConcepts : Bool) (row : RelationshipRow F) : RelationshipRow F :=
  ((row.declareBundle e.sourceBundleId).dropInvisible e).settle e validateConcepts

def wire (row : RelationshipRow F) : RelationshipRow F :=
  { row with unresolved := false, crossBundle := false }

end RelationshipRow

def resolveEndpoints (e : Endpoints) (rows : List (RelationshipRow F)) (validateConcepts : Bool) :
    Except CatalogError (List (RelationshipRow F)) :=
  match rows.find? fun row => validateConcepts && !e.concepts e.sourceBundleId row.sourceConceptId with
  | some row => .error (.invalidParameter ("source concept " ++ String.ofList row.sourceConceptId ++
      " does not exist in bundle " ++ toString e.sourceBundleId))
  | none => .ok (rows.map (·.resolve e validateConcepts))

def orDash (field : Option Text) : Text := field.getD "-"

def canonicalFields (serde : Serde F) (row : RelationshipRow F) : List Text :=
  [row.sourceConceptId, row.relationType, row.direction.text,
    orDash (row.targetBundleId.map fun id => (toString id).toList), orDash row.targetConceptId,
    orDash row.externalTarget, orDash (row.confidence.map serde.display), orDash row.sourceLocation,
    orDash row.provenance]

def canonicalRowText (serde : Serde F) (row : RelationshipRow F) : Text :=
  [nul].intercalate (canonicalFields serde row)

/- `canonicalize`; `digest` is the BLAKE3 digest of the UTF-8 bytes of a text, in hexadecimal. -/
def canonicalize (digest : Text → Text) (serde : Serde F) (rows : List (RelationshipRow F)) :
    List (RelationshipRow F × Text) × Text :=
  let sorted := rows.insertionSort fun a b => canonicalIdentity a ≤ canonicalIdentity b
  let hashed := sorted.map fun row => (row, digest (canonicalRowText serde row))
  (hashed, digest (terminated '\n' (hashed.map (·.2))))

def canonicalSet (digest : Text → Text) (serde : Serde F) (maxRows : Nat) (e : Endpoints)
    (activate : Bool) (rows : Jsonb F) :
    Except CatalogError (List (RelationshipRow F × Text) × Text) := do
  let declared ← declaredRows serde maxRows rows
  let resolved ← resolveEndpoints e declared activate
  pure (canonicalize digest serde resolved)

def submission (digest : Text → Text) (serde : Serde F) (maxRows : Nat) (e : Endpoints)
    (rows : Jsonb F) : Submission where
  parsed := do
    let _ ← declaredRows serde maxRows rows
    pure ()
  resolved activate := do
    let (hashed, setHash) ← canonicalSet digest serde maxRows e activate rows
    pure { setHash, rowCount := hashed.length }

end Definitions

/-! ### What a row hashes to -/

section RowText

variable {F : Type} {serde : Serde F} {row row' : RelationshipRow F}

/- `Display` of the doubles in range and `Value::to_string`, as they are documented. -/
structure Serde.Lawful (serde : Serde F) : Prop where
  display_inj : ∀ x y, serde.inUnit x = true → serde.inUnit y = true →
    serde.display x = serde.display y → x = y
  display_plain : ∀ x, nul ∉ serde.display x
  display_ne_dash : ∀ x, serde.display x ≠ "-"
  render_plain : ∀ value, nul ∉ serde.render value
  render_ne_dash : ∀ value, serde.render value ≠ "-"

/-- The shape that `relationship_target_chk` asks of a stored row. -/
structure RelationshipRow.Paired (row : RelationshipRow F) : Prop where
  pair : row.targetBundleId.isSome = row.targetConceptId.isSome
  external : row.targetConceptId.isSome → row.externalTarget = none

variable {n : Nat}

theorem isDigit_of_mem_repr {c : Char} (hc : c ∈ (Nat.repr n).toList) : c.isDigit = true := by
  rw [Nat.repr, String.toList_ofList] at hc
  exact Nat.isDigit_of_mem_toDigits (by decide) (by decide) hc

theorem toList_negSucc (n : Nat) :
    (toString (Int.negSucc n)).toList = '-' :: (Nat.repr (n + 1)).toList := by
  simp [toString, Int.repr, String.toList_append]

theorem nul_not_mem_bundleText (b : BundleId) : nul ∉ (toString b).toList := by
  have hdigits : ∀ n, nul ∉ (Nat.repr n).toList := fun n hmem =>
    absurd (isDigit_of_mem_repr hmem) (by decide)
  cases b with
  | ofNat n => exact hdigits n
  | negSucc n =>
    rw [toList_negSucc, List.mem_cons, not_or]
    exact ⟨by decide, hdigits _⟩

theorem bundleText_ne_dash (b : BundleId) : (toString b).toList ≠ "-" := by
  intro h
  cases b with
  | ofNat n =>
    have hmem : '-' ∈ (Nat.repr n).toList := by
      have h : (Nat.repr n).toList = "-" := h
      simp [h]
    exact absurd (isDigit_of_mem_repr hmem) (by decide)
  | negSucc n =>
    rw [toList_negSucc] at h
    have hempty : (Nat.repr (n + 1)).toList = [] := (List.cons.inj h).2
    simp at hempty

theorem repr_toList_inj {m : Nat} (h : (Nat.repr m).toList = (Nat.repr n).toList) : m = n := by
  rw [Nat.repr, Nat.repr, String.toList_ofList, String.toList_ofList] at h
  have hread : ∀ k : Nat, Nat.ofDigitChars 10 (Nat.toDigits 10 k) 0 = k := fun k =>
    Nat.ofDigitChars_toDigits (by decide) (by decide)
  rw [← hread m, h, hread n]

theorem bundleText_injective : Function.Injective fun b : BundleId => (toString b).toList := by
  have hsign : ∀ m n, (Nat.repr m).toList ≠ '-' :: (Nat.repr n).toList := by
    intro m n h
    have hmem : '-' ∈ (Nat.repr m).toList := by simp [h]
    exact absurd (isDigit_of_mem_repr hmem) (by decide)
  intro a b h
  cases a with
  | ofNat m =>
    cases b with
    | ofNat n => exact congrArg _ (repr_toList_inj h)
    | negSucc n => exact absurd (h.trans (toList_negSucc n)) (hsign m (n + 1))
  | negSucc m =>
    cases b with
    | ofNat n => exact absurd (h.symm.trans (toList_negSucc m)) (hsign n (m + 1))
    | negSucc n =>
      have htail := (List.cons.inj ((toList_negSucc m).symm.trans (h.trans (toList_negSucc n)))).2
      exact congrArg _ (Nat.succ.inj (repr_toList_inj htail))

variable {a b : Option Text}

theorem orDash_inj (ha : a ≠ some "-".toList) (hb : b ≠ some "-".toList) (h : orDash a = orDash b) :
    a = b := by
  cases a <;> cases b <;> simp_all [orDash]

theorem orDash_inj_of_isSome (hsome : a.isSome = b.isSome) (h : orDash a = orDash b) : a = b := by
  cases a <;> cases b <;> simp_all [orDash]

theorem orDash_map_inj {α : Type} {f : α → Text} {a b : Option α}
    (hf : ∀ x y, a = some x → b = some y → f x = f y → x = y) (hdash : ∀ x, f x ≠ "-")
    (h : orDash (a.map f) = orDash (b.map f)) : a = b := by
  have hne : ∀ o : Option α, o.map f ≠ some "-" := by
    intro o ho
    obtain ⟨x, -, hx⟩ := Option.map_eq_some_iff.mp ho
    exact hdash x hx
  have hmap : a.map f = b.map f := orDash_inj (hne a) (hne b) h
  cases a <;> cases b <;> simp_all

theorem nul_not_mem_orDash {o : Option Text} (h : ∀ t, o = some t → nul ∉ t) : nul ∉ orDash o := by
  cases o with
  | none => decide
  | some t => exact h t rfl

theorem canonicalFields_plain (hserde : serde.Lawful) (h : row.Plain serde) :
    ∀ field ∈ canonicalFields serde row, nul ∉ field := by
  have hrendered : ∀ o : Option Text, (∀ t, o = some t → ∃ value, t = serde.render value) →
      nul ∉ orDash o := by
    intro o ho
    refine nul_not_mem_orDash fun t ht => ?_
    obtain ⟨value, rfl⟩ := ho t ht
    exact hserde.render_plain value
  have hdirection : nul ∉ row.direction.text := by cases row.direction <;> decide
  have hbundle : nul ∉ orDash (row.targetBundleId.map fun id => (toString id).toList) := by
    refine nul_not_mem_orDash fun t ht => ?_
    obtain ⟨b, -, rfl⟩ := Option.map_eq_some_iff.mp ht
    exact nul_not_mem_bundleText b
  have hconfidence : nul ∉ orDash (row.confidence.map serde.display) := by
    refine nul_not_mem_orDash fun t ht => ?_
    obtain ⟨x, -, rfl⟩ := Option.map_eq_some_iff.mp ht
    exact hserde.display_plain x
  simp only [canonicalFields, List.forall_mem_cons]
  exact ⟨h.source, h.relation, hdirection, hbundle, nul_not_mem_orDash h.concept,
    nul_not_mem_orDash h.external, hconfidence, hrendered _ h.location, hrendered _ h.provenance,
    by simp⟩

/-- The row with its external target as the row text has it, where an absent one reads `-`. -/
def RelationshipRow.masked (row : RelationshipRow F) : RelationshipRow F :=
  { row with externalTarget := some (orDash row.externalTarget) }

theorem canonicalRowText_inj (hserde : serde.Lawful) (h : row.Plain serde) (h' : row'.Plain serde)
    (hp : row.Paired) (hp' : row'.Paired)
    (htext : canonicalRowText serde row = canonicalRowText serde row') :
    row.wire.masked = row'.wire.masked := by
  have hfields : canonicalFields serde row = canonicalFields serde row' :=
    intercalate_inj (canonicalFields_plain hserde h) (canonicalFields_plain hserde h')
      (by simp [canonicalFields]) (by simp [canonicalFields]) htext
  have hrendered : ∀ o o' : Option Text, (∀ t, o = some t → ∃ value, t = serde.render value) →
      (∀ t, o' = some t → ∃ value, t = serde.render value) → orDash o = orDash o' → o = o' := by
    intro o o' ho ho'
    refine orDash_inj (fun hdash => ?_) fun hdash => ?_
    · obtain ⟨value, hvalue⟩ := ho _ hdash
      exact hserde.render_ne_dash value hvalue.symm
    · obtain ⟨value, hvalue⟩ := ho' _ hdash
      exact hserde.render_ne_dash value hvalue.symm
  simp only [canonicalFields, List.cons.injEq, and_true] at hfields
  obtain ⟨hsource, hrelation, hdirection, hbundle, hconcept, hexternal, hconfidence, hlocation,
    hprovenance⟩ := hfields
  have hbundle : row.targetBundleId = row'.targetBundleId :=
    orDash_map_inj (fun x y _ _ hxy => bundleText_injective hxy)
      bundleText_ne_dash hbundle
  -- A row with a target has both halves of it, so a concept named `-` is not an absent one.
  have hconcept : row.targetConceptId = row'.targetConceptId :=
    orDash_inj_of_isSome (by rw [← hp.pair, ← hp'.pair, hbundle]) hconcept
  have hconfidence : row.confidence = row'.confidence :=
    orDash_map_inj (fun x y hx hy => hserde.display_inj x y (h.confidence x hx) (h'.confidence y hy))
      hserde.display_ne_dash hconfidence
  simp only [RelationshipRow.masked, RelationshipRow.wire, hsource, hrelation,
    Direction.text_injective hdirection, hbundle, hconcept, hexternal, hconfidence,
    hrendered _ _ h.location h'.location hlocation, hrendered _ _ h.provenance h'.provenance hprovenance]

end RowText

section Resolution

variable {F : Type} {serde : Serde F} {e : Endpoints} {validate : Bool} {row row' : RelationshipRow F}

def RelationshipRow.target (e : Endpoints) (row : RelationshipRow F) : Option (BundleId × Text) :=
  row.targetConceptId.bind fun concept =>
    let bundle := row.targetBundleId.getD e.sourceBundleId
    if e.visible bundle then some (bundle, concept) else none

theorem settle_wire : (row.settle e validate).wire = row.wire := by
  unfold RelationshipRow.settle
  split <;> rfl

theorem resolve_wire (e : Endpoints) (validate : Bool) (h : row.WellShaped) :
    (row.resolve e validate).wire =
    { row.wire with
      targetBundleId := (row.target e).map (·.1)
      targetConceptId := (row.target e).map (·.2) } := by
  obtain ⟨source, relation, direction, bundle, concept, external, location, confidence, provenance,
    unresolved, crossBundle⟩ := row
  rw [RelationshipRow.resolve, settle_wire]
  cases concept with
  | none =>
    cases bundle with
    | none => rfl
    | some b => simpa using h.concept_of_bundle rfl
  | some c =>
    cases bundle with
    | none =>
      by_cases hvisible : e.visible e.sourceBundleId = true <;>
        simp [RelationshipRow.declareBundle, RelationshipRow.dropInvisible, RelationshipRow.target,
          RelationshipRow.wire, hvisible]
    | some b =>
      by_cases hvisible : e.visible b = true <;>
        simp [RelationshipRow.declareBundle, RelationshipRow.dropInvisible, RelationshipRow.target,
          RelationshipRow.wire, hvisible]

theorem concept_of_target {b : BundleId} {c : Text} (h : row.target e = some (b, c)) :
    row.targetConceptId = some c := by
  obtain ⟨concept, hconcept, hbundle⟩ := Option.bind_eq_some_iff.mp h
  simp only [Option.ite_none_right_eq_some, Option.some.injEq, Prod.mk.injEq] at hbundle
  rw [hconcept, hbundle.2.2]

theorem RelationshipRow.Paired.of_wire (h : row.wire.Paired) : row.Paired := ⟨h.pair, h.external⟩

theorem RelationshipRow.Plain.of_wire (h : row.wire.Plain serde) : row.Plain serde :=
  ⟨h.source, h.relation, h.concept, h.external, h.confidence, h.location, h.provenance⟩

theorem resolve_paired (h : row.WellShaped) : (row.resolve e validate).Paired := by
  refine .of_wire ?_
  rw [resolve_wire e validate h]
  constructor
  · simp
  · intro hsome
    rw [Option.isSome_map, Option.isSome_iff_exists] at hsome
    obtain ⟨⟨b, c⟩, htarget⟩ := hsome
    exact h.external_of_concept (by simp [concept_of_target htarget])

theorem resolve_plain (h : row.WellShaped) (hplain : row.Plain serde) :
    (row.resolve e validate).Plain serde := by
  refine .of_wire ?_
  rw [resolve_wire e validate h]
  refine ⟨hplain.source, hplain.relation, fun t ht => ?_, hplain.external, hplain.confidence,
    hplain.location, hplain.provenance⟩
  obtain ⟨⟨b, c⟩, htarget, rfl⟩ := Option.map_eq_some_iff.mp ht
  exact hplain.concept _ (concept_of_target htarget)

def RelationshipRow.lost (e : Endpoints) (row : RelationshipRow F) : Bool :=
  row.targetConceptId.isSome && !e.visible (row.targetBundleId.getD e.sourceBundleId)

def RelationshipRow.untargeted (row : RelationshipRow F) : Bool :=
  row.targetConceptId.isNone && row.externalTarget.isNone

/-- Two targets that resolution does not keep apart: both lost, one lost and the other absent, or
one concept with and without its bundle. -/
def EndpointsMeet (e : Endpoints) (a b : RelationshipRow F) : Prop :=
  (a.lost e ∧ b.lost e) ∨ (a.lost e ∧ b.untargeted) ∨ (a.untargeted ∧ b.lost e) ∨
    (a.targetConceptId.isSome ∧ a.targetConceptId = b.targetConceptId ∧
      a.targetBundleId.getD e.sourceBundleId = b.targetBundleId.getD e.sourceBundleId)

def Collides (e : Endpoints) (a b : RelationshipRow F) : Prop :=
  a.sourceConceptId = b.sourceConceptId ∧ a.relationType = b.relationType ∧ a.direction = b.direction ∧
    EndpointsMeet e a b

instance (e : Endpoints) (a b : RelationshipRow F) : Decidable (EndpointsMeet e a b) :=
  inferInstanceAs (Decidable (_ ∨ _))

instance (e : Endpoints) (a b : RelationshipRow F) : Decidable (Collides e a b) :=
  inferInstanceAs (Decidable (_ ∧ _))

theorem endpoints_resolve (h : row.WellShaped) (h' : row'.WellShaped) :
    row.target e = row'.target e ∧ row.externalTarget = row'.externalTarget ↔
      (row.targetBundleId = row'.targetBundleId ∧ row.targetConceptId = row'.targetConceptId ∧
        row.externalTarget = row'.externalTarget) ∨ EndpointsMeet e row row' := by
  have hbundle := h.concept_of_bundle
  have hbundle' := h'.concept_of_bundle
  have hexternal := h.external_of_concept
  have hexternal' := h'.external_of_concept
  simp only [RelationshipRow.target, EndpointsMeet, RelationshipRow.lost, RelationshipRow.untargeted]
  -- Only the targets matter, and whether the bundle that each row names is visible.
  generalize row.targetBundleId = bundle, row'.targetBundleId = bundle', row.targetConceptId = concept,
    row'.targetConceptId = concept', row.externalTarget = external,
    row'.externalTarget = external' at *
  cases concept with
  | none =>
    obtain rfl : bundle = none := by simpa using hbundle
    cases concept' with
    | none =>
      obtain rfl : bundle' = none := by simpa using hbundle'
      simp
    | some c' =>
      obtain rfl : external' = none := hexternal' rfl
      by_cases hv' : e.visible (bundle'.getD e.sourceBundleId) = true <;> simp [hv']
  | some c =>
    obtain rfl : external = none := hexternal rfl
    cases concept' with
    | none =>
      obtain rfl : bundle' = none := by simpa using hbundle'
      by_cases hv : e.visible (bundle.getD e.sourceBundleId) = true <;>
        simp [hv, @eq_comm (Option Text) none]
    | some c' =>
      obtain rfl : external' = none := hexternal' rfl
      by_cases hv : e.visible (bundle.getD e.sourceBundleId) = true <;>
        by_cases hv' : e.visible (bundle'.getD e.sourceBundleId) = true <;> simp [hv, hv'] <;> grind

theorem identity_resolve (h : row.WellShaped) (h' : row'.WellShaped) :
    canonicalIdentity (row.resolve e validate) = canonicalIdentity (row'.resolve e validate) ↔
      canonicalIdentity row = canonicalIdentity row' ∨ Collides e row row' := by
  have hfields : ∀ {r : RelationshipRow F}, canonicalIdentity r = canonicalIdentity r.wire :=
    fun {r} => rfl
  have htarget : ∀ o o' : Option (BundleId × Text),
      o.map (·.1) = o'.map (·.1) ∧ o.map (·.2) = o'.map (·.2) ↔ o = o' := by
    intro o o'
    cases o <;> cases o' <;> simp [Prod.ext_iff]
  rw [hfields (r := row.resolve e validate), hfields (r := row'.resolve e validate),
    resolve_wire e validate h, resolve_wire e validate h', canonicalIdentity_inj, canonicalIdentity_inj]
  simp only [RelationshipRow.wire, Collides, ← and_or_left, ← endpoints_resolve h h', ← htarget,
    and_assoc]

theorem nodup_identity_resolve {rows : List (RelationshipRow F)} (hshape : ∀ row ∈ rows, row.WellShaped)
    (hnodup : (rows.map canonicalIdentity).Nodup) :
    ((rows.map (·.resolve e validate)).map canonicalIdentity).Nodup ↔
      rows.Pairwise fun a b => ¬ Collides e a b := by
  rw [List.map_map, List.Nodup, List.pairwise_map]
  rw [List.Nodup, List.pairwise_map] at hnodup
  constructor
  · intro h
    refine h.imp_of_mem fun ha hb hne hcollide => hne ?_
    exact (identity_resolve (hshape _ ha) (hshape _ hb)).mpr (.inr hcollide)
  · intro h
    refine (hnodup.and h).imp_of_mem fun ha hb hboth heq => ?_
    rcases (identity_resolve (hshape _ ha) (hshape _ hb)).mp heq with hsame | hcollide
    · exact hboth.1 hsame
    · exact hboth.2 hcollide

end Resolution

section Set

variable {F : Type} {digest : Text → Text} {serde : Serde F} {maxRows maxRows' : Nat}
  {e e' : Endpoints} {activate activate' : Bool} {rows rows' : Jsonb F}
  {stored stored' : List (RelationshipRow F × Text) × Text}

theorem canonicalSet_ok : canonicalSet digest serde maxRows e activate rows = .ok stored ↔
    ∃ declared, declaredRows serde maxRows rows = .ok declared ∧
      (∀ row ∈ declared, activate = true → e.concepts e.sourceBundleId row.sourceConceptId = true) ∧
      stored = canonicalize digest serde (declared.map (·.resolve e activate)) := by
  have hresolve : ∀ (declared : List (RelationshipRow F)) resolved,
      resolveEndpoints e declared activate = .ok resolved ↔
        (∀ row ∈ declared, activate = true → e.concepts e.sourceBundleId row.sourceConceptId = true) ∧
          resolved = declared.map (·.resolve e activate) := by
    intro declared resolved
    unfold resolveEndpoints
    split
    · rename_i row hrow
      have hmem := List.mem_of_find?_eq_some hrow
      have hmissing := List.find?_some hrow
      simp only [Bool.and_eq_true, Bool.not_eq_true'] at hmissing
      simp only [reduceCtorEq, false_iff, not_and]
      intro hall
      rw [hall row hmem hmissing.1] at hmissing
      cases hmissing.2
    · rename_i hrow
      rw [List.find?_eq_none] at hrow
      simp only [Except.ok.injEq, eq_comm (a := resolved), iff_and_self]
      rintro - row hmem hactivate
      simpa [hactivate] using hrow row hmem
  simp only [canonicalSet, bind_eq_ok, pure_eq_ok, hresolve]
  constructor
  · rintro ⟨declared, hdeclared, resolved, ⟨hsources, rfl⟩, rfl⟩
    exact ⟨declared, hdeclared, hsources, rfl⟩
  · rintro ⟨declared, hdeclared, hsources, rfl⟩
    exact ⟨declared, hdeclared, _, ⟨hsources, rfl⟩, rfl⟩

theorem canonicalize_rows (digest : Text → Text) (serde : Serde F) (rows : List (RelationshipRow F)) :
    (canonicalize digest serde rows).1.map (·.1) =
      rows.insertionSort fun a b => canonicalIdentity a ≤ canonicalIdentity b := by
  simp [canonicalize, Function.comp_def]

variable {a b : List (RelationshipRow F)}

theorem texts_eq_of_setHash_eq (hdigest : Function.Injective digest) (hhex : ∀ t, '\n' ∉ digest t)
    (h : (canonicalize digest serde a).2 = (canonicalize digest serde b).2) :
    (((canonicalize digest serde a).1.map (·.1)).map (canonicalRowText serde)) =
      ((canonicalize digest serde b).1.map (·.1)).map (canonicalRowText serde) := by
  have hrecords : ∀ rows : List (RelationshipRow F),
      (canonicalize digest serde rows).1.map (·.2) =
        (((canonicalize digest serde rows).1.map (·.1)).map (canonicalRowText serde)).map digest := by
    intro rows
    simp [canonicalize, Function.comp_def]
  have hplain : ∀ rows : List (RelationshipRow F), ∀ x ∈ (canonicalize digest serde rows).1.map (·.2),
      '\n' ∉ x := by
    intro rows x hx
    rw [hrecords] at hx
    obtain ⟨t, -, rfl⟩ := List.mem_map.mp hx
    exact hhex t
  have hhashes := terminated_inj (hplain a) (hplain b) (hdigest h)
  rw [hrecords, hrecords] at hhashes
  exact List.map_injective_iff.mpr hdigest hhashes

def RelationshipRow.dashed (row : RelationshipRow F) : Bool := row.externalTarget == some "-".toList

def storedRows (stored : List (RelationshipRow F × Text) × Text) : List (RelationshipRow F) :=
  stored.1.map (·.1.wire)

theorem masked_eq_of_setHash_eq (hserde : serde.Lawful) (hdigest : Function.Injective digest)
    (hhex : ∀ t, '\n' ∉ digest t)
    (h : canonicalSet digest serde maxRows e activate rows = .ok stored)
    (h' : canonicalSet digest serde maxRows' e' activate' rows' = .ok stored')
    (hhash : stored.2 = stored'.2) :
    (storedRows stored).map (·.masked) = (storedRows stored').map (·.masked) := by
  obtain ⟨declared, hdeclared, -, rfl⟩ := canonicalSet_ok.mp h
  obtain ⟨declared', hdeclared', -, rfl⟩ := canonicalSet_ok.mp h'
  have hshape : ∀ {e : Endpoints} {activate : Bool} {declared : List (RelationshipRow F)},
      (∀ row ∈ declared, row.WellShaped ∧ row.Plain serde) →
        ∀ row ∈ (canonicalize digest serde (declared.map (·.resolve e activate))).1.map (·.1),
          row.Paired ∧ row.Plain serde := by
    intro e activate declared hrows row hrow
    rw [canonicalize_rows, List.mem_insertionSort] at hrow
    obtain ⟨row, hmem, rfl⟩ := List.mem_map.mp hrow
    obtain ⟨hwell, hplain⟩ := hrows row hmem
    exact ⟨resolve_paired hwell, resolve_plain hwell hplain⟩
  have htexts := texts_eq_of_setHash_eq hdigest hhex hhash
  have hmasked := map_eq_of_map_eq (m := fun row => row.wire.masked) (fun a ha b hb hab => ?_) htexts
  · simpa [storedRows, Function.comp_def] using hmasked
  · obtain ⟨hpaired, hplain⟩ := hshape (declaredRows_shape hdeclared) a ha
    obtain ⟨hpaired', hplain'⟩ := hshape (declaredRows_shape hdeclared') b hb
    exact canonicalRowText_inj hserde hplain hplain' hpaired hpaired' hab

/-- Equal set hashes stand for the same rows, up to an external target `-` in place of none. -/
theorem storedRows_perm_of_setHash_eq (hserde : serde.Lawful) (hdigest : Function.Injective digest)
    (hhex : ∀ t, '\n' ∉ digest t)
    (h : canonicalSet digest serde maxRows e activate rows = .ok stored)
    (h' : canonicalSet digest serde maxRows' e' activate' rows' = .ok stored')
    (hhash : stored.2 = stored'.2) :
    (storedRows stored).Perm (storedRows stored') ↔
      ((storedRows stored).filter (·.dashed)).Perm ((storedRows stored').filter (·.dashed)) := by
  constructor
  · exact fun hperm => hperm.filter _
  · intro hdashed
    have hmasked := masked_eq_of_setHash_eq hserde hdigest hhex h h' hhash
    refine perm_of_map_perm
      (g := fun row => if row.dashed then { row with externalTarget := none } else row)
      (fun row hrow => ?_) (.of_eq hmasked) hdashed
    obtain ⟨source, relation, direction, bundle, concept, external, location, confidence, provenance,
      unresolved, crossBundle⟩ := row
    cases external with
    | none => rfl
    | some t =>
      simpa [RelationshipRow.masked, RelationshipRow.dashed, orDash] using hrow

theorem submission_resolved_ok {set : CanonicalSet} :
    (submission digest serde maxRows e rows).resolved activate = .ok set ↔
      ∃ stored, canonicalSet digest serde maxRows e activate rows = .ok stored ∧
        set = { setHash := stored.2, rowCount := stored.1.length } := by
  simp only [submission, bind_eq_ok, pure_eq_ok, eq_comm (a := set)]

section Retry

variable {txn : Txn} {bundles : BundleTable} {fences : FenceTable} {publications : PublicationTable}
  {freshness : FreshnessRows} {write : RelationshipWrite} {checked : CheckedWrite}

theorem replaceRelationships_taken {existing : Publication}
    (hchecked : checkedWrite txn bundles fences write = .ok checked)
    (hexisting : existingPublication publications checked.key write.publicationGeneration =
      some existing) :
    replaceRelationships txn bundles fences publications freshness write =
      if existing.relationshipSetHash = checked.set.setHash then
        .ok { publications, rows := freshness, publication := existing, activated := false }
      else .error (conflictingSet write) := by
  rw [replaceRelationships, hchecked]
  by_cases hhash : existing.relationshipSetHash = checked.set.setHash <;>
    simp [bind, Except.bind, answerWrite, hexisting, ensure, hhash, pure, Except.pure]

theorem checkedWrite_set
    (hsubmission : write.submission = submission digest serde maxRows e rows)
    (hchecked : checkedWrite txn bundles fences write = .ok checked) :
    ∃ stored, canonicalSet digest serde maxRows e checked.activate rows = .ok stored ∧
      checked.set.setHash = stored.2 := by
  simp only [checkedWrite, bind_eq_ok, pure_eq_ok, hsubmission, submission_resolved_ok] at hchecked
  obtain ⟨-, -, -, -, -, -, -, -, -, -, -, -, bundle, -, fence, -, activate, -, set,
    ⟨stored, hstored, rfl⟩, rfl⟩ := hchecked
  exact ⟨stored, hstored, rfl⟩

/-- Two accepted sets with one hash hold the same rows exactly when they hold the same with the
external target `-`; and a write of another set under the key of a publication conflicts, or is
taken for it under that condition. -/
theorem set_hash_identifies_rows (hserde : serde.Lawful) (hdigest : Function.Injective digest)
    (hhex : ∀ t, '\n' ∉ digest t)
    (h : canonicalSet digest serde maxRows e activate rows = .ok stored) :
    (∀ maxRows' e' activate' (rows' : Jsonb F) stored',
      canonicalSet digest serde maxRows' e' activate' rows' = .ok stored' → stored.2 = stored'.2 →
        ((storedRows stored).Perm (storedRows stored') ↔
          ((storedRows stored).filter (·.dashed)).Perm ((storedRows stored').filter (·.dashed)))) ∧
    ∀ txn bundles fences publications freshness write checked existing maxRows' e' (rows' : Jsonb F),
      write.submission = submission digest serde maxRows' e' rows' →
      checkedWrite txn bundles fences write = .ok checked →
      existingPublication publications checked.key write.publicationGeneration = some existing →
      existing.relationshipSetHash = stored.2 →
        replaceRelationships txn bundles fences publications freshness write =
            .error (conflictingSet write) ∨
          replaceRelationships txn bundles fences publications freshness write =
              .ok { publications, rows := freshness, publication := existing, activated := false } ∧
            ∃ stored', canonicalSet digest serde maxRows' e' checked.activate rows' = .ok stored' ∧
              ((storedRows stored).Perm (storedRows stored') ↔
                ((storedRows stored).filter (·.dashed)).Perm
                  ((storedRows stored').filter (·.dashed))) := by
  refine ⟨fun _ _ _ _ _ h' hhash => storedRows_perm_of_setHash_eq hserde hdigest hhex h h' hhash, ?_⟩
  intro txn bundles fences publications freshness write checked existing maxRows' e' rows' hsubmission
    hchecked hexisting hfirst
  obtain ⟨stored', hstored', hset⟩ := checkedWrite_set hsubmission hchecked
  rw [replaceRelationships_taken hchecked hexisting]
  by_cases hhash : existing.relationshipSetHash = checked.set.setHash
  · rw [if_pos hhash]
    have hequal : stored.2 = stored'.2 := by rw [← hfirst, hhash, hset]
    exact .inr ⟨rfl, stored', hstored',
      storedRows_perm_of_setHash_eq hserde hdigest hhex h hstored' hequal⟩
  · rw [if_neg hhash]
    exact .inl rfl

end Retry

theorem canonicalize_eq_of_perm (hperm : a.Perm b) (hnodup : (a.map canonicalIdentity).Nodup) :
    canonicalize digest serde a = canonicalize digest serde b := by
  have hsorted : (a.insertionSort fun x y => canonicalIdentity x ≤ canonicalIdentity y) =
      b.insertionSort fun x y => canonicalIdentity x ≤ canonicalIdentity y :=
    insertionSort_key_eq (f := canonicalIdentity) (r := fun i j : CanonicalIdentity => i ≤ j) hnodup
      ((hperm.map _).nodup_iff.mp hnodup) fun _ => hperm.mem_iff
  simp only [canonicalize, hsorted]

theorem declaredRows_perm {declared : List (RelationshipRow F)} {items items' : List (Json F)}
    (hdeclared : declaredRows serde maxRows rows = .ok declared) (hitems : rows.value = .array items)
    (hitems' : rows'.value = .array items') (hperm : items'.Perm items) :
    ∃ declared', declaredRows serde maxRows rows' = .ok declared' ∧ declared'.Perm declared := by
  obtain ⟨list, hlist, hlen, hrows, hnodup⟩ := declaredRows_ok.mp hdeclared
  obtain rfl : items = list := by simpa using hitems.symm.trans hlist
  obtain ⟨declared', hrows', hdeclared'⟩ := List.perm_comp_forall₂ hperm hrows
  refine ⟨declared', declaredRows_ok.mpr ⟨items', hitems', ?_, hrows', ?_⟩, hdeclared'⟩
  · rw [hperm.length_eq]
    exact hlen
  · exact ((hdeclared'.map _).nodup_iff).mpr hnodup

/-- The stored rows are distinct, and independent of the order of submission, exactly when no two
declared rows collide. -/
theorem stored_rows_distinct_and_ordered {declared : List (RelationshipRow F)}
    (hdeclared : declaredRows serde maxRows rows = .ok declared)
    (h : canonicalSet digest serde maxRows e activate rows = .ok stored) :
    ((stored.1.map fun row => canonicalIdentity row.1).Nodup ∧
      ∀ (rows' : Jsonb F) items items', rows.value = .array items → rows'.value = .array items' →
        items'.Perm items → canonicalSet digest serde maxRows e activate rows' = .ok stored) ↔
      declared.Pairwise fun a b => ¬ Collides e a b := by
  obtain ⟨declared', hdeclared', hsources, rfl⟩ := canonicalSet_ok.mp h
  obtain rfl : declared = declared' := by simpa using hdeclared.symm.trans hdeclared'
  have hshape : ∀ row ∈ declared, row.WellShaped := fun row hrow =>
    (declaredRows_shape hdeclared row hrow).1
  obtain ⟨-, -, -, -, hidentities⟩ := declaredRows_ok.mp hdeclared
  have hstored : ((canonicalize digest serde (declared.map (·.resolve e activate))).1.map
      fun row => canonicalIdentity row.1).Nodup ↔ declared.Pairwise fun a b => ¬ Collides e a b := by
    have hsort : ((canonicalize digest serde (declared.map (·.resolve e activate))).1.map
        fun row => canonicalIdentity row.1).Perm
          ((declared.map (·.resolve e activate)).map canonicalIdentity) := by
      have hperm := (List.perm_insertionSort (fun a b => canonicalIdentity a ≤ canonicalIdentity b)
        (declared.map (·.resolve e activate))).map canonicalIdentity
      rw [← canonicalize_rows digest serde, List.map_map] at hperm
      exact hperm
    exact hsort.nodup_iff.trans (nodup_identity_resolve hshape hidentities)
  rw [hstored]
  refine ⟨And.left, fun hdistinct => ⟨hdistinct, ?_⟩⟩
  intro rows' items items' hitems hitems' hperm
  obtain ⟨declared', hdeclared', hperm'⟩ := declaredRows_perm hdeclared hitems hitems' hperm
  refine canonicalSet_ok.mpr
    ⟨declared', hdeclared', fun row hrow => hsources row (hperm'.mem_iff.mp hrow), ?_⟩
  refine canonicalize_eq_of_perm (hperm'.map _).symm ?_
  exact (nodup_identity_resolve hshape hidentities).mpr hdistinct

end Set

/-! ### Sample submissions -/

def sampleSerde : Serde Nat where
  ofInt := Int.toNat
  inUnit n := n ≤ 1
  display n := (Nat.repr n).toList
  render _ := "null"

theorem sampleSerde_lawful : sampleSerde.Lawful where
  display_inj _ _ _ _ h := repr_toList_inj h
  display_plain n h := absurd (isDigit_of_mem_repr h) (by decide)
  display_ne_dash n h := by
    have hmem : '-' ∈ (Nat.repr n).toList := by
      have hdash : (Nat.repr n).toList = "-".toList := h
      simp [hdash]
    exact absurd (isDigit_of_mem_repr hmem) (by decide)
  render_plain _ := (by decide : nul ∉ "null".toList)
  render_ne_dash _ := (by decide : "null".toList ≠ "-".toList)

def sampleTextDigest (t : Text) : Text := t.flatMap fun c => if c = '\n' then ['0'] else ['1', c]

theorem sampleTextDigest_injective : Function.Injective sampleTextDigest := by
  intro s t h
  induction s generalizing t with
  | nil =>
    cases t with
    | nil => rfl
    | cons d t =>
      simp only [sampleTextDigest, List.flatMap_nil, List.flatMap_cons] at h
      split at h <;> cases h
  | cons c s ih =>
    cases t with
    | nil =>
      simp only [sampleTextDigest, List.flatMap_nil, List.flatMap_cons] at h
      split at h <;> cases h
    | cons d t =>
      have hstep : ∀ c t, sampleTextDigest (c :: t) =
          (if c = '\n' then ['0'] else ['1', c]) ++ sampleTextDigest t := fun c t => rfl
      rw [hstep, hstep] at h
      by_cases hc : c = '\n' <;> by_cases hd : d = '\n' <;> simp [hc, hd] at h
      · rw [hc, hd, ih h]
      · rw [h.1, ih h.2]

theorem sampleTextDigest_line (t : Text) : '\n' ∉ sampleTextDigest t := by
  intro h
  obtain ⟨c, -, hc⟩ := List.mem_flatMap.mp h
  by_cases hline : c = '\n'
  · simp [hline] at hc
  · rw [if_neg hline] at hc
    simp [eq_comm, hline] at hc

def rowOf (source : String) (fields : List (String × Json Nat)) : Json Nat :=
  let source : String × Json Nat := ("source_concept_id", .string source.toList)
  let relation : String × Json Nat := ("relation_type", .string "n:t")
  .object ((source :: relation :: fields).map fun field => (field.1.toList, field.2))

def rowFrom (fields : List (String × Json Nat)) : Json Nat := rowOf "a" fields

def externalRow (target : String) : Json Nat := rowFrom [("external_target", .string target.toList)]

def targetRow (bundle : Int) (concept : String) (confidence : Int) : Json Nat :=
  rowFrom [("target_bundle_id", .number (.int bundle)), ("target_concept_id", .string concept.toList),
    ("confidence", .number (.int confidence))]

def allVisible : Endpoints := ⟨1, fun _ => true, fun _ _ => true⟩
def onlySourceVisible : Endpoints := ⟨1, fun b => b == 1, fun _ _ => true⟩

def bareRow : Jsonb Nat := ⟨.array [rowFrom []], by decide⟩
def dashRow : Jsonb Nat := ⟨.array [externalRow "-"], by decide⟩
def twoRows : Jsonb Nat := ⟨.array [rowFrom [], externalRow "x"], by decide⟩
def twoRowsReversed : Jsonb Nat := ⟨.array [externalRow "x", rowFrom []], by decide⟩
def hiddenRows : Jsonb Nat := ⟨.array [targetRow 2 "x" 0, targetRow 3 "y" 1], by decide⟩
def hiddenRowsReversed : Jsonb Nat := ⟨.array [targetRow 3 "y" 1, targetRow 2 "x" 0], by decide⟩

def sampleSet (e : Endpoints) (rows : Jsonb Nat) :
    Except CatalogError (List (RelationshipRow Nat × Text) × Text) :=
  canonicalSet sampleTextDigest sampleSerde 50 e true rows

def writerTxn : Txn where
  session := { isMemberOf := fun _ => true, tenant := none }
  now := 20
  requireTenant := false
  changeEventRetentionDays := 30

def oneBundle : BundleTable := fun b =>
  if b = 1 then some ⟨"default", true, none, 1⟩ else none

def oneFence : FenceTable := fun _ => some ⟨5, 1, 1, none, .issued, 10, 1000⟩

def sampleWrite (rows : Jsonb Nat) : RelationshipWrite where
  producer := "p"
  sourceBundleId := 1
  publicationGeneration := 5
  expectedCatalogGeneration := 1
  fencingToken := 1
  submission := submission sampleTextDigest sampleSerde 50 allVisible rows

/-- The two orders of two rows: one hash, and the same rows behind it. -/
theorem set_hash_identifies_rows_reordered :
    ∃ stored stored', sampleSet allVisible twoRows = .ok stored ∧
      sampleSet allVisible twoRowsReversed = .ok stored' ∧
      (storedRows stored).Perm (storedRows stored') := by
  have hfirst : sampleSet allVisible twoRows = .ok _ := rfl
  have hretry : sampleSet allVisible twoRowsReversed = .ok _ := rfl
  refine ⟨_, _, hfirst, hretry, ?_⟩
  have hidentifies := (set_hash_identifies_rows sampleSerde_lawful sampleTextDigest_injective
    sampleTextDigest_line hfirst).1 50 allVisible true _ _ hretry
  exact (hidentifies (by decide +kernel)).mpr (by decide)

def firstPublication : Except CatalogError Published :=
  replaceRelationships writerTxn oneBundle oneFence .empty (fun _ => none) (sampleWrite bareRow)

/-- A retry that names the external target `-` is taken for the publication of a row without any. -/
theorem external_dash_taken_for_none :
    (∃ published, firstPublication = .ok published ∧
      replaceRelationships writerTxn oneBundle oneFence published.publications (fun _ => none)
        (sampleWrite dashRow) =
          .ok ⟨published.publications, fun _ => none, published.publication, false⟩) ∧
      ∃ stored stored', sampleSet allVisible bareRow = .ok stored ∧
        sampleSet allVisible dashRow = .ok stored' ∧ stored.2 = stored'.2 ∧
        ¬ (storedRows stored).Perm (storedRows stored') := by
  have hfirst : firstPublication = .ok _ := rfl
  have hbare : sampleSet allVisible bareRow = .ok _ := rfl
  have hdash : sampleSet allVisible dashRow = .ok _ := rfl
  exact ⟨⟨_, hfirst, rfl⟩, _, _, hbare, hdash, by decide, by decide⟩

theorem stored_rows_distinct_and_ordered_two :
    ∃ stored, sampleSet allVisible twoRows = .ok stored ∧
      (stored.1.map fun row => canonicalIdentity row.1).Nodup ∧
      sampleSet allVisible twoRowsReversed = .ok stored := by
  have hdeclared : declaredRows sampleSerde 50 twoRows = .ok _ := rfl
  have hset : sampleSet allVisible twoRows = .ok _ := rfl
  have hboth := (stored_rows_distinct_and_ordered hdeclared hset).mpr (by decide)
  exact ⟨_, hset, hboth.1, hboth.2 twoRowsReversed _ _ rfl rfl (List.Perm.swap _ _ _)⟩

/-- Two targets in bundles the writer does not see: their rows share an identity, and the order
decides the set hash. -/
theorem hidden_targets_collide :
    ∃ stored stored', sampleSet onlySourceVisible hiddenRows = .ok stored ∧
      ¬ (stored.1.map fun row => canonicalIdentity row.1).Nodup ∧
      sampleSet onlySourceVisible hiddenRowsReversed = .ok stored' ∧ stored.2 ≠ stored'.2 := by
  have hset : sampleSet onlySourceVisible hiddenRows = .ok _ := rfl
  have hreversed : sampleSet onlySourceVisible hiddenRowsReversed = .ok _ := rfl
  exact ⟨_, _, hset, by decide, hreversed, by decide +kernel⟩

end Pgokf.Catalog
