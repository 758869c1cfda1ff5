import Pgokf.Catalog.EffectiveFreshness
import Pgokf.Workspace.Closure

/-! # Freshness of the records and the stale policy (`pgokf-workspace`, `selection.rs`) -/

namespace Pgokf.Workspace

open Lib Catalog

variable {F : Type}

def Freshness.ofRow (toChar : Instant → Text) (scope : String) (row : EffectiveRow) : Freshness where
  state := row.state.text
  reasons := row.reasons
  scope := scope.toList
  staleSince := row.staleSince.map toChar
  observedRevision := row.observedRevision
  indexedRevision := row.indexedRevision
  publishedRevision := row.publishedRevision
  catalogGeneration := some row.catalogGeneration
  lastReconciledAt := row.lastReconciledAt.map toChar

/-- The override of the concept when there is one, otherwise the row of the bundle. -/
def Client.readFreshness (client : Client F) (v : ConceptRef) : Option Freshness :=
  match client.store.catalog.scopeFreshness client.txn v.1 .concept v.2 with
  | some row => some (.ofRow client.toChar "concept" row)
  | none => (client.store.catalog.bundleFreshness client.txn v.1).map (.ofRow client.toChar "bundle")

def Client.withFreshness (client : Client F) (record : ConceptRecord) : ConceptRecord :=
  match client.readFreshness record.key with
  | some freshness => { record with freshness }
  | none => record

def Client.applyFreshness (client : Client F) (records : List ConceptRecord) : List ConceptRecord :=
  records.map client.withFreshness

/-- A member without a row stays out of the map. -/
def Client.memberEntry (client : Client F) (b : BundleId) (entries : OrderedMap Text Freshness)
    (member : Text) :
    OrderedMap Text Freshness :=
  match client.readFreshness (b, member) with
  | some freshness => entries.insert member freshness
  | none => entries

def Client.withMemberFreshness (client : Client F) (record : ConceptRecord) : ConceptRecord :=
  match record.package with
  | some package =>
    { record with
      package := some { package with
        memberFreshness :=
          (client.members record.key).foldl
            (client.memberEntry record.bundleId) package.memberFreshness } }
  | none => record

def Client.applyMemberFreshness (client : Client F) (records : List ConceptRecord) :
    List ConceptRecord :=
  records.map client.withMemberFreshness

def StaleConcept.of (record : ConceptRecord) (requireClosure : Bool) : StaleConcept where
  concept := record.key
  role := record.origin.role requireClosure
  state := record.freshness.state
  reasons := record.freshness.reasons

def StaleConcept.member (record : ConceptRecord) (requireClosure : Bool) (entry : Text × Freshness) :
    StaleConcept where
  concept := (record.bundleId, entry.1)
  role := record.origin.role requireClosure
  state := entry.2.state
  reasons := entry.2.reasons

/-- The map is read in the order of the concept ids. -/
def staleMembers (record : ConceptRecord) : List (Text × Freshness) :=
  match record.package with
  | some package =>
    (package.memberFreshness.filter fun entry => entry.2.isStale).insertionSort fun a b => a.1 ≤ b.1
  | none => []

def dedupStale : List StaleConcept → List StaleConcept
  | [] => []
  | stale :: rest => stale :: (dedupStale rest).filter fun other => other.concept ≠ stale.concept

def blockingOf (requireClosure : Bool) (record : ConceptRecord) : List StaleConcept :=
  (if record.freshness.isStale then [.of record requireClosure] else []) ++
    (staleMembers record).map (.member record requireClosure)

/- A package with a stale member goes whole, and the member is what is named. -/
def excludedOf (requireClosure : Bool) (record : ConceptRecord) : List StaleConcept :=
  if record.freshness.isStale then [.of record requireClosure]
  else (staleMembers record).map (.member record requireClosure)

def applyStalePolicy (selection : Selection) (records : List ConceptRecord) :
    Except BuildError (List ConceptRecord × List StaleConcept) :=
  match selection.stalePolicy with
  | .warn => .ok (records, [])
  | .exclude => do
    let required := selection.requireClosure
    let blocking := (records.filter fun record => record.origin.required required).flatMap
      (blockingOf required)
    ensure blocking.isEmpty (.staleRequired (dedupStale blocking))
    let excluded := dedupStale (records.flatMap (excludedOf required))
    let remaining := records.filter fun record => (excludedOf required record).isEmpty
    ensure (excluded.isEmpty || !remaining.isEmpty) (.noFreshConcepts excluded)
    pure (remaining, excluded)

/-- The last stages of `resolve_selected`, on a catalog with the freshness surface. -/
def Client.settleFreshness (client : Client F) (selection : Selection) (records : List ConceptRecord) :
    Except BuildError (List ConceptRecord × List StaleConcept) :=
  applyStalePolicy selection (client.applyMemberFreshness (client.applyFreshness records))

/-- The state by the precedence of the catalog's own readers. -/
def Client.effectiveState (client : Client F) (v : ConceptRef) : FreshnessState :=
  client.store.catalog.effectiveState client.txn v.1 v.2 (client.rows v).path

/-- An override of the path that is not fresh and that no override of the concept precedes. -/
def Client.PathStale (client : Client F) (v : ConceptRef) : Prop :=
  client.store.catalog.scopeFreshness client.txn v.1 .concept v.2 = none ∧
    ∃ row, client.store.catalog.scopeFreshness client.txn v.1 .path (client.rows v).path = some row ∧
      row.state ≠ .fresh

def Client.readsStale (client : Client F) (v : ConceptRef) : Bool :=
  (client.readFreshness v).any Freshness.isStale

def Client.parts (client : Client F) (record : ConceptRecord) : List ConceptRef :=
  record.key :: if record.package.isSome then (client.members record.key).map
    (record.bundleId, ·) else []

structure ConceptRecord.Unread (record : ConceptRecord) : Prop where
  unknown : record.freshness = .unknown
  members : ∀ package, record.package = some package → package.memberFreshness = []

section Reading

variable {client : Client F} {v : ConceptRef}

theorem isStale_ofRow (toChar : Instant → Text) (scope : String) (row : EffectiveRow) :
    (Freshness.ofRow toChar scope row).isStale = decide (row.state ≠ .fresh) := by
  have hstate : ∀ state : FreshnessState,
      (state.text != "fresh" && state.text != "unknown") = decide (state ≠ .fresh) := by
    intro state
    cases state <;> decide
  exact hstate row.state

/-- Where the two readings of a concept that reads fresh part. -/
theorem effectiveState_fresh_iff (h : client.readsStale v = false) :
    client.effectiveState v = .fresh ↔ ¬ client.PathStale v := by
  unfold Client.readsStale Client.readFreshness at h
  unfold Client.effectiveState State.effectiveState Client.PathStale
  cases hconcept : client.store.catalog.scopeFreshness client.txn v.1 .concept v.2 with
  | some row => simp_all [isStale_ofRow]
  | none =>
    cases hpath : client.store.catalog.scopeFreshness client.txn v.1 .path (client.rows v).path with
    | some row => simp
    | none =>
      cases hbundle : client.store.catalog.bundleFreshness client.txn v.1 with
      | some row => simp_all [isStale_ofRow]
      | none => simp

end Reading

/-! ### What remains -/

section Remaining

variable {client : Client F} {record : ConceptRecord}

variable {b : BundleId} {entries : OrderedMap Text Freshness} {e : Text × Freshness}

theorem mem_memberEntry {member : Text}
    (hread : ∀ e ∈ entries, client.readFreshness (b, e.1) = some e.2) :
    e ∈ client.memberEntry b entries member ↔
      e ∈ entries ∨ (e.1 = member ∧ client.readFreshness (b, e.1) = some e.2) := by
  unfold Client.memberEntry
  split
  next freshness hmember =>
    constructor
    · intro he
      rcases OrderedMap.mem_insert he with rfl | he
      · exact .inr ⟨rfl, hmember⟩
      · exact .inl he
    · intro he
      have hself : (member, freshness) ∈ entries.insert member freshness :=
        OrderedMap.mem_of_get (OrderedMap.get_insert_self entries member freshness)
      by_cases hkey : e.1 = member
      · have hvalue : client.readFreshness (b, e.1) = some e.2 := he.elim (hread e) (·.2)
        rw [hkey, hmember] at hvalue
        have heq : e = (member, freshness) := Prod.ext hkey (Option.some.inj hvalue).symm
        exact heq ▸ hself
      · exact (OrderedMap.mem_insert_of_ne entries hkey).mpr (he.resolve_right fun h => hkey h.1)
  next hmember =>
    refine ⟨.inl, fun he => he.resolve_right ?_⟩
    rintro ⟨rfl, hvalue⟩
    rw [hmember] at hvalue
    cases hvalue

theorem mem_memberEntries {members : List Text}
    (hread : ∀ e ∈ entries, client.readFreshness (b, e.1) = some e.2) :
    e ∈ members.foldl (client.memberEntry b) entries ↔
      e ∈ entries ∨ (e.1 ∈ members ∧ client.readFreshness (b, e.1) = some e.2) := by
  induction members generalizing entries with
  | nil => simp
  | cons member members ih =>
    have hread' : ∀ e ∈ client.memberEntry b entries member,
      client.readFreshness (b, e.1) = some e.2 := by
      intro e he
      rcases (mem_memberEntry hread).mp he with he | ⟨-, he⟩
      · exact hread e he
      · exact he
    rw [List.foldl_cons, ih hread', mem_memberEntry hread, or_assoc, ← or_and_right, List.mem_cons]

theorem withFreshness_key : (client.withFreshness record).key = record.key := by
  unfold Client.withFreshness
  split <;> rfl

theorem withFreshness_package : (client.withFreshness record).package = record.package := by
  unfold Client.withFreshness
  split <;> rfl

theorem withMemberFreshness_freshness :
    (client.withMemberFreshness record).freshness = record.freshness := by
  unfold Client.withMemberFreshness
  split <;> rfl

theorem withMemberFreshness_isSome :
    (client.withMemberFreshness record).package.isSome = record.package.isSome := by
  unfold Client.withMemberFreshness
  split
  next hsome => simp [hsome]
  next => rfl

theorem withMemberFreshness_key : (client.withMemberFreshness record).key = record.key := by
  unfold Client.withMemberFreshness
  split <;> rfl

theorem withFreshness_isStale (h : record.Unread) :
    (client.withFreshness record).freshness.isStale = client.readsStale record.key := by
  unfold Client.withFreshness Client.readsStale
  split
  next freshness hread => simp [hread]
  next hread =>
    rw [hread, h.unknown]
    rfl

theorem staleMembers_eq_nil : staleMembers record = [] ↔
    ∀ package, record.package = some package → ∀ e ∈ package.memberFreshness, e.2.isStale = false := by
  unfold staleMembers
  cases record.package with
  | none => simp
  | some package => simp [List.eq_nil_iff_forall_not_mem]

theorem staleMembers_withMemberFreshness (h : record.Unread) :
    staleMembers (client.withMemberFreshness (client.withFreshness record)) = [] ↔
      ∀ v ∈ (client.parts record).tail, client.readsStale v = false := by
  rw [staleMembers_eq_nil]
  unfold Client.withMemberFreshness Client.parts
  rw [withFreshness_package, withFreshness_key]
  cases hpackage : record.package with
  | none => simp [withFreshness_package, hpackage]
  | some package =>
    have hbundle : (client.withFreshness record).bundleId = record.bundleId :=
      congrArg Prod.fst withFreshness_key
    have hentries : ∀ e, e ∈ (client.members record.key).foldl (client.memberEntry record.bundleId)
        package.memberFreshness ↔
        e.1 ∈ client.members record.key ∧ client.readFreshness (record.bundleId, e.1) = some e.2 := by
      intro e
      rw [h.members package hpackage, mem_memberEntries fun e he => absurd he List.not_mem_nil]
      simp
    constructor
    · intro hfresh v hv
      obtain ⟨member, hmember, rfl⟩ := List.mem_map.mp hv
      unfold Client.readsStale
      cases hread : client.readFreshness (record.bundleId, member) with
      | none => rfl
      | some freshness =>
        refine hfresh _ rfl (member, freshness) ?_
        rw [hbundle]
        exact (hentries _).mpr ⟨hmember, hread⟩
    · intro hfresh settled hsettled e he
      obtain rfl := Option.some.inj hsettled
      rw [hbundle] at he
      obtain ⟨hmember, hread⟩ := (hentries e).mp he
      have hreads := hfresh _ (List.mem_map_of_mem hmember)
      simpa [Client.readsStale, hread] using hreads

theorem excludedOf_eq_nil (h : record.Unread) (required : Bool) :
    excludedOf required (client.withMemberFreshness (client.withFreshness record)) = [] ↔
      ∀ v ∈ client.parts record, client.readsStale v = false := by
  have hparts : client.parts record = record.key :: (client.parts record).tail := rfl
  rw [hparts, List.forall_mem_cons, ← staleMembers_withMemberFreshness h, ← withFreshness_isStale h]
  unfold excludedOf
  rw [withMemberFreshness_freshness]
  split
  next hstale => simp [hstale]
  next hfresh => simp [hfresh]

theorem parts_settled : client.parts (client.withMemberFreshness (client.withFreshness record)) =
    client.parts record := by
  have hpackage : (client.withMemberFreshness (client.withFreshness record)).package.isSome =
      record.package.isSome := by
    rw [withMemberFreshness_isSome, withFreshness_package]
  have hkey : (client.withMemberFreshness (client.withFreshness record)).key = record.key :=
    withMemberFreshness_key.trans withFreshness_key
  have hbundle : (client.withMemberFreshness (client.withFreshness record)).bundleId = record.bundleId :=
    congrArg Prod.fst hkey
  unfold Client.parts
  rw [hpackage, hkey, hbundle]

end Remaining

variable {client : Client F} {selection : Selection} {records remaining : List ConceptRecord}
  {excluded : List StaleConcept}

theorem mem_remaining (hexclude : selection.stalePolicy = .exclude)
    (hunread : ∀ record ∈ records, record.Unread)
    (h : client.settleFreshness selection records = .ok (remaining, excluded)) {kept : ConceptRecord} :
    kept ∈ remaining ↔ ∃ record ∈ records,
      client.withMemberFreshness (client.withFreshness record) = kept ∧
      ∀ v ∈ client.parts record, client.readsStale v = false := by
  simp only [Client.settleFreshness, applyStalePolicy, hexclude, bind_eq_ok, ensure_eq_ok,
    pure_eq_ok] at h
  obtain ⟨-, -, -, -, hresult⟩ := h
  obtain ⟨rfl, -⟩ := Prod.mk.inj hresult
  simp only [Client.applyMemberFreshness, Client.applyFreshness, List.map_map, List.mem_filter,
    List.mem_map,
    List.isEmpty_iff, Function.comp_apply]
  constructor
  · rintro ⟨⟨record, hrecord, rfl⟩, hnone⟩
    exact ⟨record, hrecord, rfl, (excludedOf_eq_nil (hunread record hrecord) _).mp hnone⟩
  · rintro ⟨record, hrecord, rfl, hfresh⟩
    exact ⟨⟨record, hrecord, rfl⟩, (excludedOf_eq_nil (hunread record hrecord) _).mpr hfresh⟩

/-- What an excluding build keeps is fresh under the precedence of the catalog exactly if no part of
a record that reads fresh is made stale by an override of its path. -/
theorem exclude_ships_fresh_iff (client : Client F) (selection : Selection)
    (records : List ConceptRecord)
    (hexclude : selection.stalePolicy = .exclude) (hunread : ∀ record ∈ records, record.Unread)
    (h : client.settleFreshness selection records = .ok (remaining, excluded)) :
    (∀ record ∈ remaining, ∀ v ∈ client.parts record, client.effectiveState v = .fresh) ↔
      ∀ record ∈ records, (∀ v ∈ client.parts record, client.readsStale v = false) →
        ∀ v ∈ client.parts record, ¬ client.PathStale v := by
  constructor
  · intro hships record hrecord hreads v hv
    have hkept := (mem_remaining hexclude hunread h).mpr ⟨record, hrecord, rfl, hreads⟩
    have hfresh := hships _ hkept v (parts_settled.symm ▸ hv)
    exact (effectiveState_fresh_iff (hreads v hv)).mp hfresh
  · intro hpaths kept hkept v hv
    obtain ⟨record, hrecord, rfl, hreads⟩ := (mem_remaining hexclude hunread h).mp hkept
    rw [parts_settled] at hv
    exact (effectiveState_fresh_iff (hreads v hv)).mpr (hpaths record hrecord hreads v hv)

def laterMarked (kind : ScopeKind) (key : String) : List (StoreCall Nat) :=
  [.registers 0,
    .byAdmin 10 (.other (.markScopeStale 1 kind key.toList ["producer_reported"] none) acceptsAll rfl)]

def pathMarkedCalls : List (StoreCall Nat) := laterMarked .path "a.md"

def pathClient (calls : List (StoreCall Nat)) : Client Nat where
  store := storeAfter calls
  txn := writerTxn
  collate := byCodePoint
  maxGraphHops := 5
  rows v := ⟨"docs", v.2 ++ ".md", none, [], "unverified", none, none⟩
  members _ := []
  toChar _ := []

def markedClient : Client Nat := pathClient pathMarkedCalls
def unmarkedClient : Client Nat := pathClient (pathMarkedCalls.take 1)

def excluding : Selection where
  verifiedOnly := false
  picks := [(1, "a")]
  stalePolicy := .exclude
  seeds := []
  relationTypes := []
  direction := .outbound
  hops := none
  requireClosure := false

def pickedRecord (client : Client Nat) : ConceptRecord :=
  recordFromRow (1, "a") (client.rows (1, "a")) true

theorem exclude_ships_fresh_iff_unmarked :
    ∃ remaining excluded,
      unmarkedClient.settleFreshness excluding [pickedRecord unmarkedClient] = .ok
        (remaining, excluded) ∧
      remaining.length = 1 ∧
      ∀ record ∈ remaining, ∀ v ∈ unmarkedClient.parts record,
        unmarkedClient.effectiveState v = .fresh := by
  have hunread : ∀ record ∈ [pickedRecord unmarkedClient], record.Unread := by
    intro record hrecord
    obtain rfl := List.mem_singleton.mp hrecord
    exact ⟨rfl, fun package hpackage => absurd hpackage (Option.some_ne_none package).symm⟩
  have hone : (unmarkedClient.settleFreshness excluding [pickedRecord unmarkedClient]).toOption.map
    (·.1.length) =
      some 1 := by decide +kernel
  cases hresult : unmarkedClient.settleFreshness excluding [pickedRecord unmarkedClient] with
  | error refusal =>
    rw [hresult] at hone
    cases hone
  | ok result =>
    rw [hresult] at hone
    refine ⟨result.1, result.2, rfl, Option.some.inj hone, ?_⟩
    refine (exclude_ships_fresh_iff _ excluding _ rfl hunread hresult).mpr ?_
    rintro record - - v - ⟨-, row, hrow, -⟩
    have hnone : ∀ b key, (storeAfter (pathMarkedCalls.take 1)).catalog.scopeFreshness writerTxn b
      .path key = none := by
      intro b key
      have hscopes : (storeAfter (pathMarkedCalls.take 1)).catalog.freshness.scopes
        (b, .path, key) = none := rfl
      simp [State.scopeFreshness, hscopes]
    exact absurd (hrow.symm.trans (hnone v.1 _)) (Option.some_ne_none row)

/-- The path of `a` was marked stale. The build that excludes what is stale keeps `a`. -/
theorem path_stale_concept_kept :
    ∃ remaining excluded,
      markedClient.settleFreshness excluding [pickedRecord markedClient] = .ok (remaining, excluded) ∧
      ∃ record ∈ remaining, record.key = (1, "a".toList) ∧
        markedClient.effectiveState record.key = .stale := by
  have hkept : (markedClient.settleFreshness excluding [pickedRecord markedClient]).toOption.map
      (fun result => keys result.1) = some [(1, "a".toList)] := by decide +kernel
  cases hresult : markedClient.settleFreshness excluding [pickedRecord markedClient] with
  | error refusal =>
    rw [hresult] at hkept
    cases hkept
  | ok result =>
    rw [hresult] at hkept
    have hkeys : keys result.1 = [(1, "a".toList)] := Option.some.inj hkept
    have hmem : (1, "a".toList) ∈ keys result.1 := hkeys ▸ List.mem_singleton.mpr rfl
    obtain ⟨record, hrecord, hkey⟩ := List.mem_map.mp hmem
    refine ⟨result.1, result.2, rfl, record, hrecord, hkey, ?_⟩
    rw [hkey]
    decide +kernel

end Pgokf.Workspace
