import Pgokf.Workspace.Records

/-! # The closure of the seeds (`pgokf-workspace`, `selection.rs`)

`apply_closure` walks the typed relationships from every seed and adds what it reaches to the
records. -/

namespace Pgokf.Workspace

open Lib Catalog

variable {F : Type}

def refLe (a b : ConceptRef) : Bool :=
  if a.1 ≠ b.1 then decide (a.1 < b.1) else decide (a.2 ≤ b.2)

/-- `sort` and then `dedup`. -/
def sortRefs (refs : List ConceptRef) : List ConceptRef :=
  (refs.insertionSort fun a b => refLe a b = true).dedup

@[simp] theorem mem_sortRefs {refs : List ConceptRef} {v : ConceptRef} : v ∈ sortRefs refs ↔
    v ∈ refs := by
  simp [sortRefs]

def keys (records : List ConceptRecord) : List ConceptRef := records.map ConceptRecord.key

def trustedTiers : List Text := ["human-reviewed", "machine-confirmed"]

def Client.rowLe (client : Client F) (a b : ConceptRef) : Bool :=
  if a.1 ≠ b.1 then decide (a.1 < b.1) else client.collate a.2 b.2

def Client.selects (client : Client F) (verifiedOnly : Bool) (v : ConceptRef) : Bool :=
  client.store.reads client.txn v && (!verifiedOnly || trustedTiers.contains (client.rows v).trustTier)

/-- `resolve` on a selection of picks only; the limit is raised to hold every pick. -/
def Client.resolvePicks (client : Client F) (picks : List ConceptRef) (verifiedOnly : Bool) :
    Except BuildError (List ConceptRecord) := do
  ensure (!picks.isEmpty)
    (.invalid "the selection is empty: give a query, a bundle, a type, a tag, or concept ids")
  let distinctPicks := sortRefs picks
  ensure (distinctPicks.length ≤ maxConcepts)
    (.invalid (toString distinctPicks.length ++ " files picked; a plugin holds at most " ++
      toString maxConcepts ++ " concepts"))
  let selected := (distinctPicks.filter (client.selects verifiedOnly)).insertionSort fun a b =>
    client.rowLe a b = true
  pure (selected.map fun v => recordFromRow v (client.rows v) true)

structure NeighborHit where
  node : ConceptRef
  hops : Nat
  -- The node this one was reached from.
  via : Option ConceptRef
  relationType : Text
  deriving DecidableEq

def NeighborHit.of (hit : TypedNeighborHit) : NeighborHit where
  node := hit.node
  hops := hit.hops.toNat
  via := if hit.hops.toNat = 0 then none else hit.path[hit.hops.toNat - 1]?
  relationType := hit.relationType

/-- The shorter of two ways to a node is kept, and the first of two that are equally long. -/
def settle (nodes : OrderedMap ConceptRef NeighborHit) (hit : NeighborHit) :
    OrderedMap ConceptRef NeighborHit :=
  match nodes.get hit.node with
  | some existing => if existing.hops ≤ hit.hops then nodes else nodes.insert hit.node hit
  | none => nodes.insert hit.node hit

def mergeClosureNodes (nodes : OrderedMap ConceptRef NeighborHit) (hits : List NeighborHit) :
    OrderedMap ConceptRef NeighborHit := hits.foldl settle nodes

def Selection.closureTypes (selection : Selection) : Option (List Text) :=
  if selection.relationTypes.isEmpty then none else some selection.relationTypes

def Selection.closureCall (selection : Selection) (seed : ConceptRef) : NeighborCall where
  start := seed
  maxHops := selection.effectiveHops
  direction := selection.direction.text
  relationTypes := selection.closureTypes
  maxResults := maxConcepts

def Client.walkSeed (client : Client F) (selection : Selection) (seed : ConceptRef) :
    Except BuildError (List NeighborHit) :=
  match client.store.relationshipNeighbors client.txn client.collate client.maxGraphHops
      (selection.closureCall seed) with
  | .ok hits => .ok (hits.map .of)
  | .error e => .error (.catalog e)

def Client.closureNodes (client : Client F) (selection : Selection) (seeds : List ConceptRef) :
    Except BuildError (OrderedMap ConceptRef NeighborHit) :=
  seeds.foldlM (fun nodes seed => do
    let hits ← client.walkSeed selection seed
    pure (mergeClosureNodes nodes hits)) []

def clearInternalPickOrigins (callerPicks : List ConceptRef) (records : List ConceptRecord) :
    List ConceptRecord :=
  records.map fun record =>
    if callerPicks.contains record.key then record
      else { record with origin := { record.origin with pick := false } }

def Client.fetchMissing (client : Client F) (selection : Selection) (records : List ConceptRecord)
    (missing : List ConceptRef) : Except BuildError (List ConceptRecord) :=
  if missing.isEmpty then .ok records
  else do
    let fetched ← client.resolvePicks missing selection.verifiedOnly
    pure (records ++ clearInternalPickOrigins selection.picks fetched)

def markSeed (seed : ConceptRef) : List ConceptRecord → List ConceptRecord
  | [] => []
  | record :: rest =>
    if record.key = seed then { record with origin := { record.origin with seed := true } } :: rest
    else record :: markSeed seed rest

def markSeeds (seeds : List ConceptRef) (records : List ConceptRecord) : List ConceptRecord :=
  seeds.foldl (fun records seed => markSeed seed records) records

def markClosure (nodes : OrderedMap ConceptRef NeighborHit) (records : List ConceptRecord) :
    List ConceptRecord :=
  records.map fun record =>
    if (nodes.get record.key).isSome
      then { record with origin := { record.origin with closure := true } }
    else record

def unmaterializedNodes (nodes : OrderedMap ConceptRef NeighborHit) (records : List ConceptRecord) :
    List ConceptRef :=
  (sortRefs (nodes.map (·.1))).filter fun v => !(keys records).contains v

def maxUnresolvedReported : Nat := 100

def expandable (nodes : OrderedMap ConceptRef NeighborHit) (seeds : List ConceptRef) (hops : Nat) :
    List ConceptRef :=
  sortRefs (seeds ++ ((nodes.map (·.2)).filter fun hit => hit.hops < hops).map (·.node))

/- An inbound walk follows an undirected row from its source too. -/
def touchesFrontier (direction : TraversalDirection) (frontier : List ConceptRef)
    (shown : BundleId × RelationshipRow F) : Bool :=
  let leaves := frontier.contains (shown.1, shown.2.sourceConceptId)
  let enters := match shown.2.targetBundleId, shown.2.targetConceptId with
    | some b, some concept => frontier.contains (b, concept)
    | _, _ => false
  (direction != .inbound && leaves) ||
    (direction != .outbound && (enters || (shown.2.direction == .undirected && leaves)))

def Client.unresolvedLe (client : Client F) (a b : UnresolvedEdge) : Bool :=
  if a.source ≠ b.source then client.rowLe a.source b.source
    else client.collate a.relationType b.relationType

def Client.unresolvedEdges (client : Client F) (nodes : OrderedMap ConceptRef NeighborHit)
    (seeds : List ConceptRef) (hops : Nat) (direction : TraversalDirection)
    (types : Option (List Text)) :
    List UnresolvedEdge :=
  let frontier := expandable nodes seeds hops
  let edges := ((client.store.currentRelationships client.txn).filter fun shown =>
    shown.2.unresolved && followsType types shown.2.relationType &&
      touchesFrontier direction frontier shown).map
      fun shown => {
        source := (shown.1, shown.2.sourceConceptId)
        relationType := shown.2.relationType
        direction := shown.2.direction
        targetBundleId := shown.2.targetBundleId
        targetConceptId := shown.2.targetConceptId
        externalTarget := shown.2.externalTarget : UnresolvedEdge }
  (edges.insertionSort fun a b => client.unresolvedLe a b = true).take maxUnresolvedReported

structure ClosureReport where
  seeds : List ConceptRef
  direction : TraversalDirection
  relationTypes : List Text
  hops : Nat
  required : Bool
  nodes : List NeighborHit
  unresolved : List UnresolvedEdge
  deriving DecidableEq

def reportLe (a b : NeighborHit) : Bool :=
  if a.hops ≠ b.hops then decide (a.hops < b.hops) else refLe a.node b.node

def missingRefs (seeds : List ConceptRef) (nodes : OrderedMap ConceptRef NeighborHit)
    (records : List ConceptRecord) : List ConceptRef :=
  (sortRefs (seeds ++ nodes.map (·.1))).filter fun v => !(keys records).contains v

def Client.applyClosure (client : Client F) (selection : Selection) (records : List ConceptRecord) :
    Except BuildError (List ConceptRecord × ClosureReport) := do
  let seeds := sortRefs selection.seeds
  let nodes ← client.closureNodes selection seeds
  let missing := missingRefs seeds nodes records
  ensure (records.length + missing.length ≤ maxConcepts) (.closureExceedsLimit maxConcepts)
  let fetched ← client.fetchMissing selection records missing
  let absentSeeds := seeds.filter fun seed => !(keys fetched).contains seed
  ensure absentSeeds.isEmpty (.seedNotFound absentSeeds)
  let marked := markClosure nodes (markSeeds seeds fetched)
  let dropped := unmaterializedNodes nodes marked
  ensure (!selection.requireClosure || dropped.isEmpty) (.closureNodesMissing dropped)
  let unresolved := client.unresolvedEdges nodes seeds selection.effectiveHops selection.direction
    selection.closureTypes
  ensure (!selection.requireClosure || unresolved.isEmpty) (.unresolvedRequired unresolved)
  pure (marked, {
    seeds
    direction := selection.direction
    relationTypes := selection.relationTypes
    hops := selection.effectiveHops
    required := selection.requireClosure
    nodes := (nodes.map (·.2)).insertionSort fun a b => reportLe a b = true
    unresolved := if selection.requireClosure then [] else unresolved })

section Records

variable {client : Client F} {selection : Selection} {records fetched : List ConceptRecord}
  {nodes : OrderedMap ConceptRef NeighborHit} {seeds : List ConceptRef} {v : ConceptRef}

theorem keys_map {f : ConceptRecord → ConceptRecord} (h : ∀ record, (f record).key = record.key)
    (records : List ConceptRecord) : keys (records.map f) = keys records := by
  simp [keys, Function.comp_def, h]

theorem keys_markSeed (seed : ConceptRef) (records : List ConceptRecord) :
    keys (markSeed seed records) = keys records := by
  induction records with
  | nil => rfl
  | cons record rest ih =>
    rw [markSeed]
    split
    · rfl
    · exact congrArg (record.key :: ·) ih

theorem keys_markSeeds (seeds : List ConceptRef) (records : List ConceptRecord) :
    keys (markSeeds seeds records) = keys records := by
  induction seeds generalizing records with
  | nil => rfl
  | cons seed rest ih => exact (ih (markSeed seed records)).trans (keys_markSeed seed records)

theorem keys_markClosure (nodes : OrderedMap ConceptRef NeighborHit) (records : List ConceptRecord) :
    keys (markClosure nodes records) = keys records :=
  keys_map (fun record => by split <;> rfl) records

theorem resolvePicks_reads {picks : List ConceptRef} {verifiedOnly : Bool}
    (h : client.resolvePicks picks verifiedOnly = .ok fetched) :
    ∀ v ∈ keys fetched, client.store.reads client.txn v = true := by
  simp only [Client.resolvePicks, bind_eq_ok, ensure_eq_ok, pure_eq_ok] at h
  obtain ⟨-, -, -, -, rfl⟩ := h
  intro v hv
  simp only [keys, List.map_map, List.mem_map, List.mem_insertionSort, List.mem_filter] at hv
  obtain ⟨u, ⟨-, hselects⟩, rfl⟩ := hv
  exact (Bool.and_eq_true_iff.mp hselects).1

theorem fetchMissing_reads {missing : List ConceptRef}
    (hrecords : ∀ v ∈ keys records, client.store.reads client.txn v = true)
    (h : client.fetchMissing selection records missing = .ok fetched) :
    ∀ v ∈ keys fetched, client.store.reads client.txn v = true := by
  unfold Client.fetchMissing at h
  split at h
  · obtain rfl := Except.ok.inj h
    exact hrecords
  · simp only [bind_eq_ok, pure_eq_ok] at h
    obtain ⟨added, hadded, rfl⟩ := h
    have hsame : keys (clearInternalPickOrigins selection.picks added) = keys added :=
      keys_map (fun record => by split <;> rfl) added
    intro v hv
    rw [keys, List.map_append, List.mem_append] at hv
    rcases hv with hv | hv
    · exact hrecords v hv
    · exact resolvePicks_reads hadded v (hsame ▸ hv)

theorem mem_keys_of_unmaterialized (h : unmaterializedNodes nodes records = [])
    (hv : v ∈ nodes.map (·.1)) :
    v ∈ keys records := by
  have hnone := List.filter_eq_nil_iff.mp h v (mem_sortRefs.mpr hv)
  simpa using hnone

theorem mem_keys_or_missing (hv : v ∈ seeds ∨ v ∈ nodes.map (·.1)) :
    v ∈ keys records ++ missingRefs seeds nodes records := by
  by_cases hknown : v ∈ keys records
  · exact List.mem_append_left _ hknown
  · refine List.mem_append_right _ (List.mem_filter.mpr ⟨mem_sortRefs.mpr (List.mem_append.mpr hv), ?_⟩)
    simpa using hknown

end Records

section Nodes

variable {client : Client F} {selection : Selection} {nodes nodes' : OrderedMap ConceptRef NeighborHit}
  {seeds : List ConceptRef} {seed v : ConceptRef}

theorem mem_keys_settle {hit : NeighborHit} :
    v ∈ (settle nodes hit).map (·.1) ↔ v = hit.node ∨ v ∈ nodes.map (·.1) := by
  unfold settle
  split
  next existing hget =>
    split
    next =>
      constructor
      · exact .inr
      · rintro (rfl | hv)
        · exact OrderedMap.mem_keys_of_get hget
        · exact hv
    next => exact OrderedMap.mem_keys_insert
  next => exact OrderedMap.mem_keys_insert

theorem mem_keys_merge {hits : List NeighborHit} :
    v ∈ (mergeClosureNodes nodes hits).map (·.1) ↔ v ∈ hits.map (·.node) ∨ v ∈ nodes.map (·.1) := by
  induction hits generalizing nodes with
  | nil => simp [mergeClosureNodes]
  | cons hit hits ih =>
    change v ∈ (mergeClosureNodes (settle nodes hit) hits).map (·.1) ↔ _
    rw [ih, mem_keys_settle, List.map_cons, List.mem_cons]
    exact or_left_comm.trans or_assoc.symm

theorem closureNodes_holds (h : client.closureNodes selection seeds = .ok nodes) :
    ∀ seed ∈ seeds, ∃ hits, client.walkSeed selection seed = .ok hits ∧
      ∀ hit ∈ hits, hit.node ∈ nodes.map (·.1) := by
  have hrun := run_of_foldlM h
  refine Run.history_invariant (P := fun seeds nodes => ∀ seed ∈ seeds, ∃ hits,
      client.walkSeed selection seed = .ok hits ∧ ∀ hit ∈ hits, hit.node ∈ nodes.map (·.1)) hrun
    (fun seed hseed => absurd hseed List.not_mem_nil) fun seeds nodes seed nodes' ih hstep => ?_
  simp only [bind_eq_ok, pure_eq_ok] at hstep
  obtain ⟨hits, hwalk, rfl⟩ := hstep
  intro other hother
  rcases List.mem_append.mp hother with hother | hother
  · obtain ⟨earlier, hearlier, hkept⟩ := ih other hother
    exact ⟨earlier, hearlier, fun hit hhit => mem_keys_merge.mpr (.inr (hkept hit hhit))⟩
  · obtain rfl := List.mem_singleton.mp hother
    exact ⟨hits, hwalk, fun hit hhit => mem_keys_merge.mpr (.inl (List.mem_map_of_mem hhit))⟩

end Nodes

/-! ### A required closure -/

/-- The arguments under which the extension walks; its own setting bounds the hops further. -/
def Client.closureArgs (client : Client F) (selection : Selection) : TraversalArgs where
  direction := selection.direction
  hops := min (selection.effectiveHops : Int) (max client.maxGraphHops 1)
  maxResults := maxConcepts
  relationTypes := selection.closureTypes

def Client.reach (client : Client F) (selection : Selection) (seed : ConceptRef) : List ConceptRef :=
  searchOrder TypedEdge.target
    (client.store.expand client.txn client.collate (client.closureArgs selection)) seed
    (client.closureArgs selection).hops.toNat

def Client.visited (client : Client F) (selection : Selection) (seed : ConceptRef) : List ConceptRef :=
  (client.reach selection seed).take maxConcepts

section Walk

variable {client : Client F} {selection : Selection} {seed v : ConceptRef} {hits : List NeighborHit}

theorem visited_eq : client.visited selection seed =
    client.store.walkOrder client.txn client.collate seed (client.closureArgs selection) := rfl

theorem find_direction (direction : TraversalDirection) :
    traversalDirections.find? (·.text == direction.text) = some direction := by
  cases direction <;> decide

theorem normalizedTypes_closureTypes {types : Option (List Text)}
    (h : normalizedTypes selection.closureTypes = .ok types) : types = selection.closureTypes := by
  unfold Selection.closureTypes at h ⊢
  cases hgiven : selection.relationTypes with
  | nil =>
    rw [hgiven] at h
    exact (Except.ok.inj h).symm
  | cons first rest =>
    rw [hgiven] at h
    simp only [List.isEmpty_cons, Bool.false_eq_true, if_false, normalizedTypes, bind_eq_ok,
      ensure_eq_ok,
      pure_eq_ok] at h
    obtain ⟨-, -, -, -, rfl⟩ := h
    rfl

theorem validated_closureCall {args : TraversalArgs}
    (h : validatedTraversalArgs client.maxGraphHops (selection.closureCall seed) = .ok args) :
    args = client.closureArgs selection := by
  simp only [validatedTraversalArgs, bind_eq_ok, ensure_eq_ok, orRefuse_eq_ok, pure_eq_ok] at h
  obtain ⟨direction, hdirection, -, -, -, -, types, htypes, rfl⟩ := h
  obtain rfl : selection.direction = direction :=
    Option.some.inj ((find_direction selection.direction).symm.trans hdirection)
  obtain rfl := normalizedTypes_closureTypes htypes
  rfl

theorem walkSeed_holds (h : client.walkSeed selection seed = .ok hits)
    (hseed : client.store.reads client.txn seed = true)
    (hv : v ∈ client.visited selection seed)
    (hreads : client.store.reads client.txn v = true) : ∃ hit ∈ hits, hit.node = v := by
  unfold Client.walkSeed at h
  split at h
  · rename_i typedHits hneighbors
    obtain rfl := Except.ok.inj h
    simp only [CatalogStore.relationshipNeighbors, bind_eq_ok, pure_eq_ok] at hneighbors
    obtain ⟨-, -, args, hargs, visits, hvisits, rfl⟩ := hneighbors
    obtain rfl := validated_closureCall hargs
    obtain ⟨visits', hvisits', hnodes, -⟩ :=
      traversalVisits_spec client.collate (client.closureArgs selection) hseed
    obtain rfl := Except.ok.inj (hvisits.symm.trans hvisits')
    rw [visited_eq, ← hnodes] at hv
    obtain ⟨visit, hvisit, rfl⟩ := List.mem_map.mp hv
    have hfew : ((client.store.annotatedHits client.txn seed visits).insertionSort
        fun a b => hitLe a b = true).length ≤ (client.closureArgs selection).maxResults := by
      rw [List.length_insertionSort, CatalogStore.annotatedHits, List.length_map]
      refine (List.length_filter_le _ _).trans ?_
      rw [← List.length_map Prod.fst, hnodes, CatalogStore.walkOrder]
      exact List.length_take_le _ _
    refine ⟨.of (.of seed visit), List.mem_map_of_mem ?_, rfl⟩
    change _ ∈ ((client.store.annotatedHits client.txn seed visits).insertionSort
      fun a b => hitLe a b = true).take (client.closureArgs selection).maxResults
    rw [List.take_of_length_le hfew, List.mem_insertionSort]
    exact List.mem_map_of_mem (List.mem_filter.mpr ⟨hvisit, hreads⟩)
  · cases h

end Walk

section Required

variable {client : Client F} {selection : Selection} {seed v : ConceptRef}
  {records records' : List ConceptRecord} {report : ClosureReport}

theorem applyClosure_required (hrequired : selection.requireClosure = true)
    (hrecords : ∀ v ∈ keys records, client.store.reads client.txn v = true)
    (h : client.applyClosure selection records = .ok (records', report)) :
    ∃ nodes : OrderedMap ConceptRef NeighborHit,
      (∀ seed ∈ selection.seeds, ∃ hits, client.walkSeed selection seed = .ok hits ∧
        ∀ hit ∈ hits, hit.node ∈ nodes.map (·.1)) ∧
      records.length + (missingRefs (sortRefs selection.seeds) nodes records).length ≤ maxConcepts ∧
      (∀ v ∈ keys records', client.store.reads client.txn v = true) ∧
      (∀ seed ∈ selection.seeds, seed ∈ keys records') ∧ ∀ v ∈ nodes.map (·.1), v ∈ keys records' := by
  simp only [Client.applyClosure, bind_eq_ok, ensure_eq_ok, pure_eq_ok, hrequired, Bool.not_true,
    Bool.false_or, decide_eq_true_eq, List.isEmpty_iff] at h
  obtain ⟨nodes, hnodes, -, hlimit, fetched, hfetched, -, habsent, -, hdropped, -, -, hresult⟩ := h
  obtain ⟨rfl, -⟩ := Prod.mk.inj hresult
  have hkeys : keys (markClosure nodes (markSeeds (sortRefs selection.seeds) fetched)) = keys fetched :=
    (keys_markClosure nodes _).trans (keys_markSeeds _ _)
  refine ⟨nodes, ?_, hlimit, ?_, ?_, fun v hv => mem_keys_of_unmaterialized hdropped hv⟩
  · exact fun seed hseed => closureNodes_holds hnodes seed (mem_sortRefs.mpr hseed)
  · rw [hkeys]
    exact fetchMissing_reads hrecords hfetched
  · intro seed hseed
    rw [hkeys]
    have hfound := List.filter_eq_nil_iff.mp habsent seed (mem_sortRefs.mpr hseed)
    simpa using hfound

theorem mem_reach_of_trail {es : List TypedEdge}
    (htrail : (client.store.graph client.txn (client.closureArgs selection)).Trail seed es v)
    (hlen : (es.length : Int) ≤ (client.closureArgs selection).hops) :
    v = seed ∨ v ∈ client.reach selection seed := by
  have hlists := expand_lists client.store client.txn client.collate (client.closureArgs selection)
  have hball := (mem_ball_iff_trail hlists).mpr
    ⟨es, htrail, show es.length ≤ (client.closureArgs selection).hops.toNat by omega⟩
  rw [ball_eq_cons] at hball
  exact List.mem_cons.mp hball

theorem reach_reads (hsound : ∀ key, Sound key client.store) (hv : v ∈ client.reach selection seed)
    (hlive : client.store.isLive v = true) : client.store.reads client.txn v = true := by
  have hlists := expand_lists client.store client.txn client.collate (client.closureArgs selection)
  obtain ⟨hne, n, -, -, ⟨es, htrail, -⟩, -⟩ := (mem_searchOrder_iff_within hlists).mp hv
  cases htrail with
  | nil => exact absurd rfl hne
  | snoc _ hmem =>
    have hvisible := target_visible hsound hmem
    simp only [CatalogStore.isLive, CatalogStore.reads, Bool.and_eq_true] at hlive ⊢
    exact ⟨hvisible, hlive.2⟩

theorem reach_nodup : (seed :: client.reach selection seed).Nodup := by
  obtain ⟨hnodup, hne⟩ : (client.reach selection seed).Nodup ∧ seed ∉ client.reach selection seed :=
    searchOrder_nodup
  exact List.nodup_cons.mpr ⟨hne, hnodup⟩

theorem not_full_of_limit {nodes : OrderedMap ConceptRef NeighborHit} {seeds walked : List ConceptRef}
    (hnodup : (seed :: walked).Nodup) (hseed : seed ∈ seeds)
    (hwalked : ∀ v ∈ walked, v ∈ nodes.map (·.1))
    (hlimit : records.length + (missingRefs seeds nodes records).length ≤ maxConcepts) :
    walked.length < maxConcepts := by
  have hsubset : seed :: walked ⊆ keys records ++ missingRefs seeds nodes records := by
    intro v hv
    rcases List.mem_cons.mp hv with rfl | hv
    · exact mem_keys_or_missing (.inl hseed)
    · exact mem_keys_or_missing (.inr (hwalked v hv))
  have hlen := (List.subperm_of_subset hnodup hsubset).length_le
  rw [List.length_cons, List.length_append, keys, List.length_map] at hlen
  omega

end Required

section Complete

variable {digest : Text → Text} {serde : Serde F} {maxRows : Nat} {client : Client F}
  {es : List (Entry (StoreCall F) CatalogError Reply)}

/-- A required closure is refused or holds every existing concept of an active bundle within the
hops, walks that are cut at the concept limit on a vanished concept apart. -/
theorem required_closure_complete (hrun : StoreRun digest serde maxRows .empty es client.store)
    (selection : Selection) (records : List ConceptRecord) (hrequired : selection.requireClosure = true)
    (hrecords : ∀ v ∈ keys records, client.store.reads client.txn v = true)
    (hcut : ∀ seed ∈ selection.seeds, maxConcepts < (client.reach selection seed).length →
      ∀ v ∈ client.visited selection seed, ¬ client.store.Vanished client.txn v) :
    (∃ refusal, client.applyClosure selection records = .error refusal) ∨
      ∃ records' report, client.applyClosure selection records = .ok (records', report) ∧
        ∀ seed ∈ selection.seeds, ∀ trail v,
          (client.store.graph client.txn (client.closureArgs selection)).Trail seed trail v →
          (trail.length : Int) ≤ min (selection.effectiveHops : Int) (max client.maxGraphHops 1) →
          client.store.isLive v = true → v ∈ keys records' := by
  have hsound : ∀ key, Sound key client.store := fun key => sound_run hrun
  cases hresult : client.applyClosure selection records with
  | error refusal => exact .inl ⟨refusal, rfl⟩
  | ok result =>
    obtain ⟨records', report⟩ := result
    refine .inr ⟨records', report, rfl, fun seed hseed trail v htrail hlen hlive => ?_⟩
    obtain ⟨nodes, hwalks, hlimit, hreads, hseeds, hnodes⟩ :=
      applyClosure_required hrequired hrecords hresult
    obtain ⟨hits, hwalk, hmet⟩ := hwalks seed hseed
    have hvisited : ∀ u ∈ client.visited selection seed, client.store.isLive u = true →
      u ∈ nodes.map (·.1) := by
      intro u hu hulive
      have hureads := reach_reads hsound (List.mem_of_mem_take hu) hulive
      obtain ⟨hit, hhit, rfl⟩ := walkSeed_holds hwalk (hreads seed (hseeds seed hseed)) hu hureads
      exact hmet hit hhit
    rcases mem_reach_of_trail htrail hlen with rfl | hv
    · exact hseeds v hseed
    by_cases hfull : maxConcepts < (client.reach selection seed).length
    · -- A walk that is cut holds as many nodes as there may be concepts, and the seed is one more.
      have hfew : (client.visited selection seed).length < maxConcepts := by
        refine not_full_of_limit ?_ (mem_sortRefs.mpr hseed) (fun u hu => hvisited u hu ?_) hlimit
        · exact reach_nodup.sublist ((List.take_sublist _ _).cons_cons seed)
        · rw [visited_eq] at hu
          exact (live_or_vanished hsound hu).resolve_right (hcut seed hseed hfull u hu)
      rw [Client.visited, List.length_take_of_le (Nat.le_of_lt hfull)] at hfew
      exact absurd hfew (Nat.lt_irrefl _)
    · refine hnodes v (hvisited v ?_ hlive)
      rw [Client.visited, List.take_of_length_le (Nat.le_of_not_lt hfull)]
      exact hv

end Complete

def chainRow (source target : String) : Json Nat :=
  rowOf source [("direction", .string "directed"), ("target_bundle_id", .number (.int 1)),
    ("target_concept_id", .string target.toList)]

def chain : RelationshipArguments Nat :=
  sampleArguments 1 ⟨.array [chainRow "a" "b", chainRow "b" "c"], by decide⟩

def chainCalls : List (StoreCall Nat) :=
  [.registers 0,
    .fences 10,
    .byAdmin 20 (.publish chain)]

def chainClient (maxGraphHops : Int) : Client Nat where
  store := storeAfter chainCalls
  txn := writerTxn
  collate := byCodePoint
  maxGraphHops := maxGraphHops
  rows v := ⟨"docs", v.2, none, [], "unverified", none, none⟩
  members _ := []
  toChar _ := []

def chainSelection : Selection where
  verifiedOnly := false
  picks := []
  stalePolicy := .warn
  seeds := [(1, "a")]
  relationTypes := []
  direction := .outbound
  hops := none
  requireClosure := true

def chainTrail : List TypedEdge :=
  [⟨(1, "a"), (1, "b"), "n:t"⟩, ⟨(1, "b"), (1, "c"), "n:t"⟩]

abbrev chainGraph : Lib.Graph ConceptKey TypedEdge :=
  typedGraph (traversalEdges ((storeAfter chainCalls).currentEdges writerTxn none) .outbound)

theorem chainTrail_leads : chainGraph.Trail (1, "a") chainTrail (1, "c") := by
  have hedges : ∀ e ∈ chainTrail, e ∈ chainGraph.edges := by decide +kernel
  have hfirst := Lib.Graph.Trail.snoc (G := chainGraph) (s := (1, "a")) .nil
    (hedges ⟨(1, "a"), (1, "b"), "n:t"⟩ List.mem_cons_self)
  exact hfirst.snoc (hedges ⟨(1, "b"), (1, "c"), "n:t"⟩ (List.mem_cons_of_mem _ List.mem_cons_self))

theorem required_closure_complete_chain :
    ∃ records report, (chainClient 5).applyClosure chainSelection [] = .ok (records, report) ∧
      (1, "c".toList) ∈ keys records := by
  have hcut : ∀ seed ∈ chainSelection.seeds,
    maxConcepts < ((chainClient 5).reach chainSelection seed).length →
      ∀ v ∈ (chainClient 5).visited chainSelection seed,
        ¬ (chainClient 5).store.Vanished writerTxn v := by
    intro seed hseed hfull
    obtain rfl := List.mem_singleton.mp hseed
    have hshort : ((chainClient 5).reach chainSelection (1, "a".toList)).length ≤ maxConcepts :=
      by decide +kernel
    exact absurd hfull (Nat.not_lt.mpr hshort)
  have hrun : StoreRun sampleTextDigest sampleSerde 50 .empty _ (chainClient 5).store :=
    play_run (storeExec sampleTextDigest sampleSerde 50) .empty chainCalls
  rcases required_closure_complete hrun chainSelection [] rfl
    (fun _ hv => absurd hv List.not_mem_nil) hcut with
    ⟨refusal, hrefused⟩ | ⟨records, report, hok, hcomplete⟩
  · have haccepted : ((chainClient 5).applyClosure chainSelection []).toOption.isSome = true :=
      by decide +kernel
    rw [hrefused] at haccepted
    cases haccepted
  · refine ⟨records, report, hok, ?_⟩
    exact hcomplete _ (List.mem_singleton.mpr rfl) _ _ chainTrail_leads (by decide) (by decide +kernel)

/-- The database allows one hop, the selection two: the closure ends before `c` and is not refused. -/
theorem closure_ends_at_max_graph_hops :
    ∃ records report, (chainClient 1).applyClosure chainSelection [] = .ok (records, report) ∧
      (1, "c".toList) ∉ keys records ∧ (chainClient 1).store.isLive (1, "c".toList) = true ∧
      ((chainClient 1).store.graph writerTxn ((chainClient 1).closureArgs chainSelection)).Trail
        (1, "a".toList) chainTrail (1, "c".toList) ∧
          chainTrail.length ≤ chainSelection.effectiveHops := by
  have hresult : ((chainClient 1).applyClosure chainSelection []).toOption.map
    (fun result => keys result.1) =
      some [(1, "a".toList), (1, "b".toList)] := by decide +kernel
  cases hok : (chainClient 1).applyClosure chainSelection [] with
  | error refusal =>
    rw [hok] at hresult
    cases hresult
  | ok result =>
    rw [hok] at hresult
    have hkeys : keys result.1 = [(1, "a".toList), (1, "b".toList)] := Option.some.inj hresult
    refine ⟨result.1, result.2, rfl, ?_, by decide +kernel, chainTrail_leads, by decide⟩
    rw [hkeys]
    decide

end Pgokf.Workspace
