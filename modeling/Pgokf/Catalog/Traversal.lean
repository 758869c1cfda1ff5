import Pgokf.Catalog.Neighbors
import Pgokf.Catalog.RelationStore

/-! # Walking the current relationships (`relationships.rs`)

The projection `pgokf.current_relationships` and `concept_relationship_neighbors`, which walks its
resolved rows. The annotations of a hit are left out. -/

namespace Pgokf.Catalog

open Lib

variable {F : Type}

def isActiveBundle (bundles : BundleTable) (b : BundleId) : Bool :=
  (bundles b).any fun row => row.enabled && row.retiredAt.isNone

namespace CatalogStore

/-- A resolved row is hidden while its target bundle is not active and visible. -/
def showsRow (s : CatalogStore F) (txn : Txn) (row : RelationshipRow F) : Bool :=
  row.unresolved || row.targetBundleId.all fun b => visibleActive txn s.catalog.bundles.rows b

def shownRows (s : CatalogStore F) (txn : Txn) (p : Publication) : List (BundleId × RelationshipRow F) :=
  match p.sourceBundleId with
  | none => []
  | some b =>
    if p.state == .active && isActiveBundle s.catalog.bundles.rows b &&
        tenantPredicate txn.session txn.requireTenant p.tenantId then
      ((s.rows p.publicationId).filter (s.showsRow txn)).map fun row => (b, row)
    else []

def currentRelationships (s : CatalogStore F) (txn : Txn) : List (BundleId × RelationshipRow F) :=
  s.catalog.publications.rows.flatMap (s.shownRows txn)

def isLive (s : CatalogStore F) (v : ConceptKey) : Bool :=
  isActiveBundle s.catalog.bundles.rows v.1 && s.concepts v.1 v.2

/- What a reader finds of the concepts, under the row policies of the tables. -/
def reads (s : CatalogStore F) (txn : Txn) (v : ConceptKey) : Bool :=
  visibleActive txn s.catalog.bundles.rows v.1 && s.concepts v.1 v.2

end CatalogStore

inductive TraversalDirection where
  | outbound
  | inbound
  | both
  deriving DecidableEq

def TraversalDirection.text : TraversalDirection → Text
  | .outbound => "outbound"
  | .inbound => "inbound"
  | .both => "both"

def traversalDirections : List TraversalDirection := [.outbound, .inbound, .both]

def TypedEdge.reverse (e : TypedEdge) : TypedEdge := ⟨e.target, e.source, e.relationType⟩

/-- A resolved row as an edge; `relationship_target_chk` gives it both references. -/
def RelationshipRow.edge (b : BundleId) (row : RelationshipRow F) : Option TypedEdge :=
  match row.unresolved, row.targetBundleId, row.targetConceptId with
  | false, some target, some concept =>
    some ⟨(b, row.sourceConceptId), (target, concept), row.relationType⟩
  | _, _, _ => none

def followsType (types : Option (List Text)) (relationType : Text) : Bool :=
  types.all (·.contains relationType)

def CatalogStore.currentEdges (s : CatalogStore F) (txn : Txn) (types : Option (List Text)) :
    List (TypedEdge × Direction) :=
  (s.currentRelationships txn).filterMap fun shown =>
    if followsType types shown.2.relationType then (shown.2.edge shown.1).map
      (·, shown.2.direction) else none

section Queries

/- The collation of the database, by which the text columns are ordered. -/
variable (collate : Text → Text → Bool)

def edgeLe (a b : TypedEdge) : Bool :=
  if a.source.1 ≠ b.source.1 then decide (a.source.1 < b.source.1)
  else if a.source.2 ≠ b.source.2 then collate a.source.2 b.source.2
  else if a.target.1 ≠ b.target.1 then decide (a.target.1 < b.target.1)
  else if a.target.2 ≠ b.target.2 then collate a.target.2 b.target.2
  else collate a.relationType b.relationType

def sortEdges (edges : List TypedEdge) : List TypedEdge :=
  edges.insertionSort fun a b => edgeLe collate a b = true

def isUndirected (edge : TypedEdge × Direction) : Bool := edge.2 == .undirected

def forwardEdgeQuery (edges : List (TypedEdge × Direction)) (frontier : List ConceptKey) :
    List TypedEdge :=
  sortEdges collate
    ((edges.filter fun edge => frontier.contains edge.1.source).map (·.1) ++
      (edges.filter fun edge => isUndirected edge && frontier.contains edge.1.target).map (·.1.reverse))

def backwardEdgeQuery (edges : List (TypedEdge × Direction)) (frontier : List ConceptKey) :
    List TypedEdge :=
  sortEdges collate
    ((edges.filter fun edge => frontier.contains edge.1.target).map (·.1.reverse) ++
      (edges.filter fun edge => isUndirected edge && frontier.contains edge.1.source).map (·.1))

def expandTypedFrontier (edges : List (TypedEdge × Direction)) (direction : TraversalDirection)
    (frontier : List ConceptKey) : List TypedEdge :=
  (if direction ≠ .inbound then forwardEdgeQuery collate edges frontier else []) ++
    (if direction ≠ .outbound then backwardEdgeQuery collate edges frontier else [])

end Queries

/-! ### The call -/

def maxNeighborResults : Int := 10000
def maxRelationTypeFilters : Nat := 256

structure NeighborCall where
  start : ConceptKey
  maxHops : Int
  direction : Text
  relationTypes : Option (List Text)
  maxResults : Int

structure TraversalArgs where
  direction : TraversalDirection
  hops : Int
  maxResults : Nat
  relationTypes : Option (List Text)

/-- An empty filter is the same as none. -/
def normalizedTypes : Option (List Text) → Except CatalogError (Option (List Text))
  | none | some [] => .ok none
  | some types => do
    ensure (types.length ≤ maxRelationTypeFilters)
      (.invalidParameter ("relation_types holds " ++ toString types.length ++
        " entries but the limit is " ++
        toString maxRelationTypeFilters))
    ensure (types.all fun relationType => !relationType.isEmpty)
      (.invalidParameter "relation_types must not contain empty entries")
    pure (some types)

def validatedTraversalArgs (maxGraphHops : Int) (call : NeighborCall) :
    Except CatalogError TraversalArgs := do
  let direction ← orRefuse (traversalDirections.find? (·.text == call.direction))
    (.invalidParameter ("direction must be one of 'outbound', 'inbound', 'both', got " ++
      String.ofList call.direction))
  ensure (1 ≤ call.maxHops)
    (.invalidParameter ("max_hops must be at least 1, got " ++ toString call.maxHops))
  ensure (1 ≤ call.maxResults && call.maxResults ≤ maxNeighborResults)
    (.invalidParameter ("max_results must be between 1 and " ++ toString maxNeighborResults ++
      ", got " ++
      toString call.maxResults))
  let relationTypes ← normalizedTypes call.relationTypes
  pure { direction, hops := min call.maxHops (max maxGraphHops 1), maxResults :=
    call.maxResults.toNat, relationTypes }

structure TypedNeighborHit where
  start : ConceptKey
  node : ConceptKey
  hops : Int
  pathBundleIds : List BundleId
  pathConceptIds : List Text
  relationType : Text
  deriving DecidableEq

def TypedNeighborHit.of (start : ConceptKey) (visit : ConceptKey × TypedVisit) : TypedNeighborHit where
  start := start
  node := visit.1
  hops := visit.2.hops
  pathBundleIds := visit.2.pathBundleIds
  pathConceptIds := visit.2.pathConceptIds
  relationType := visit.2.relationType

def hitLe (a b : TypedNeighborHit) : Bool :=
  if a.hops ≠ b.hops then decide (a.hops < b.hops)
  else if a.node.1 ≠ b.node.1 then decide (a.node.1 < b.node.1)
  else decide (a.node.2 ≤ b.node.2)

namespace CatalogStore

variable (s : CatalogStore F) (txn : Txn) (collate : Text → Text → Bool) (maxGraphHops : Int)

def expand (args : TraversalArgs) (frontier : List ConceptKey) : List TypedEdge :=
  expandTypedFrontier collate (s.currentEdges txn args.relationTypes) args.direction frontier

/-- The nodes that the walk records, each of which counts against the limit; an unknown seed has
none. -/
def traversalVisits (start : ConceptKey) (args : TraversalArgs) :
    Except CatalogError (List (ConceptKey × TypedVisit)) :=
  if s.reads txn start then
    typedBreadthFirst start args.hops args.maxResults fun frontier =>
      .ok (s.expand txn collate args frontier)
  else .ok []

/-- Visited nodes that the annotation does not find are dropped. -/
def annotatedHits (start : ConceptKey) (visits : List (ConceptKey × TypedVisit)) :
    List TypedNeighborHit :=
  (visits.filter fun visit => s.reads txn visit.1).map (.of start)

def relationshipNeighbors (call : NeighborCall) : Except CatalogError (List TypedNeighborHit) := do
  authorizeCurrentUser .search txn.session txn.requireTenant
  let args ← validatedTraversalArgs maxGraphHops call
  let visits ← s.traversalVisits txn collate call.start args
  let hits := (s.annotatedHits txn call.start visits).insertionSort fun a b => hitLe a b = true
  pure (hits.take args.maxResults)

end CatalogStore

section Graph

variable {collate : Text → Text → Bool} {edges : List (TypedEdge × Direction)} {e : TypedEdge}
  {frontier : List ConceptKey} {direction : TraversalDirection}

def forwardEdges (edges : List (TypedEdge × Direction)) : List TypedEdge :=
  edges.map (·.1) ++ (edges.filter isUndirected).map (·.1.reverse)

def backwardEdges (edges : List (TypedEdge × Direction)) : List TypedEdge :=
  edges.map (·.1.reverse) ++ (edges.filter isUndirected).map (·.1)

def traversalEdges (edges : List (TypedEdge × Direction)) (direction : TraversalDirection) :
    List TypedEdge :=
  (if direction ≠ .inbound then forwardEdges edges else []) ++
    (if direction ≠ .outbound then backwardEdges edges else [])

variable {f g : TypedEdge × Direction → TypedEdge}

/- Both queries: the edges by `f`, with the undirected ones by `g`, that leave the frontier. -/
theorem mem_edgeQuery :
    e ∈ (edges.filter fun edge => frontier.contains (f edge).source).map f ++
        (edges.filter fun edge => isUndirected edge && frontier.contains (g edge).source).map g ↔
      e ∈ edges.map f ++ (edges.filter isUndirected).map g ∧ e.source ∈ frontier := by
  simp only [List.mem_append, List.mem_map, List.mem_filter, List.contains_iff_mem, Bool.and_eq_true]
  constructor
  · rintro (⟨edge, ⟨hedge, hsource⟩, rfl⟩ | ⟨edge, ⟨hedge, hfree, hsource⟩, rfl⟩)
    · exact ⟨.inl ⟨edge, hedge, rfl⟩, hsource⟩
    · exact ⟨.inr ⟨edge, ⟨hedge, hfree⟩, rfl⟩, hsource⟩
  · rintro ⟨⟨edge, hedge, rfl⟩ | ⟨edge, ⟨hedge, hfree⟩, rfl⟩, hsource⟩
    · exact .inl ⟨edge, ⟨hedge, hsource⟩, rfl⟩
    · exact .inr ⟨edge, ⟨hedge, hfree, hsource⟩, rfl⟩

theorem mem_forwardEdgeQuery : e ∈ forwardEdgeQuery collate edges frontier ↔
    e ∈ forwardEdges edges ∧ e.source ∈ frontier :=
  (List.mem_insertionSort _).trans mem_edgeQuery

theorem mem_backwardEdgeQuery : e ∈ backwardEdgeQuery collate edges frontier ↔
    e ∈ backwardEdges edges ∧ e.source ∈ frontier :=
  (List.mem_insertionSort _).trans mem_edgeQuery

theorem expandTypedFrontier_lists :
    (typedGraph (traversalEdges edges direction)).Lists
      (expandTypedFrontier collate edges direction) := by
  intro frontier e
  rw [expandTypedFrontier, List.mem_append]
  cases direction with
  | outbound => simp [mem_forwardEdgeQuery, traversalEdges]
  | inbound => simp [mem_backwardEdgeQuery, traversalEdges]
  | both => simp [mem_forwardEdgeQuery, mem_backwardEdgeQuery, traversalEdges, or_and_right]

theorem of_mem_edges (h : e ∈ edges.map f ++ (edges.filter isUndirected).map g) :
    ∃ edge ∈ edges, e = f edge ∨ e = g edge := by
  rcases List.mem_append.mp h with h | h
  · obtain ⟨edge, hedge, rfl⟩ := List.mem_map.mp h
    exact ⟨edge, hedge, .inl rfl⟩
  · obtain ⟨edge, hedge, rfl⟩ := List.mem_map.mp h
    exact ⟨edge, (List.mem_filter.mp hedge).1, .inr rfl⟩

theorem of_mem_traversalEdges (h : e ∈ traversalEdges edges direction) :
    ∃ edge ∈ edges, e = edge.1 ∨ e = edge.1.reverse := by
  have hcases : e ∈ forwardEdges edges ∨ e ∈ backwardEdges edges := by
    cases direction <;> simp [traversalEdges] at h
    · exact .inl h
    · exact .inr h
    · exact h
  rcases hcases with h | h
  · exact of_mem_edges h
  · obtain ⟨edge, hedge, hsame⟩ := of_mem_edges h
    exact ⟨edge, hedge, hsame.symm⟩

end Graph

section Live

variable {s : CatalogStore F} {txn : Txn} {types : Option (List Text)} {b : BundleId}
  {row : RelationshipRow F} {v : ConceptKey} {direction : TraversalDirection} {e : TypedEdge}

/-- A concept that a resolved row of another bundle still refers to, and that its own bundle has
lost. -/
def CatalogStore.Vanished (s : CatalogStore F) (txn : Txn) (v : ConceptKey) : Prop :=
  ∃ b row, (b, row) ∈ s.currentRelationships txn ∧ row.unresolved = false ∧
    row.targetBundleId = some v.1 ∧
    row.targetConceptId = some v.2 ∧ v.1 ≠ b ∧ s.concepts v.1 v.2 = false

theorem visibleActive_isActive {bundles : BundleTable} (h : visibleActive txn bundles b = true) :
    isActiveBundle bundles b = true := by
  unfold visibleActive at h
  split at h
  · rename_i row hrow
    simp only [Bool.and_eq_true] at h
    simp [isActiveBundle, hrow, h.1.1, h.1.2]
  · cases h

theorem reads_isLive (h : s.reads txn v = true) : s.isLive v = true := by
  simp only [CatalogStore.reads, CatalogStore.isLive, Bool.and_eq_true] at *
  exact ⟨visibleActive_isActive h.1, h.2⟩

theorem mem_currentRelationships (h : (b, row) ∈ s.currentRelationships txn) :
    isActiveBundle s.catalog.bundles.rows b = true ∧ s.showsRow txn row = true ∧
      ∃ p ∈ s.catalog.publications.rows, p.sourceBundleId = some b ∧ p.state = .active ∧
        row ∈ s.rows p.publicationId ∧
          tenantPredicate txn.session txn.requireTenant p.tenantId = true := by
  obtain ⟨p, hp, hshown⟩ := List.mem_flatMap.mp h
  unfold CatalogStore.shownRows at hshown
  split at hshown
  · cases hshown
  · rename_i source hsource
    split at hshown
    · rename_i hcurrent
      simp only [Bool.and_eq_true, beq_iff_eq] at hcurrent
      obtain ⟨row', hrow', heq⟩ := List.mem_map.mp hshown
      obtain ⟨rfl, rfl⟩ := Prod.mk.inj heq
      obtain ⟨hmem, hshows⟩ := List.mem_filter.mp hrow'
      exact ⟨hcurrent.1.2, hshows, p, hp, hsource, hcurrent.1.1, hmem, hcurrent.2⟩
    · cases hshown

theorem mem_currentEdges {edge : TypedEdge × Direction} (h : edge ∈ s.currentEdges txn types) :
    ∃ b row, (b, row) ∈ s.currentRelationships txn ∧ row.unresolved = false ∧
      edge.1.source = (b, row.sourceConceptId) ∧ row.targetBundleId = some edge.1.target.1 ∧
      row.targetConceptId = some edge.1.target.2 := by
  obtain ⟨⟨b, row⟩, hshown, hedge⟩ := List.mem_filterMap.mp h
  split at hedge
  · obtain ⟨typed, htyped, rfl⟩ := Option.map_eq_some_iff.mp hedge
    unfold RelationshipRow.edge at htyped
    split at htyped
    · rename_i target concept hresolved htarget hconcept
      obtain rfl := Option.some.inj htyped
      exact ⟨b, row, hshown, hresolved, rfl, htarget, hconcept⟩
    · cases htyped
  · cases hedge

/-- In a reachable state both ends of a current row exist, the end in another bundle apart. -/
theorem ends_live (hsound : ∀ key, Sound key s) (hshown : (b, row) ∈ s.currentRelationships txn) :
    s.isLive (b, row.sourceConceptId) = true ∧
      (row.unresolved = false → ∀ v : ConceptKey, row.targetBundleId = some v.1 →
        row.targetConceptId = some v.2 →
        s.isLive v = true ∨ s.Vanished txn v) := by
  obtain ⟨hactive, hshows, p, hp, hb, hstate, hrow, -⟩ := mem_currentRelationships hshown
  obtain ⟨hsource, htarget⟩ :=
    (hsound ⟨p.tenantId, p.producer, b⟩).grounded p hp ⟨rfl, rfl, hb⟩ hstate row hrow
  refine ⟨by simp only [CatalogStore.isLive, Bool.and_eq_true]; exact ⟨hactive, hsource⟩, ?_⟩
  intro hresolved v hbundle hconcept
  by_cases hsame : v.1 = b
  · obtain ⟨concept, hconcept', hexists⟩ := htarget hresolved (hbundle.trans (congrArg some hsame))
    obtain rfl := Option.some.inj (hconcept.symm.trans hconcept')
    refine .inl ?_
    simp only [CatalogStore.isLive, Bool.and_eq_true, hsame]
    exact ⟨hactive, hexists⟩
  · have hvisible : visibleActive txn s.catalog.bundles.rows v.1 = true := by
      simpa [CatalogStore.showsRow, hresolved, hbundle] using hshows
    cases hexists : s.concepts v.1 v.2 with
    | true =>
      refine .inl ?_
      simp only [CatalogStore.isLive, Bool.and_eq_true]
      exact ⟨visibleActive_isActive hvisible, hexists⟩
    | false => exact .inr ⟨b, row, hshown, hresolved, hbundle, hconcept, hsame, hexists⟩

theorem target_live_or_vanished (hsound : ∀ key, Sound key s)
    (h : e ∈ traversalEdges (s.currentEdges txn types) direction) :
    s.isLive e.target = true ∨ s.Vanished txn e.target := by
  obtain ⟨edge, hedge, hend⟩ := of_mem_traversalEdges h
  obtain ⟨b, row, hshown, hresolved, hsource, hbundle, hconcept⟩ := mem_currentEdges hedge
  obtain ⟨hlive, htarget⟩ := ends_live hsound hshown
  rcases hend with rfl | rfl
  · exact htarget hresolved _ hbundle hconcept
  · refine .inl ?_
    change s.isLive edge.1.source = true
    rw [hsource]
    exact hlive

theorem ends_visible (hsound : ∀ key, Sound key s) (hshown : (b, row) ∈ s.currentRelationships txn) :
    visibleActive txn s.catalog.bundles.rows b = true ∧
      (row.unresolved = false → ∀ target, row.targetBundleId = some target →
        visibleActive txn s.catalog.bundles.rows target = true) := by
  obtain ⟨hactive, hshows, p, hp, hb, hstate, -, htenant⟩ := mem_currentRelationships hshown
  constructor
  · cases hbundle : s.catalog.bundles.rows b with
    | none => simp [isActiveBundle, hbundle] at hactive
    | some bundle =>
      have hsame : bundle.tenantId = p.tenantId := by
        have htenanted := (hsound ⟨p.tenantId, p.producer, b⟩).tenanted
        exact htenanted p hp ⟨rfl, rfl, hb⟩ (by rw [hstate]; decide) bundle hbundle
      simp only [isActiveBundle, hbundle, Option.any_some] at hactive
      simp only [visibleActive, hbundle, hsame, hactive, htenant, Bool.and_self]
  · intro hresolved target htarget
    simpa [CatalogStore.showsRow, hresolved, htarget] using hshows

theorem target_visible (hsound : ∀ key, Sound key s)
    (h : e ∈ traversalEdges (s.currentEdges txn types) direction) :
    visibleActive txn s.catalog.bundles.rows e.target.1 = true := by
  obtain ⟨edge, hedge, hend⟩ := of_mem_traversalEdges h
  obtain ⟨b, row, hshown, hresolved, hsource, hbundle, -⟩ := mem_currentEdges hedge
  obtain ⟨hvisible, htarget⟩ := ends_visible hsound hshown
  rcases hend with rfl | rfl
  · exact htarget hresolved _ hbundle
  · change visibleActive txn s.catalog.bundles.rows edge.1.source.1 = true
    rw [hsource]
    exact hvisible

theorem not_live_of_vanished (h : s.Vanished txn v) : s.isLive v ≠ true := by
  obtain ⟨b, row, -, -, -, -, -, hgone⟩ := h
  simp [CatalogStore.isLive, hgone]

end Live

/-! ### The nodes of a path -/

def TypedVisit.nodes (visit : TypedVisit) : List ConceptKey :=
    visit.pathBundleIds.zip visit.pathConceptIds

def TypedNeighborHit.path (hit : TypedNeighborHit) : List ConceptKey :=
    hit.pathBundleIds.zip hit.pathConceptIds

theorem nodes_over (seed : ConceptKey) (es : List TypedEdge) :
    (TypedVisit.over seed es).nodes = seed :: es.map TypedEdge.target := by
  simp [TypedVisit.nodes, TypedVisit.over, List.zip_map']

section Walk

variable {s : CatalogStore F} {txn : Txn} {collate : Text → Text → Bool} {start v : ConceptKey}
  {args : TraversalArgs} {visits : List (ConceptKey × TypedVisit)} {call : NeighborCall}
  {maxGraphHops : Int}

abbrev CatalogStore.graph (s : CatalogStore F) (txn : Txn) (args : TraversalArgs) :
    Lib.Graph ConceptKey TypedEdge :=
  typedGraph (traversalEdges (s.currentEdges txn args.relationTypes) args.direction)

def CatalogStore.walkOrder (s : CatalogStore F) (txn : Txn) (collate : Text → Text → Bool)
    (start : ConceptKey) (args : TraversalArgs) : List ConceptKey :=
  (searchOrder TypedEdge.target (s.expand txn collate args) start args.hops.toNat).take args.maxResults

theorem expand_lists (s : CatalogStore F) (txn : Txn) (collate : Text → Text → Bool)
    (args : TraversalArgs) :
    (s.graph txn args).Lists (s.expand txn collate args) := expandTypedFrontier_lists

theorem traversalVisits_spec (collate : Text → Text → Bool) (args : TraversalArgs)
    (hseed : s.reads txn start = true) :
    ∃ visits, s.traversalVisits txn collate start args = .ok visits ∧
      visits.map Prod.fst = s.walkOrder txn collate start args ∧
      ∀ v r, (v, r) ∈ visits → ∃ es, (s.graph txn args).Trail start es v ∧
        (s.graph txn args).Distance start v es.length ∧ r = .over start es := by
  obtain ⟨visits, hrun, hnodes, hrecords⟩ :=
    SearchSpec.run_spec (typedSearch_follows
      (expand_lists s txn collate args) start args.maxResults) start args.hops
  refine ⟨visits, ?_, hnodes, hrecords⟩
  rw [CatalogStore.traversalVisits, if_pos hseed]
  exact hrun

/-- What a visited node's path passes was visited too, the seed apart. -/
theorem passes_visited {es : List TypedEdge} (hv : v ∈ s.walkOrder txn collate start args)
    (htrail : (s.graph txn args).Trail start es v)
    (hdist : (s.graph txn args).Distance start v es.length) :
    ∀ e ∈ es, e.target = start ∨ e.target ∈ s.walkOrder txn collate start args := by
  have hlists := expand_lists s txn collate args
  have hwithin := (mem_searchOrder_iff_within hlists).mp (List.mem_of_mem_take hv)
  obtain ⟨-, n, -, hhops, hn⟩ := hwithin
  obtain rfl := hn.unique hdist
  intro e he
  rcases htrail.passes hdist e he with heq | ⟨m, hlt, hm⟩
  · have heq : e.target = v := heq
    rw [heq]
    exact .inr hv
  · by_cases hstart : e.target = start
    · exact .inl hstart
    have hmet : e.target ∈ searchOrder TypedEdge.target
      (s.expand txn collate args) start args.hops.toNat := by
      refine (mem_searchOrder_iff_within hlists).mpr ⟨hstart, m, ?_, by omega, hm⟩
      refine Nat.one_le_iff_ne_zero.mpr fun hzero => hstart ?_
      subst hzero
      exact Lib.Graph.distance_zero_iff.mp hm
    have hv : v ∈ atMost (some args.maxResults)
        (searchOrder TypedEdge.target (s.expand txn collate args) start args.hops.toNat) := hv
    exact .inr (mem_atMost_of_nearer hlists hv hdist hmet hm hlt)

theorem live_or_vanished (hsound : ∀ key, Sound key s) (hv : v ∈ s.walkOrder txn collate start args) :
    s.isLive v = true ∨ s.Vanished txn v := by
  have hwithin := (mem_searchOrder_iff_within (expand_lists s txn collate args)).mp
    (List.mem_of_mem_take hv)
  obtain ⟨hne, n, -, -, ⟨es, htrail, -⟩, -⟩ := hwithin
  cases htrail with
  | nil => exact absurd rfl hne
  | snoc _ hmem => exact target_live_or_vanished hsound hmem

theorem path_live (hsound : ∀ key, Sound key s) (hseed : s.reads txn start = true)
    (hnone : ∀ u ∈ s.walkOrder txn collate start args, ¬ s.Vanished txn u)
    (hv : v ∈ s.walkOrder txn collate start args) {es : List TypedEdge}
    (htrail : (s.graph txn args).Trail start es v)
    (hdist : (s.graph txn args).Distance start v es.length) :
    ∀ u ∈ (TypedVisit.over start es).nodes, s.isLive u = true := by
  have hwalked : ∀ u ∈ s.walkOrder txn collate start args, s.isLive u = true := fun u hu =>
    (live_or_vanished hsound hu).resolve_right (hnone u hu)
  intro u hu
  rw [nodes_over] at hu
  rcases List.mem_cons.mp hu with rfl | hu
  · exact reads_isLive hseed
  · obtain ⟨e, he, rfl⟩ := List.mem_map.mp hu
    rcases passes_visited hv htrail hdist e he with hstart | hwalk
    · rw [hstart]
      exact reads_isLive hseed
    · exact hwalked _ hwalk

theorem mem_nodes_of_trail {es : List TypedEdge} (h : (s.graph txn args).Trail start es v) :
    v ∈ (TypedVisit.over start es).nodes := by
  rw [nodes_over]
  cases h with
  | nil => exact List.mem_cons_self
  | snoc => simp

theorem mem_annotatedHits {hit : TypedNeighborHit} (h : hit ∈ s.annotatedHits txn start visits) :
    ∃ visit ∈ visits, hit.path = visit.2.nodes := by
  obtain ⟨visit, hvisit, rfl⟩ := List.mem_map.mp h
  exact ⟨visit, (List.mem_filter.mp hvisit).1, rfl⟩

end Walk

variable {digest : Text → Text} {serde : Serde F} {maxRows : Nat}
  {es : List (Entry (StoreCall F) CatalogError Reply)} {s : CatalogStore F}

/-- An accepted call stays among existing concepts of active bundles, with every path it reports and
every node it counts, exactly if no node it walks has vanished from a bundle under a resolved row of
another. -/
theorem traversal_stays_inside (hrun : StoreRun digest serde maxRows .empty es s) (txn : Txn)
    (collate : Text → Text → Bool) (maxGraphHops : Int) (call : NeighborCall) (args : TraversalArgs)
    (hauthorized : authorizeCurrentUser .search txn.session txn.requireTenant = .ok ())
    (hargs : validatedTraversalArgs maxGraphHops call = .ok args) :
    ∃ visits hits, s.traversalVisits txn collate call.start args = .ok visits ∧
      s.relationshipNeighbors txn collate maxGraphHops call = .ok hits ∧
      (((∀ hit ∈ hits, ∀ v ∈ hit.path, s.isLive v = true) ∧
          ∀ visit ∈ visits, ∀ v ∈ visit.2.nodes, s.isLive v = true) ↔
        (s.reads txn call.start = true →
          ∀ v ∈ s.walkOrder txn collate call.start args, ¬ s.Vanished txn v)) := by
  have hsound : ∀ key, Sound key s := fun key => sound_run hrun
  have hanswers : ∀ visits, s.traversalVisits txn collate call.start args = .ok visits →
      s.relationshipNeighbors txn collate maxGraphHops call =
        .ok (((s.annotatedHits txn call.start visits).insertionSort fun a b => hitLe a b = true).take
          args.maxResults) := by
    intro visits hvisits
    simp only [CatalogStore.relationshipNeighbors, hauthorized, hargs, hvisits, bind, Except.bind, pure,
      Except.pure]
  -- A hit reports the path of its visit.
  have hhits : ∀ visits : List (ConceptKey × TypedVisit),
      (∀ visit ∈ visits, ∀ v ∈ visit.2.nodes, s.isLive v = true) →
      ∀ hit ∈ ((s.annotatedHits txn call.start visits).insertionSort fun a b => hitLe a b = true).take
        args.maxResults, ∀ v ∈ hit.path, s.isLive v = true := by
    intro visits hall hit hhit
    have hhit := List.mem_of_mem_take hhit
    rw [List.mem_insertionSort] at hhit
    obtain ⟨visit, hvisit, hpath⟩ := mem_annotatedHits hhit
    rw [hpath]
    exact hall visit hvisit
  cases hseed : s.reads txn call.start with
  | false =>
    have hvisits : s.traversalVisits txn collate call.start args = .ok [] := by
      simp [CatalogStore.traversalVisits, hseed]
    refine ⟨[], _, hvisits, hanswers [] hvisits, ?_⟩
    have hall : ∀ visit ∈ ([] : List (ConceptKey × TypedVisit)), ∀ v ∈ visit.2.nodes,
      s.isLive v = true :=
      fun visit hvisit => absurd hvisit List.not_mem_nil
    exact ⟨fun _ hfalse => absurd hfalse Bool.false_ne_true, fun _ => ⟨hhits [] hall, hall⟩⟩
  | true =>
    obtain ⟨visits, hvisits, hnodes, hrecords⟩ := traversalVisits_spec collate args hseed
    refine ⟨visits, _, hvisits, hanswers visits hvisits, ?_⟩
    constructor
    · rintro ⟨-, hall⟩ - v hv hvanished
      rw [← hnodes] at hv
      obtain ⟨⟨_, r⟩, hvisit, rfl⟩ := List.mem_map.mp hv
      obtain ⟨es, htrail, -, rfl⟩ := hrecords _ _ hvisit
      exact not_live_of_vanished hvanished (hall _ hvisit _ (mem_nodes_of_trail htrail))
    · intro hnone
      have hall : ∀ visit ∈ visits, ∀ v ∈ visit.2.nodes, s.isLive v = true := by
        rintro ⟨v, r⟩ hvisit
        obtain ⟨es, htrail, hdist, rfl⟩ := hrecords v r hvisit
        have hv : v ∈ s.walkOrder txn collate call.start args := by
          rw [← hnodes]
          exact List.mem_map_of_mem hvisit
        exact path_live hsound hseed (hnone rfl) hv htrail hdist
      exact ⟨hhits visits hall, hall⟩

def bridgeRow (source : String) : Json Nat :=
  rowOf source [("direction", .string "undirected"), ("target_bundle_id", .number (.int 2)),
    ("target_concept_id", .string "x")]

def bridge : RelationshipArguments Nat :=
  sampleArguments 1 ⟨.array [bridgeRow "a", bridgeRow "b"], by decide⟩

def bridgeCalls : List (StoreCall Nat) :=
  [.registers 0,
    .registers 5,
    .fences 10,
    .byAdmin 20 (.publish bridge)]

def bridgeLost : List (StoreCall Nat) :=
  bridgeCalls ++ [.byAdmin 30 (.other (.syncBundle 2 ⟨[], [], .default⟩) (fun _ => false) rfl)]

def storeAfter (calls : List (StoreCall Nat)) : CatalogStore Nat :=
  (play (storeExec sampleTextDigest sampleSerde 50) .empty calls).1

def fromA : NeighborCall where
  start := (1, "a")
  maxHops := 2
  direction := "outbound"
  relationTypes := none
  maxResults := 500

def byCodePoint (a b : Text) : Bool := decide (a ≤ b)

theorem traversal_stays_inside_bridge :
    ∃ visits hits, (storeAfter bridgeCalls).traversalVisits writerTxn byCodePoint (1, "a")
        ⟨.outbound, 2, 500, none⟩ = .ok visits ∧
      (storeAfter bridgeCalls).relationshipNeighbors writerTxn byCodePoint 5 fromA = .ok hits ∧
      (∀ hit ∈ hits, ∀ v ∈ hit.path, (storeAfter bridgeCalls).isLive v = true) ∧
      ∀ visit ∈ visits, ∀ v ∈ visit.2.nodes, (storeAfter bridgeCalls).isLive v = true := by
  have hnone : ∀ v, ¬ (storeAfter bridgeCalls).Vanished writerTxn v := by
    rintro v ⟨b, row, hshown, -, htarget, -, -, hgone⟩
    have htargets : ∀ shown ∈ (storeAfter bridgeCalls).currentRelationships writerTxn,
        shown.2.targetBundleId = some 2 := by decide +kernel
    have hexists : ∀ concept, (storeAfter bridgeCalls).concepts 2 concept = true := fun concept => rfl
    have htwo : v.1 = 2 := Option.some.inj (htarget.symm.trans (htargets _ hshown))
    rw [htwo, hexists] at hgone
    cases hgone
  obtain ⟨visits, hits, hvisits, hhits, hinside⟩ :=
    traversal_stays_inside
      (play_run (storeExec sampleTextDigest sampleSerde 50) .empty bridgeCalls) writerTxn
      byCodePoint 5 fromA ⟨.outbound, 2, 500, none⟩ rfl rfl
  exact ⟨visits, hits, hvisits, hhits, hinside.mpr fun _ v _ => hnone v⟩

/-- The bundle of `x` is synced without it: the walk from `a` still passes `x` and reports it on the
path. -/
theorem vanished_concept_on_path :
    (storeAfter bridgeLost).relationshipNeighbors writerTxn byCodePoint 5 fromA =
        .ok [⟨(1, "a"), (1, "b"), 2, [1, 2, 1], ["a", "x", "b"], "n:t"⟩] ∧
      (storeAfter bridgeLost).isLive (2, "x") = false := by
  decide +kernel

end Pgokf.Catalog
