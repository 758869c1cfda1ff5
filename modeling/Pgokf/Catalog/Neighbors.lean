import Pgokf.Catalog.Bundles
import Pgokf.Lib.BreadthFirst

/-! # The two breadth-first traversals (`neighbors.rs`, `relationships.rs`)

One walks the authored links of a bundle, the other typed relationships. A broken `expect` is an
error. -/

namespace Pgokf.Catalog

open Lib

/- A node of the graph over bundles: a concept id is unique within its bundle only. -/
abbrev ConceptKey := BundleId × Text

structure VisitRecord where
  hops : Int
  path : List Text
  deriving DecidableEq

def lostNeighbor : CatalogError := .internal "a discovered neighbor is always recorded in visited"

/- `hop` stays below `pgokf.max_graph_hops`, which is at most 1000. -/
def linkSearch (seed : Text) (edgesFrom : List Text → Except CatalogError (List (Text × Text))) :
    SearchSpec Text (Text × Text) VisitRecord CatalogError where
  source := Prod.fst
  target := Prod.snd
  edgesFrom
  extend record edge hop := .ok { hops := hop, path := record.elim [seed] (·.path) ++ [edge.2] }
  limit := none
  lost := lostNeighbor

def breadthFirstNeighbors (seed : Text) (maxHops : Int)
    (edgesFrom : List Text → Except CatalogError (List (Text × Text))) :
    Except CatalogError (List (Text × VisitRecord)) :=
  (linkSearch seed edgesFrom).run seed { hops := 0, path := [seed] } maxHops

structure TypedVisit where
  hops : Int
  pathBundleIds : List BundleId
  pathConceptIds : List Text
  relationType : Text
  deriving DecidableEq

structure TypedEdge where
  source : ConceptKey
  target : ConceptKey
  relationType : Text
  deriving DecidableEq

def extendVisit (record : Option TypedVisit) (edge : TypedEdge) (hop : Int) :
    Except CatalogError TypedVisit := do
  let source ← orRefuse record
    (.internal "an edge's source is always a visited frontier member")
  pure
    { hops := hop
      pathBundleIds := source.pathBundleIds ++ [edge.target.1]
      pathConceptIds := source.pathConceptIds ++ [edge.target.2]
      relationType := edge.relationType }

def typedSearch (maxResults : Nat) (edgesFrom : List ConceptKey → Except CatalogError (List TypedEdge)) :
    SearchSpec ConceptKey TypedEdge TypedVisit CatalogError where
  source := TypedEdge.source
  target := TypedEdge.target
  edgesFrom
  extend := extendVisit
  limit := some maxResults
  lost := lostNeighbor

def typedBreadthFirst (seed : ConceptKey) (maxHops : Int) (maxResults : Nat)
    (edgesFrom : List ConceptKey → Except CatalogError (List TypedEdge)) :
    Except CatalogError (List (ConceptKey × TypedVisit)) :=
  (typedSearch maxResults edgesFrom).run seed
    { hops := 0, pathBundleIds := [seed.1], pathConceptIds := [seed.2], relationType := [] } maxHops

abbrev linkGraph (edges : List (Text × Text)) : Lib.Graph Text (Text × Text) :=
    ⟨Prod.fst, Prod.snd, edges⟩

abbrev typedGraph (edges : List TypedEdge) : Lib.Graph ConceptKey TypedEdge :=
  ⟨TypedEdge.source, TypedEdge.target, edges⟩

def VisitRecord.over (seed : Text) (es : List (Text × Text)) : VisitRecord :=
  { hops := es.length, path := seed :: es.map Prod.snd }

def TypedVisit.over (seed : ConceptKey) (es : List TypedEdge) : TypedVisit :=
  { hops := es.length
    pathBundleIds := seed.1 :: es.map (·.target.1)
    pathConceptIds := seed.2 :: es.map (·.target.2)
    relationType := es.getLast?.elim [] (·.relationType) }

theorem linkSearch_follows {edges : List (Text × Text)} {edgesOf : List Text → List (Text × Text)}
    (h : (linkGraph edges).Lists edgesOf) (seed : Text) :
    (linkSearch seed fun frontier => .ok (edgesOf frontier)).Follows (linkGraph edges) edgesOf
      (VisitRecord.over seed) where
  source := rfl
  target := rfl
  lists := h
  edgesFrom _ := rfl
  extend es e := by simp [linkSearch, VisitRecord.over]

theorem typedSearch_follows {edges : List TypedEdge} {edgesOf : List ConceptKey → List TypedEdge}
    (h : (typedGraph edges).Lists edgesOf) (seed : ConceptKey) (maxResults : Nat) :
    (typedSearch maxResults fun frontier => .ok (edgesOf frontier)).Follows (typedGraph edges) edgesOf
      (TypedVisit.over seed) where
  source := rfl
  target := rfl
  lists := h
  edgesFrom _ := rfl
  extend es e := by
    rw [typedSearch]
    exact bind_eq_ok.mpr ⟨_, rfl, by simp [TypedVisit.over, pure, Except.pure]⟩

/-- Both traversals answer the nodes other than the seed within the hops, once each and over a
shortest path. The typed one stops at `max_results`, with every node nearer than one it answers. -/
theorem traversals_are_breadth_first :
    (∀ (edges : List (Text × Text)) (edgesOf : List Text → List (Text × Text)) (seed : Text)
        (maxHops : Int),
      (linkGraph edges).Lists edgesOf →
      ∃ hits, breadthFirstNeighbors seed maxHops (fun frontier => .ok (edgesOf frontier)) = .ok hits ∧
        (hits.map Prod.fst).Nodup ∧
        (∀ v, v ∈ hits.map Prod.fst ↔ (linkGraph edges).Within seed maxHops v) ∧
        ∀ v r, (v, r) ∈ hits → ∃ es, (linkGraph edges).Trail seed es v ∧
          (linkGraph edges).Distance seed v es.length ∧ r = .over seed es) ∧
    ∀ (edges : List TypedEdge) (edgesOf : List ConceptKey → List TypedEdge) (seed : ConceptKey)
      (maxHops : Int) (maxResults : Nat), (typedGraph edges).Lists edgesOf →
      ∃ hits, typedBreadthFirst seed maxHops maxResults (fun frontier => .ok (edgesOf frontier)) =
        .ok hits ∧
        (hits.map Prod.fst).Nodup ∧ hits.length ≤ maxResults ∧
        (∀ v ∈ hits.map Prod.fst, (typedGraph edges).Within seed maxHops v) ∧
        (∀ v r, (v, r) ∈ hits → ∃ es, (typedGraph edges).Trail seed es v ∧
          (typedGraph edges).Distance seed v es.length ∧ r = .over seed es) ∧
        (hits.length < maxResults → ∀ v, (typedGraph edges).Within seed maxHops v →
          v ∈ hits.map Prod.fst) ∧
        ∀ u ∈ hits.map Prod.fst, ∀ v m n, (typedGraph edges).Within seed maxHops v →
          (typedGraph edges).Distance seed u n → (typedGraph edges).Distance seed v m → m < n →
          v ∈ hits.map Prod.fst := by
  constructor
  · intro edges edgesOf seed maxHops hG
    obtain ⟨hits, hrun, hnodes, hrecords⟩ :=
      SearchSpec.run_spec (linkSearch_follows hG seed) seed maxHops
    refine ⟨hits, hrun, ?_, ?_, hrecords⟩
    · rw [hnodes]
      exact searchOrder_nodup.1
    · intro v
      rw [hnodes]
      exact mem_searchOrder_iff_within hG
  · intro edges edgesOf seed maxHops maxResults hG
    obtain ⟨hits, hrun, hnodes, hrecords⟩ :=
      SearchSpec.run_spec (typedSearch_follows hG seed maxResults) seed maxHops
    have htake : hits.map Prod.fst =
      (searchOrder TypedEdge.target edgesOf seed maxHops.toNat).take maxResults := hnodes
    have hlength : hits.length =
      ((searchOrder TypedEdge.target edgesOf seed maxHops.toNat).take maxResults).length := by
      rw [← htake, List.length_map]
    refine ⟨hits, hrun, ?_, ?_, ?_, hrecords, ?_, ?_⟩
    · rw [hnodes]
      exact searchOrder_nodup.1.sublist atMost_sublist
    · rw [hlength]
      exact List.length_take_le _ _
    · intro v hv
      rw [hnodes] at hv
      exact (mem_searchOrder_iff_within hG).mp (atMost_sublist.subset hv)
    · intro hfew v hv
      rw [hlength, List.length_take] at hfew
      rw [htake, List.take_of_length_le (by omega)]
      exact (mem_searchOrder_iff_within hG).mpr hv
    · intro u hu v m n hv hn hm hlt
      rw [hnodes] at hu ⊢
      exact mem_atMost_of_nearer hG hu hn ((mem_searchOrder_iff_within hG).mpr hv) hm hlt

def triangle : List (Text × Text) := [(['a'], ['b']), (['b'], ['c']), (['c'], ['a'])]

def leaving {ν ε : Type} [DecidableEq ν] (G : Lib.Graph ν ε) (frontier : List ν) : List ε :=
  G.edges.filter fun e => decide (G.source e ∈ frontier)

theorem leaving_lists {ν ε : Type} [DecidableEq ν] (G : Lib.Graph ν ε) : G.Lists (leaving G) := by
  intro frontier e
  simp [leaving]

def typedTriangle : List TypedEdge := triangle.map fun e => ⟨(1, e.1), (1, e.2), ['t']⟩

example : breadthFirstNeighbors ['a'] 5 (fun frontier => .ok (leaving (linkGraph triangle) frontier)) =
    .ok [(['b'], ⟨1, [['a'], ['b']]⟩), (['c'], ⟨2, [['a'], ['b'], ['c']]⟩)] := by
  decide

theorem traversals_are_breadth_first_triangle :
    (∃ hits, breadthFirstNeighbors ['a'] 5
        (fun frontier => .ok (leaving (linkGraph triangle) frontier)) = .ok hits ∧
      (hits.map Prod.fst).Nodup) ∧
    ∃ hits, typedBreadthFirst (1, ['a']) 5 1
        (fun frontier => .ok (leaving (typedGraph typedTriangle) frontier)) = .ok hits ∧
      hits.length ≤ 1 := by
  obtain ⟨hlinks, htyped⟩ := traversals_are_breadth_first
  obtain ⟨hits, hrun, hnodup, -⟩ := hlinks triangle _ ['a'] 5 (leaving_lists (linkGraph triangle))
  obtain ⟨typedHits, htypedRun, -, hlen, -⟩ :=
    htyped typedTriangle _ (1, ['a']) 5 1 (leaving_lists (typedGraph typedTriangle))
  exact ⟨⟨hits, hrun, hnodup⟩, typedHits, htypedRun, hlen⟩

end Pgokf.Catalog
