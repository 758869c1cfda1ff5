import Mathlib.Data.Char
import Mathlib.Data.List.Lex
import Pgokf.Lib.Keyset
import Pgokf.Catalog.EffectiveFreshness
import Pgokf.Catalog.Traversal

/-! # Ranked search and its paging (`search.rs`, `search_backend.rs`)

Matches, ranks and headlines are a parameter, and so are the order of ranks and the collation. -/

namespace Pgokf.Catalog

open Lib

/- A row of `pgokf.concepts` with the columns that the search reads, and its provenance where it has
one. -/
structure IndexedConcept where
  bundleId : BundleId
  id : Text
  path : Text
  title : Option Text
  type : Option Text
  tags : Option (List Text)
  status : Option Text
  trustTier : Option Text

structure ConceptIndex where
  rows : List IndexedConcept
  distinct : (rows.map fun row => (row.bundleId, row.id)).Nodup
  bigint : ∀ row ∈ rows, Json.IsI64 row.bundleId

structure EmbeddingRow where
  model : Option Text
  dim : Int
  inputHash : Option Text
  updatedAt : Instant

structure SearchEngine (R C : Type) where
  matched : Text → Text → IndexedConcept → Bool
  rank : Text → Text → IndexedConcept → R
  headline : Text → Text → IndexedConcept → Option Text
  collation : Text → C
  embedding : BundleId → Text → Option EmbeddingRow
  contractMatch : BundleId → Text → EmbeddingRow → Bool

structure Cursor (R : Type) where
  rank : R
  bundleId : BundleId
  conceptId : Text

structure SearchRequest (R : Type) where
  query : Text
  bundleId : Option BundleId
  limit : Int
  textSearchConfig : Text
  conceptType : Option Text
  conceptTypes : Option (List Text)
  tags : Option (List Text)
  status : Option Text
  trustTier : Option Text
  after : Option (Cursor R)

structure SearchHit (R : Type) where
  bundleId : BundleId
  conceptId : Text
  path : Text
  title : Option Text
  conceptType : Option Text
  rank : R
  headline : Option Text

/-- `$n IS NULL OR …`. -/
def noFilterOr {α : Type} (filter : Option α) (p : α → Bool) : Bool := filter.all p

variable {R C : Type}

section Hits

variable (engine : SearchEngine R C) (c : State) (txn : Txn) (index : ConceptIndex)
  (request : SearchRequest R)

def SearchRequest.selects (row : IndexedConcept) : Bool :=
  engine.matched request.textSearchConfig request.query row &&
    noFilterOr request.bundleId (row.bundleId == ·) &&
    noFilterOr request.conceptType (row.type == some ·) &&
    noFilterOr request.tags (fun tags => row.tags.any fun has => tags.all has.contains) &&
    noFilterOr request.status (row.status == some ·) &&
    noFilterOr request.trustTier (row.trustTier == some ·) &&
    noFilterOr request.conceptTypes (fun types => row.type.any types.contains)

def SearchRequest.hit (row : IndexedConcept) : SearchHit R where
  bundleId := row.bundleId
  conceptId := row.id
  path := row.path
  title := row.title
  conceptType := row.type
  rank := engine.rank request.textSearchConfig request.query row
  headline := engine.headline request.textSearchConfig request.query row

/-- `NATIVE_HITS_QUERY`: the rows of active bundles that match and pass the filters. -/
def nativeHits : List (SearchHit R) :=
  ((index.rows.filter fun row => visibleActive txn c.bundles.rows row.bundleId).filter
    (request.selects engine)).map (request.hit engine)

end Hits

section Page

variable [LinearOrder R] [LinearOrder C] (collation : Text → C)

/-- `KEYSET_PREDICATE`. -/
def keysetPredicate (after : Option (Cursor R)) (hit : SearchHit R) : Bool :=
  match after with
  | none => true
  | some cursor => decide (hit.rank < cursor.rank) ||
      (decide (hit.rank = cursor.rank) && decide (cursor.bundleId < hit.bundleId)) ||
      (decide (hit.rank = cursor.rank) && decide (hit.bundleId = cursor.bundleId) &&
        decide (collation cursor.conceptId < collation hit.conceptId))

/-- `ORDER BY hits.rank DESC, hits.bundle_id ASC, hits.concept_id ASC`. -/
def OrderedBefore (a b : SearchHit R) : Prop :=
  b.rank < a.rank ∨ a.rank = b.rank ∧ (a.bundleId < b.bundleId ∨
    a.bundleId = b.bundleId ∧ collation a.conceptId ≤ collation b.conceptId)

instance : DecidableRel (OrderedBefore (R := R) collation) := fun _ _ =>
    inferInstanceAs (Decidable (_ ∨ _))

/-- `KEYSET_ORDER_LIMIT`. -/
def keysetOrderLimit (after : Option (Cursor R)) (limit : Int) (hits : List (SearchHit R)) :
    List (SearchHit R) :=
  ((hits.filter (keysetPredicate collation after)).insertionSort (OrderedBefore collation)).take
    limit.toNat

variable (engine : SearchEngine R C) (c : State) (txn : Txn) (index : ConceptIndex)
  (request : SearchRequest R)

/-- `NativeBackend::search`. -/
def nativeSearch : List (SearchHit R) :=
  keysetOrderLimit engine.collation request.after request.limit (nativeHits engine c txn index request)

end Page

inductive EmbeddingState where
  | missing
  | current
  | stale
  deriving DecidableEq

structure FreshSearchHit (R : Type) where
  hit : SearchHit R
  freshnessState : FreshnessState
  freshnessReasons : List Text
  freshnessScope : Text
  staleSince : Option Instant
  observedRevision : Option Text
  indexedRevision : Option Text
  publishedRevision : Option Text
  catalogGeneration : Int
  lastReconciledAt : Option Instant
  embeddingState : EmbeddingState
  embedding : Option EmbeddingRow

section Fresh

variable (engine : SearchEngine R C) (c : State) (txn : Txn)

def hitState (hit : SearchHit R) : FreshnessState :=
    c.effectiveState txn hit.bundleId hit.conceptId hit.path

/-- `COALESCE` over the override of the concept, the one of the path and the row of the bundle,
column by column. -/
def coalesced {α : Type} (hit : SearchHit R) (column : EffectiveRow → Option α) : Option α :=
  ((c.scopeFreshness txn hit.bundleId .concept hit.conceptId).bind column).or
    (((c.scopeFreshness txn hit.bundleId .path hit.path).bind column).or
      ((c.bundleFreshness txn hit.bundleId).bind column))

def freshnessScope (hit : SearchHit R) : Text :=
  if (c.scopeFreshness txn hit.bundleId .concept hit.conceptId).isSome then "concept:" ++ hit.conceptId
  else if (c.scopeFreshness txn hit.bundleId .path hit.path).isSome then "path:" ++ hit.path
  else "bundle"

def embeddingState (hit : SearchHit R) : EmbeddingState :=
  match engine.embedding hit.bundleId hit.conceptId with
  | none => .missing
  | some row =>
    if hitState c txn hit = .fresh ∧
      engine.contractMatch hit.bundleId hit.conceptId row = true then .current
    else .stale

def annotate (hit : SearchHit R) : FreshSearchHit R where
  hit := hit
  freshnessState := hitState c txn hit
  freshnessReasons := (coalesced c txn hit fun row => some row.reasons).getD []
  freshnessScope := freshnessScope c txn hit
  staleSince := coalesced c txn hit (·.staleSince)
  observedRevision := coalesced c txn hit (·.observedRevision)
  indexedRevision := coalesced c txn hit (·.indexedRevision)
  publishedRevision := coalesced c txn hit (·.publishedRevision)
  -- The bundle of a hit is an active one.
  catalogGeneration := (c.viewedBundle txn hit.bundleId).elim 0 (·.catalogGeneration)
  lastReconciledAt := coalesced c txn hit (·.lastReconciledAt)
  embeddingState := embeddingState engine c txn hit
  embedding := engine.embedding hit.bundleId hit.conceptId

variable (index : ConceptIndex) (request : SearchRequest R) (freshness : Option Text)

/-- The hits of the states asked for; `none` asks for any. -/
def freshHits : List (SearchHit R) :=
  (nativeHits engine c txn index request).filter fun hit =>
    noFilterOr freshness ((hitState c txn hit).text == ·)

variable [LinearOrder R] [LinearOrder C]

/-- `fresh_search_statement`: filtered and limited inside, annotated and ordered again outside. -/
def freshSearch : List (FreshSearchHit R) :=
  ((keysetOrderLimit engine.collation request.after request.limit
    (freshHits engine c txn index request freshness)).map (annotate engine c txn)).insertionSort
      fun a b => OrderedBefore engine.collation a.hit b.hit

end Fresh

section ParseCursor

variable {F : Type}

def cursorError : CatalogError :=
  .invalidParameter ("after_cursor must be a JSON object with numeric 'rank', integer 'bundle_id', " ++
    "and string 'concept_id' (copy them from the last row of the previous page)")

def parseCursor (ofInt : Int → F) (narrow : F → R) (afterCursor : Option (Json F)) :
    Except CatalogError (Option (Cursor R)) :=
  match afterCursor with
  | none => .ok none
  | some value => do
    let object ← orRefuse value.asObject cursorError
    let rank ← orRefuse ((object.lookup "rank".toList).bind (Json.asF64 ofInt)) cursorError
    let bundleId ← orRefuse ((object.lookup "bundle_id".toList).bind Json.asI64) cursorError
    let conceptId ← orRefuse ((object.lookup "concept_id".toList).bind Json.asStr) cursorError
    pure (some ⟨narrow rank, bundleId, conceptId⟩)

def cursorJson (rankJson : R → JsonNumber F) (hit : SearchHit R) : Json F :=
  .object [("rank", .number (rankJson hit.rank)), ("bundle_id", .number (.int hit.bundleId)),
    ("concept_id", .string hit.conceptId)]

variable {ofInt : Int → F} {narrow : F → R} {rankJson : R → JsonNumber F}

theorem parseCursor_cursorJson
    (hrank : ∀ r, ((Json.number (rankJson r)).asF64 ofInt).map narrow = some r)
    {hit : SearchHit R} (hbigint : Json.IsI64 hit.bundleId) :
    parseCursor ofInt narrow (some (cursorJson rankJson hit)) =
      .ok (some ⟨hit.rank, hit.bundleId, hit.conceptId⟩) := by
  obtain ⟨x, hx, hnarrow⟩ := Option.map_eq_some_iff.mp (hrank hit.rank)
  have hnumber : (Json.number (.int hit.bundleId) : Json F).asI64 = some hit.bundleId :=
    Json.asI64_of_isI64 hbigint
  simp only [parseCursor, bind_eq_ok, orRefuse_eq_ok, pure_eq_ok]
  exact ⟨_, rfl, x, hx, hit.bundleId, hnumber, hit.conceptId, rfl, by rw [hnarrow]⟩

end ParseCursor

/-! ### Paging -/

section Places

def placeOf (collation : Text → C) (rank : R) (bundleId : BundleId) (conceptId : Text) :
    Rᵒᵈ ×ₗ (Int ×ₗ C) :=
  toLex (OrderDual.toDual rank, toLex (bundleId, collation conceptId))

def SearchHit.place (collation : Text → C) (hit : SearchHit R) : Rᵒᵈ ×ₗ (Int ×ₗ C) :=
  placeOf collation hit.rank hit.bundleId hit.conceptId

def Cursor.place (collation : Text → C) (cursor : Cursor R) : Rᵒᵈ ×ₗ (Int ×ₗ C) :=
  placeOf collation cursor.rank cursor.bundleId cursor.conceptId

variable {engine : SearchEngine R C} {c : State} {txn : Txn} {index : ConceptIndex}
  {request : SearchRequest R}

theorem nativeHits_distinct (c : State) (txn : Txn) (index : ConceptIndex) (request : SearchRequest R)
    (hcollation : Function.Injective engine.collation) :
    ((nativeHits engine c txn index request).map (SearchHit.place engine.collation)).Nodup := by
  have hrows : index.rows.Pairwise fun a b =>
      (request.hit engine a).place engine.collation ≠ (request.hit engine b).place engine.collation := by
    refine (List.pairwise_map.mp index.distinct).imp fun hne heq => hne ?_
    simp only [SearchHit.place, placeOf, SearchRequest.hit, toLex_inj, Prod.mk.injEq] at heq
    exact Prod.ext heq.2.1 (hcollation heq.2.2)
  rw [nativeHits, List.map_map]
  exact List.pairwise_map.mpr (hrows.sublist (List.filter_sublist.trans List.filter_sublist))

theorem nativeHits_bigint {hit : SearchHit R} (hhit : hit ∈ nativeHits engine c txn index request) :
    Json.IsI64 hit.bundleId := by
  obtain ⟨row, hrow, rfl⟩ := List.mem_map.mp hhit
  exact index.bigint row (List.mem_filter.mp (List.mem_filter.mp hrow).1).1

end Places

section Paging

variable [LinearOrder R] [LinearOrder C] {F : Type}

def StrictlyBefore (collation : Text → C) (a b : SearchHit R) : Prop :=
  b.rank < a.rank ∨ a.rank = b.rank ∧ (a.bundleId < b.bundleId ∨
    a.bundleId = b.bundleId ∧ collation a.conceptId < collation b.conceptId)

variable {collation : Text → C} {a b : SearchHit R}

theorem orderedBefore_iff : OrderedBefore collation a b ↔ a.place collation ≤ b.place collation := by
  simp [OrderedBefore, SearchHit.place, placeOf, Prod.Lex.toLex_le_toLex]

theorem strictlyBefore_iff : StrictlyBefore collation a b ↔ a.place collation < b.place collation := by
  simp [StrictlyBefore, SearchHit.place, placeOf, Prod.Lex.toLex_lt_toLex]

theorem keysetPredicate_eq (after : Option (Cursor R)) (hit : SearchHit R) :
    keysetPredicate collation after hit =
      (after.map (Cursor.place collation)).all fun k => decide (k < hit.place collation) := by
  cases after with
  | none => rfl
  | some cursor =>
    rw [Bool.eq_iff_iff]
    simp only [keysetPredicate, Option.map_some, Option.all_some, Cursor.place, SearchHit.place, placeOf,
      Prod.Lex.toLex_lt_toLex, OrderDual.toDual_lt_toDual, OrderDual.toDual_inj, Bool.or_eq_true,
        Bool.and_eq_true,
      decide_eq_true_eq]
    constructor
    · rintro ((hrank | ⟨hrank, hbundle⟩) | ⟨⟨hrank, hbundle⟩, hconcept⟩)
      · exact .inl hrank
      · exact .inr ⟨hrank.symm, .inl hbundle⟩
      · exact .inr ⟨hrank.symm, .inr ⟨hbundle.symm, hconcept⟩⟩
    · rintro (hrank | ⟨hrank, hbundle | ⟨hbundle, hconcept⟩⟩)
      · exact .inl (.inl hrank)
      · exact .inl (.inr ⟨hrank.symm, hbundle⟩)
      · exact .inr ⟨⟨hrank.symm, hbundle.symm⟩, hconcept⟩

theorem keysetOrderLimit_eq_page (after : Option (Cursor R)) (limit : Int) (hits : List (SearchHit R)) :
    keysetOrderLimit collation after limit hits =
      page (SearchHit.place collation) limit.toNat hits (after.map (Cursor.place collation)) := by
  have hfilter : hits.filter (keysetPredicate collation after) =
      remaining (SearchHit.place collation) hits (after.map (Cursor.place collation)) :=
    List.filter_congr fun hit _ => keysetPredicate_eq after hit
  have hsort : ∀ l : List (SearchHit R), l.insertionSort (OrderedBefore collation) =
      ordered (SearchHit.place collation) l := insertionSort_congr fun _ _ => orderedBefore_iff
  rw [keysetOrderLimit, hfilter, hsort]
  rfl

variable (engine : SearchEngine R C) (c : State) (txn : Txn) (index : ConceptIndex)
  (request : SearchRequest R)
  (freshness : Option Text) (ofInt : Int → F) (narrow : F → R) (rankJson : R → JsonNumber F)

def nativePage (afterCursor : Option (Json F)) : Except CatalogError (List (SearchHit R)) := do
  let after ← parseCursor ofInt narrow afterCursor
  pure (nativeSearch engine c txn index { request with after })

def freshPage (afterCursor : Option (Json F)) : Except CatalogError (List (FreshSearchHit R)) := do
  let after ← parseCursor ofInt narrow afterCursor
  pure (freshSearch engine c txn index { request with after } freshness)

variable {engine c txn index request freshness ofInt narrow rankJson}

variable {cursor : Option (Json F)} {after : Option (Cursor R)}

theorem nativePage_eq (h : parseCursor ofInt narrow cursor = .ok after) :
    nativePage engine c txn index request ofInt narrow cursor =
      .ok (page (SearchHit.place engine.collation)
        request.limit.toNat (nativeHits engine c txn index request)
        (after.map (Cursor.place engine.collation))) := by
  rw [nativePage, h, ← keysetOrderLimit_eq_page]
  rfl

theorem freshPage_eq (h : parseCursor ofInt narrow cursor = .ok after) :
    freshPage engine c txn index request freshness ofInt narrow cursor =
      .ok (page (fun row => row.hit.place engine.collation) request.limit.toNat
        ((freshHits engine c txn index request freshness).map (annotate engine c txn))
        (after.map (Cursor.place engine.collation))) := by
  have hmap : page (fun row => row.hit.place engine.collation) request.limit.toNat
      ((freshHits engine c txn index request freshness).map (annotate engine c txn))
      (after.map (Cursor.place engine.collation)) =
        (page (SearchHit.place engine.collation)
          request.limit.toNat (freshHits engine c txn index request freshness)
          (after.map (Cursor.place engine.collation))).map (annotate engine c txn) :=
    page_map (annotate engine c txn) (fun _ => rfl) _ _
  have hsorted : ((page (SearchHit.place engine.collation) request.limit.toNat
      (freshHits engine c txn index request freshness) (after.map (Cursor.place engine.collation))).map
        (annotate engine c txn)).Pairwise fun a b => OrderedBefore engine.collation a.hit b.hit :=
    List.pairwise_map.mpr (page_sorted.imp orderedBefore_iff.mpr)
  rw [hmap, ← hsorted.insertionSort_eq, ← keysetOrderLimit_eq_page, freshPage, h]
  rfl

/-- Asking for the next page after the last row until a page is empty gives every hit once and in
order. -/
theorem search_pages_tile (engine : SearchEngine R C) (c : State) (txn : Txn) (index : ConceptIndex)
    (request : SearchRequest R) (freshness : Option Text) (ofInt : Int → F) (narrow : F → R)
    (rankJson : R → JsonNumber F)
    (hrank : ∀ r, ((Json.number (rankJson r)).asF64 ofInt).map narrow = some r)
    (hcollation : Function.Injective engine.collation) (hlimit : 1 ≤ request.limit) :
    (∀ fuel, (nativeHits engine c txn index request).length < fuel →
      ∃ rows, scroll (nativePage engine c txn index request ofInt narrow)
          (fun hit => some (cursorJson rankJson hit)) fuel none = .ok (some rows) ∧
        rows.Perm (nativeHits engine c txn index request) ∧
          rows.Pairwise (StrictlyBefore engine.collation)) ∧
    ∀ fuel, (freshHits engine c txn index request freshness).length < fuel →
      ∃ rows, scroll (freshPage engine c txn index request freshness ofInt narrow)
          (fun row => some (cursorJson rankJson row.hit)) fuel none = .ok (some rows) ∧
        (rows.map (·.hit)).Perm (freshHits engine c txn index request freshness) ∧
        (rows.map (·.hit)).Pairwise (StrictlyBefore engine.collation) := by
  have hdistinct := nativeHits_distinct c txn index request hcollation
  have hpage : 1 ≤ request.limit.toNat := by omega
  have hstart : parseCursor ofInt narrow none = .ok none := rfl
  constructor
  · intro fuel hfuel
    have hscroll : scroll (nativePage engine c txn index request ofInt narrow)
        (fun hit => some (cursorJson rankJson hit)) fuel none =
          .ok (some (ordered (SearchHit.place engine.collation)
            (remaining (SearchHit.place engine.collation)
              (nativeHits engine c txn index request) none))) := by
      refine scroll_eq_ordered hdistinct hpage (fun hit hhit => ?_) (nativePage_eq hstart) ?_
      · exact nativePage_eq (parseCursor_cursorJson hrank (nativeHits_bigint hhit))
      · rwa [remaining_none]
    rw [remaining_none] at hscroll
    refine ⟨_, hscroll, ordered_perm, (ordered_strict hdistinct).imp strictlyBefore_iff.mpr⟩
  · intro fuel hfuel
    have hfresh : (((freshHits engine c txn index request freshness).map (annotate engine c txn)).map
        fun row => row.hit.place engine.collation).Nodup := by
      rw [List.map_map]
      exact hdistinct.sublist (List.filter_sublist.map _)
    have hscroll : scroll (freshPage engine c txn index request freshness ofInt narrow)
        (fun row => some (cursorJson rankJson row.hit)) fuel none =
          .ok (some (ordered (fun row => row.hit.place engine.collation)
            (remaining (fun row => row.hit.place engine.collation)
              ((freshHits engine c txn index request freshness).map (annotate engine c txn))
                none))) := by
      refine scroll_eq_ordered hfresh hpage (fun row hrow => ?_) (freshPage_eq hstart) ?_
      · obtain ⟨hit, hhit, rfl⟩ := List.mem_map.mp hrow
        exact freshPage_eq (parseCursor_cursorJson hrank (nativeHits_bigint (List.mem_filter.mp hhit).1))
      · rwa [remaining_none, List.length_map]
    rw [remaining_none] at hscroll
    refine ⟨_, hscroll, ?_, ?_⟩
    · have hhits : ((freshHits engine c txn index request freshness).map
        (annotate engine c txn)).map (·.hit) =
          freshHits engine c txn index request freshness := by
        rw [List.map_map]
        exact List.map_id _
      exact (ordered_perm.map FreshSearchHit.hit).trans (.of_eq hhits)
    · exact List.pairwise_map.mpr ((ordered_strict hfresh).imp strictlyBefore_iff.mpr)

end Paging

def sampleEngine : SearchEngine Nat Text where
  matched _ _ _ := true
  rank _ _ _ := 7
  headline _ _ _ := none
  collation := id
  embedding _ _ := none
  contractMatch _ _ _ := false

def indexedConcept (id : String) : IndexedConcept where
  bundleId := 1
  id := id.toList
  path := id.toList ++ ".md"
  title := none
  type := none
  tags := none
  status := none
  trustTier := none

def sampleIndex : ConceptIndex where
  rows := [indexedConcept "b", indexedConcept "c", indexedConcept "a"]
  distinct := by decide
  bigint := by decide

def sampleRequest : SearchRequest Nat where
  query := "x"
  bundleId := none
  limit := 1
  textSearchConfig := "english"
  conceptType := none
  conceptTypes := none
  tags := none
  status := none
  trustTier := none
  after := none

def sampleCatalog : State :=
  (storeAfter [.registers 0]).catalog

theorem search_pages_tile_ties :
    (nativeHits sampleEngine sampleCatalog writerTxn sampleIndex sampleRequest).length = 3 ∧
      (∃ rows, scroll (nativePage sampleEngine sampleCatalog writerTxn sampleIndex sampleRequest
        Int.toNat id)
          (fun hit => some (cursorJson .float hit)) 4 none = .ok (some rows) ∧
        rows.Perm (nativeHits sampleEngine sampleCatalog writerTxn sampleIndex sampleRequest) ∧
        rows.Pairwise (StrictlyBefore sampleEngine.collation)) ∧
      ∃ rows, scroll (freshPage sampleEngine sampleCatalog writerTxn sampleIndex sampleRequest
          (some "fresh") Int.toNat id) (fun row => some (cursorJson .float row.hit)) 4 none = .ok
            (some rows) ∧
        (rows.map (·.hit)).Perm
          (freshHits sampleEngine sampleCatalog writerTxn sampleIndex sampleRequest (some "fresh")) ∧
        (rows.map (·.hit)).Pairwise (StrictlyBefore sampleEngine.collation) := by
  have hnative : (nativeHits sampleEngine sampleCatalog writerTxn sampleIndex sampleRequest).length
    = 3 := by
    decide +kernel
  have hfresh : (freshHits sampleEngine sampleCatalog writerTxn sampleIndex sampleRequest
      (some "fresh")).length < 4 := by decide +kernel
  have htile := search_pages_tile sampleEngine sampleCatalog writerTxn sampleIndex sampleRequest
    (some "fresh") Int.toNat id .float (fun _ => rfl) Function.injective_id (by decide)
  exact ⟨hnative, htile.1 4 (by rw [hnative]; decide), htile.2 4 hfresh⟩

end Pgokf.Catalog
