import Pgokf.Lib.ThreeValued
import Pgokf.Catalog.Search

/-! # Current embeddings (`embedding.rs`, `search.rs`, `relationships.rs`, the embedder's `db.rs`)

Four statements ask whether an embedding may be used: the semantic query, the fresh search, the
traversal, and the embedder that looks for concepts to embed again. -/

namespace Pgokf.Catalog

open Lib

/- A row of `pgokf.concept_embedding`, without the vector that only the ranking reads. -/
structure StoredEmbedding where
  bundleId : BundleId
  conceptId : Text
  dim : Int
  model : Option Text
  updatedAt : Instant
  sourceFileHash : Option Text
  inputHash : Option Text
  contract : Option Text

structure EmbeddingTable where
  rows : List StoredEmbedding
  distinct : (rows.map fun row => (row.bundleId, row.conceptId)).Nodup

structure EmbeddingPolicy where
  dim : Int
  model : Text
  contract : Text

def EmbeddingTable.get (table : EmbeddingTable) (key : ConceptKey) : Option StoredEmbedding :=
  table.rows.find? fun e => (e.bundleId, e.conceptId) = key

def ConceptIndex.get (index : ConceptIndex) (key : ConceptKey) : Option IndexedConcept :=
  index.rows.find? fun row => (row.bundleId, row.id) = key

def StoredEmbedding.reported (e : StoredEmbedding) : EmbeddingRow where
  model := e.model
  dim := e.dim
  inputHash := e.inputHash
  updatedAt := e.updatedAt

structure NodeAnnotation where
  node : ConceptKey
  title : Option Text
  freshnessState : FreshnessState
  freshnessReasons : List Text
  freshnessScope : Text
  staleSince : Option Instant
  observedRevision : Option Text
  indexedRevision : Option Text
  publishedRevision : Option Text
  catalogGeneration : Int
  lastReconciledAt : Option Instant
  embeddingState : EmbeddingState
  embedding : Option EmbeddingRow

section Statements

variable (policy : EmbeddingPolicy) (table : EmbeddingTable) (index : ConceptIndex)
  -- The column `file_hash` of the concepts, which is never null.
  (fileHash : IndexedConcept → Text) (c : State) (txn : Txn)

/-- `contract_match_sql`, over the columns of an outer join. -/
def contractMatch (e : Option StoredEmbedding) (row : IndexedConcept) : Truth :=
  .conj
    [.isNotNull (e.bind (·.sourceFileHash)),
      .equal (e.bind (·.sourceFileHash)) (some (fileHash row)),
      .isNotNull (e.bind (·.model)),
      .disj [.equal (some policy.model) (some []), .equal (e.bind (·.model)) (some policy.model)],
      .equal (e.map (·.dim)) (some policy.dim),
      .isNotNull (e.bind (·.contract)),
      .disj [.equal (some policy.contract) (some []),
        .equal (e.bind (·.contract)) (some policy.contract)]]

def joinsFresh (row : IndexedConcept) : Bool :=
  (c.bundleFreshness txn row.bundleId).any (·.state = .fresh)

def overridden (row : IndexedConcept) : Bool :=
  (c.scopeFreshness txn row.bundleId .concept row.id).any (·.state ≠ .fresh) ||
    (c.scopeFreshness txn row.bundleId .path row.path).any (·.state ≠ .fresh)

def semanticRows (bundleId : Option BundleId) (types : Option (List Text)) :
    List (StoredEmbedding × IndexedConcept) :=
  table.rows.flatMap fun e =>
    ((index.rows.filter fun row => (row.bundleId, row.id) == (e.bundleId, e.conceptId)).filter fun row =>
      visibleActive txn c.bundles.rows row.bundleId &&
        joinsFresh c txn row &&
        (contractMatch policy fileHash (some e) row).holds &&
        !overridden c txn row &&
        noFilterOr bundleId (row.bundleId == ·) &&
        noFilterOr types (fun types => row.type.any types.contains)).map (e, ·)

def SearchEngine.withEmbeddings {R C : Type} (engine : SearchEngine R C) : SearchEngine R C :=
  { engine with
    embedding := fun b id => (table.get (b, id)).map (·.reported)
    contractMatch := fun b id _ =>
      (index.get (b, id)).any fun row =>
        (Catalog.contractMatch policy fileHash (table.get (b, id)) row).holds }

/-- A column of the freshness of a node: of its concept, then of its path, then of its bundle. -/
def nodeColumn {α : Type} (row : IndexedConcept) (column : EffectiveRow → Option α) : Option α :=
  ((c.scopeFreshness txn row.bundleId .concept row.id).bind column).or
    (((c.scopeFreshness txn row.bundleId .path row.path).bind column).or
      ((c.bundleFreshness txn row.bundleId).bind column))

def nodeScope (row : IndexedConcept) : Text :=
  if (c.scopeFreshness txn row.bundleId .concept row.id).isSome then "concept:" ++ row.id
  else if (c.scopeFreshness txn row.bundleId .path row.path).isSome then "path:" ++ row.path
  else "bundle"

/-- `COALESCE(fc.state, fp.state, fb.state, 'fresh')`. -/
def nodeState (row : IndexedConcept) : FreshnessState :=
  (nodeColumn c txn row fun f => some f.state).getD .fresh

def nodeEmbeddingState (row : IndexedConcept) : EmbeddingState :=
  let e := table.get (row.bundleId, row.id)
  if (Truth.isNull (e.map (·.conceptId))).holds then .missing
  else if (Truth.conj [.equal (some (nodeState c txn row)) (some .fresh),
    contractMatch policy fileHash e row]).holds
    then .current
  else .stale

def annotateNode (row : IndexedConcept) : NodeAnnotation where
  node := (row.bundleId, row.id)
  title := row.title
  freshnessState := nodeState c txn row
  freshnessReasons := (nodeColumn c txn row fun f => some f.reasons).getD []
  freshnessScope := nodeScope c txn row
  staleSince := nodeColumn c txn row (·.staleSince)
  observedRevision := nodeColumn c txn row (·.observedRevision)
  indexedRevision := nodeColumn c txn row (·.indexedRevision)
  publishedRevision := nodeColumn c txn row (·.publishedRevision)
  -- The bundle of a node is an active one.
  catalogGeneration := (c.viewedBundle txn row.bundleId).elim 0 (·.catalogGeneration)
  lastReconciledAt := nodeColumn c txn row (·.lastReconciledAt)
  embeddingState := nodeEmbeddingState policy table fileHash c txn row
  embedding := (table.get (row.bundleId, row.id)).map (·.reported)

def annotateNodes (nodes : List ConceptKey) : List NodeAnnotation :=
  nodes.flatMap fun node =>
    (index.rows.filter fun row =>
      (row.bundleId, row.id) == node && visibleActive txn c.bundles.rows row.bundleId).map
        (annotateNode policy table fileHash c txn)

/-- The condition of `pending_concepts`. -/
def needsEmbedding (e : Option StoredEmbedding) (row : IndexedConcept) : Truth :=
  .disj
    [.isNull (e.map (·.conceptId)),
      .isNull (e.bind (·.sourceFileHash)),
      .isNull (e.bind (·.model)),
      .isNull (e.bind (·.contract)),
      .unequal (e.bind (·.sourceFileHash)) (some (fileHash row)),
      .unequal (e.map (·.dim)) (some policy.dim),
      .conj [.unequal (some policy.model) (some []),
        .distinctFrom (e.bind (·.model)) (some policy.model)],
      .conj [.unequal (some policy.contract) (some []),
        .distinctFrom (e.bind (·.contract)) (some policy.contract)]]

def pendingConcepts (bundleId : Option BundleId) : List IndexedConcept :=
  (index.rows.filter fun row => (c.viewedBundle txn row.bundleId).isSome).filter fun row =>
    (needsEmbedding policy fileHash (table.get (row.bundleId, row.id)) row).holds &&
      noFilterOr bundleId (row.bundleId == ·)

/-- The semantic query ranks the embedding of this concept, unless a filter of the call excludes it. -/
def Eligible (key : ConceptKey) : Prop :=
  ∃ pair ∈ semanticRows policy table index fileHash c txn none none, (pair.2.bundleId, pair.2.id) = key

/-- The stored row of this concept agrees with its file and with the policy. -/
def ContractMet (row : IndexedConcept) : Prop :=
  ∃ e ∈ table.rows, (e.bundleId, e.conceptId) = (row.bundleId, row.id) ∧
    (contractMatch policy fileHash (some e) row).holds = true

end Statements

section Contract

variable {policy : EmbeddingPolicy} {table : EmbeddingTable} {index : ConceptIndex}
  {fileHash : IndexedConcept → Text} {key : ConceptKey} {e : StoredEmbedding} {row : IndexedConcept}

theorem EmbeddingTable.get_eq_some :
    table.get key = some e ↔ e ∈ table.rows ∧ (e.bundleId, e.conceptId) = key :=
  find?_key_eq_some table.distinct

theorem ConceptIndex.get_eq_some : index.get key = some row ↔ row ∈ index.rows ∧
    (row.bundleId, row.id) = key :=
  find?_key_eq_some index.distinct

theorem contractMatch_none : (contractMatch policy fileHash none row).holds = false := by
  simp [contractMatch, Truth.holds_conj]

theorem needsEmbedding_eq_not (e : Option StoredEmbedding) :
    (needsEmbedding policy fileHash e row).holds = !(contractMatch policy fileHash e row).holds := by
  cases e with
  | none =>
    rw [contractMatch_none]
    simp [needsEmbedding, Truth.holds_disj]
  | some e =>
    simp only [needsEmbedding, contractMatch, Truth.holds_disj, Truth.holds_conj, List.any_cons,
      List.all_cons]
    cases hsource : e.sourceFileHash with
    | none => simp [hsource]
    | some source =>
      cases hmodel : e.model with
      | none => simp [hmodel]
      | some model =>
        cases hcontract : e.contract with
        | none => simp [hcontract]
        | some contract => simp [hsource, hmodel, hcontract, Bool.or_left_comm]

theorem contractMet_iff :
    ContractMet policy table fileHash row ↔
      (contractMatch policy fileHash (table.get (row.bundleId, row.id)) row).holds = true := by
  constructor
  · rintro ⟨e, he, hkey, hmatch⟩
    rwa [EmbeddingTable.get_eq_some.mpr ⟨he, hkey⟩]
  · intro hmatch
    cases hget : table.get (row.bundleId, row.id) with
    | none =>
      rw [hget, contractMatch_none] at hmatch
      contradiction
    | some e =>
      obtain ⟨he, hkey⟩ := EmbeddingTable.get_eq_some.mp hget
      exact ⟨e, he, hkey, hget ▸ hmatch⟩

end Contract

section Freshness

variable {c : State} {txn : Txn} {b : BundleId} {row : IndexedConcept}

theorem viewedBundle_of_active (h : visibleActive txn c.bundles.rows b = true) :
    ∃ bundle, c.bundles.rows b = some bundle ∧ c.viewedBundle txn b = some bundle := by
  rw [visibleActive] at h
  split at h
  next bundle hbundle =>
    simp only [Bool.and_eq_true] at h
    exact ⟨bundle, hbundle, by simp [State.viewedBundle, hbundle, h.2]⟩
  next => contradiction

theorem nodeState_eq_effectiveState :
    nodeState c txn row = c.effectiveState txn row.bundleId row.id row.path := by
  rw [nodeState, nodeColumn, State.effectiveState]
  cases c.scopeFreshness txn row.bundleId .concept row.id with
  | some f => rfl
  | none =>
    cases c.scopeFreshness txn row.bundleId .path row.path with
    | some f => rfl
    | none => cases c.bundleFreshness txn row.bundleId <;> rfl

theorem scopeFreshness_state_ne_fresh
    (hscopes : ∀ key f, c.freshness.scopes key = some f → f.state ≠ .fresh)
    {kind : ScopeKind} {key : Text} {f : EffectiveRow} (h : c.scopeFreshness txn b kind key = some f) :
    f.state ≠ .fresh := by
  simp only [State.scopeFreshness, Option.bind_eq_some_iff, Option.map_eq_some_iff] at h
  obtain ⟨bundle, -, stored, hstored, rfl⟩ := h
  exact hscopes _ stored hstored

/-- An override of the concept or the path is not fresh, so that precedence and the join both refuse
it. -/
theorem effectiveState_eq_fresh_iff
    (hscopes : ∀ key f, c.freshness.scopes key = some f → f.state ≠ .fresh)
    (hrows : ∀ b bundle, c.bundles.rows b = some bundle → (c.freshness.rows b).isSome)
    (hactive : visibleActive txn c.bundles.rows row.bundleId = true) :
    c.effectiveState txn row.bundleId row.id row.path = .fresh ↔
      joinsFresh c txn row = true ∧ overridden c txn row = false := by
  obtain ⟨bundle, hbundle, hviewed⟩ := viewedBundle_of_active hactive
  obtain ⟨stored, hstored⟩ := Option.isSome_iff_exists.mp (hrows _ bundle hbundle)
  have hfresh : c.bundleFreshness txn row.bundleId ≠ none := by
    simp [State.bundleFreshness, hviewed, hstored]
  rw [State.effectiveState, joinsFresh, overridden]
  cases hconcept : c.scopeFreshness txn row.bundleId .concept row.id with
  | some f =>
    have hstate := scopeFreshness_state_ne_fresh hscopes hconcept
    simp [hstate]
  | none =>
    cases hpath : c.scopeFreshness txn row.bundleId .path row.path with
    | some f =>
      have hstate := scopeFreshness_state_ne_fresh hscopes hpath
      simp [hstate]
    | none =>
      obtain ⟨f, hf⟩ := Option.ne_none_iff_exists'.mp hfresh
      simp [hf]

end Freshness

section Agreement

variable {R C : Type} {policy : EmbeddingPolicy} {table : EmbeddingTable} {index : ConceptIndex}
  {fileHash : IndexedConcept → Text} {c : State} {txn : Txn} {row : IndexedConcept}
  {engine : SearchEngine R C} {request : SearchRequest R} {freshness : Option Text}

theorem eligible_iff (hrow : row ∈ index.rows)
    (hactive : visibleActive txn c.bundles.rows row.bundleId = true) :
    Eligible policy table index fileHash c txn (row.bundleId, row.id) ↔
      (joinsFresh c txn row = true ∧ overridden c txn row = false) ∧
        ContractMet policy table fileHash row := by
  constructor
  · rintro ⟨⟨e, other⟩, hpair, hkey⟩
    simp only [semanticRows, List.mem_flatMap, List.mem_map, List.mem_filter, Bool.and_eq_true,
      beq_iff_eq,
      Bool.not_eq_true'] at hpair
    obtain ⟨e', he, other', ⟨⟨hother, hjoin⟩, ⟨⟨⟨⟨-, hfresh⟩, hmatch⟩, hover⟩, -⟩, -⟩, hsame⟩ := hpair
    obtain ⟨rfl, rfl⟩ := Prod.mk.inj hsame
    obtain rfl : other' = row := List.inj_on_of_nodup_map index.distinct hother hrow hkey
    exact ⟨⟨hfresh, hover⟩, e', he, hjoin.symm, hmatch⟩
  · rintro ⟨⟨hfresh, hover⟩, e, he, hkey, hmatch⟩
    refine ⟨(e, row), ?_, rfl⟩
    simp only [semanticRows, List.mem_flatMap, List.mem_map, List.mem_filter, Bool.and_eq_true,
      beq_iff_eq,
      Bool.not_eq_true']
    exact ⟨e, he, row, ⟨⟨hrow, hkey.symm⟩, ⟨⟨⟨⟨hactive, hfresh⟩, hmatch⟩, hover⟩, rfl⟩, rfl⟩, rfl⟩

theorem mem_of_mem_keysetOrderLimit [LinearOrder R] [LinearOrder C] {collation : Text → C}
    {after : Option (Cursor R)} {limit : Int} {hits : List (SearchHit R)} {hit : SearchHit R}
    (h : hit ∈ keysetOrderLimit collation after limit hits) : hit ∈ hits := by
  have hsorted := List.mem_of_mem_take h
  rw [List.mem_insertionSort] at hsorted
  exact (List.mem_filter.mp hsorted).1

theorem mem_freshSearch [LinearOrder R] [LinearOrder C] {hit : FreshSearchHit R}
    (h : hit ∈ freshSearch engine c txn index request freshness) :
    ∃ row ∈ index.rows, visibleActive txn c.bundles.rows row.bundleId = true ∧
      hit = annotate engine c txn (request.hit engine row) := by
  rw [freshSearch, List.mem_insertionSort, List.mem_map] at h
  obtain ⟨inner, hinner, rfl⟩ := h
  have hhits : inner ∈ nativeHits engine c txn index request :=
    (List.mem_filter.mp (mem_of_mem_keysetOrderLimit hinner)).1
  simp only [nativeHits, List.mem_map, List.mem_filter] at hhits
  obtain ⟨row, ⟨⟨hrow, hactive⟩, -⟩, rfl⟩ := hhits
  exact ⟨row, hrow, hactive, rfl⟩

theorem embeddingState_withEmbeddings (hrow : row ∈ index.rows) :
    embeddingState (engine.withEmbeddings policy table index fileHash) c txn
        (request.hit (engine.withEmbeddings policy table index fileHash) row) = .current ↔
      c.effectiveState txn row.bundleId row.id row.path = .fresh ∧
        ContractMet policy table fileHash row := by
  have hget : index.get (row.bundleId, row.id) = some row := ConceptIndex.get_eq_some.mpr ⟨hrow, rfl⟩
  rw [contractMet_iff, embeddingState, hitState]
  simp only [SearchEngine.withEmbeddings, SearchRequest.hit, hget, Option.any_some]
  cases htable : table.get (row.bundleId, row.id) with
  | none => simp [contractMatch_none]
  | some e => simp

theorem nodeEmbeddingState_eq_current_iff :
    nodeEmbeddingState policy table fileHash c txn row = .current ↔
      c.effectiveState txn row.bundleId row.id row.path = .fresh ∧
        ContractMet policy table fileHash row := by
  rw [contractMet_iff, nodeEmbeddingState, nodeState_eq_effectiveState]
  cases htable : table.get (row.bundleId, row.id) with
  | none => simp [contractMatch_none]
  | some e => simp [Truth.holds_conj]

theorem mem_annotateNodes {nodes : List ConceptKey} {note : NodeAnnotation} :
    note ∈ annotateNodes policy table index fileHash c txn nodes ↔
      ∃ row ∈ index.rows, (row.bundleId, row.id) ∈ nodes ∧
        visibleActive txn c.bundles.rows row.bundleId = true ∧
        annotateNode policy table fileHash c txn row = note := by
  simp only [annotateNodes, List.mem_flatMap, List.mem_map, List.mem_filter, Bool.and_eq_true,
    beq_iff_eq]
  constructor
  · rintro ⟨node, hnode, row, ⟨hrow, rfl, hactive⟩, hnote⟩
    exact ⟨row, hrow, hnode, hactive, hnote⟩
  · rintro ⟨row, hrow, hnode, hactive, hnote⟩
    exact ⟨_, hnode, row, ⟨hrow, rfl, hactive⟩, hnote⟩

/-- Where the concepts of a store are the rows of the index, a traversal reports the annotated
nodes. -/
theorem annotatedHits_eq {F : Type} {s : CatalogStore F} {start : ConceptKey}
    {visits : List (ConceptKey × TypedVisit)}
    (hindex : ∀ b id, s.concepts b id = index.rows.any fun row => (row.bundleId, row.id) == (b, id)) :
    s.annotatedHits txn start visits =
      (visits.filter fun visit => (annotateNodes policy table index fileHash s.catalog txn
        (visits.map (·.1))).any (·.node == visit.1)).map (.of start) := by
  rw [CatalogStore.annotatedHits]
  refine congrArg (List.map _) (List.filter_congr fun visit hvisit => ?_)
  rw [Bool.eq_iff_iff, CatalogStore.reads, hindex]
  simp only [Bool.and_eq_true, List.any_eq_true, beq_iff_eq]
  constructor
  · rintro ⟨hactive, row, hrow, hkey⟩
    obtain ⟨hbundle, -⟩ := Prod.mk.inj hkey
    refine ⟨_, mem_annotateNodes.mpr ⟨row, hrow, ?_, hbundle ▸ hactive, rfl⟩, hkey⟩
    rw [hkey]
    exact List.mem_map_of_mem hvisit
  · rintro ⟨note, hnote, hnode⟩
    obtain ⟨row, hrow, -, hactive, rfl⟩ := mem_annotateNodes.mp hnote
    rw [← hnode]
    exact ⟨hactive, row, hrow, rfl⟩

/-- With a freshness row for every bundle and no fresh override, the four statements mean one thing. -/
theorem embedding_current_iff_eligible [LinearOrder R] [LinearOrder C] (policy : EmbeddingPolicy)
    (table : EmbeddingTable) (index : ConceptIndex) (fileHash : IndexedConcept → Text) (c : State)
    (txn : Txn) (engine : SearchEngine R C)
    (hrows : ∀ b bundle, c.bundles.rows b = some bundle → (c.freshness.rows b).isSome)
    (hscopes : ∀ key f, c.freshness.scopes key = some f → f.state ≠ .fresh) :
    (∀ request freshness,
      ∀ hit ∈ freshSearch (engine.withEmbeddings policy table index fileHash) c txn index request
          freshness,
        hit.embeddingState = .current ↔
          Eligible policy table index fileHash c txn (hit.hit.bundleId, hit.hit.conceptId)) ∧
      (∀ nodes, (∀ annotation ∈ annotateNodes policy table index fileHash c txn nodes,
          annotation.embeddingState = .current ↔
            Eligible policy table index fileHash c txn annotation.node) ∧
        ∀ row ∈ index.rows, (row.bundleId, row.id) ∈ nodes →
          visibleActive txn c.bundles.rows row.bundleId = true →
            annotateNode policy table fileHash c txn row ∈
              annotateNodes policy table index fileHash c txn nodes) ∧
      ∀ row ∈ index.rows, visibleActive txn c.bundles.rows row.bundleId = true →
        (Eligible policy table index fileHash c txn (row.bundleId, row.id) ↔
          c.effectiveState txn row.bundleId row.id row.path = .fresh ∧
            ContractMet policy table fileHash row) ∧
        ∀ bundleId, bundleId = none ∨ bundleId = some row.bundleId →
          (row ∈ pendingConcepts policy table index fileHash c txn bundleId ↔
            ¬ContractMet policy table fileHash row) := by
  have heligible : ∀ row ∈ index.rows, visibleActive txn c.bundles.rows row.bundleId = true →
      (Eligible policy table index fileHash c txn (row.bundleId, row.id) ↔
        c.effectiveState txn row.bundleId row.id row.path = .fresh ∧
          ContractMet policy table fileHash row) := by
    intro row hrow hactive
    rw [eligible_iff hrow hactive, effectiveState_eq_fresh_iff hscopes hrows hactive]
  refine ⟨?_, ?_, fun row hrow hactive => ⟨heligible row hrow hactive, ?_⟩⟩
  · intro request freshness hit hhit
    obtain ⟨row, hrow, hactive, rfl⟩ := mem_freshSearch hhit
    exact (embeddingState_withEmbeddings hrow).trans (heligible row hrow hactive).symm
  · refine fun nodes => ⟨fun annotation hannotation => ?_, fun row hrow hnode hactive => ?_⟩
    · obtain ⟨row, hrow, -, hactive, rfl⟩ := mem_annotateNodes.mp hannotation
      exact nodeEmbeddingState_eq_current_iff.trans (heligible row hrow hactive).symm
    · exact mem_annotateNodes.mpr ⟨row, hrow, hnode, hactive, rfl⟩
  · intro bundleId hfilter
    obtain ⟨bundle, -, hviewed⟩ := viewedBundle_of_active hactive
    have hselected : noFilterOr bundleId (row.bundleId == ·) = true := by
      obtain rfl | rfl := hfilter <;> simp [noFilterOr]
    rw [contractMet_iff]
    simp [pendingConcepts, hrow, hviewed, hselected, needsEmbedding_eq_not]

end Agreement

def freshRow : FreshnessRow where
  state := .fresh
  reasonCodes := []
  observedSourceGeneration := none
  materializedSourceGeneration := none
  materializedCatalogGeneration := none
  staleSince := none
  lastReconciledAt := none
  producer := none
  manifestHash := none
  embeddingContract := none
  dependencyInvalidationEpoch := 0
  claimedInvalidationEpoch := 0
  relationshipCoverageMissingSince := none

/- The concept of `b.md` is marked stale by its path. -/
def embeddedCatalog : State where
  bundles := ⟨oneBundle, 2, by
    intro b hb
    rw [oneBundle] at hb
    split at hb
    next h => rw [h]; decide
    next => contradiction⟩
  freshness :=
    { rows := fun b => if b = 1 then some freshRow else none
      scopes := fun key =>
        if key = (1, .path, "b.md".toList) then some ⟨.stale, [], none, none⟩ else none
      dependencies := .empty
      raised := fun _ => 0 }
  fences := fun _ => none
  publications := .empty
  outbox := .empty

def embedded (id : String) (model : Option String) : StoredEmbedding where
  bundleId := 1
  conceptId := id.toList
  dim := 4
  model := model.map (·.toList)
  updatedAt := 10
  sourceFileHash := some "f"
  inputHash := none
  contract := some "v1"

/- The row of `c` was written without a model. -/
def embeddings : EmbeddingTable where
  rows := [embedded "a" (some "m"), embedded "b" (some "m"), embedded "c" none]
  distinct := by decide

def pinnedPolicy : EmbeddingPolicy := ⟨4, "m", []⟩

theorem embedding_current_of_three :
    (∃ hit ∈ freshSearch (sampleEngine.withEmbeddings pinnedPolicy embeddings sampleIndex fun _ =>
      "f".toList)
        embeddedCatalog writerTxn sampleIndex { sampleRequest with limit := 3 } none,
      hit.hit.conceptId = "a".toList ∧ hit.embeddingState = .current) ∧
      (∃ annotation ∈ annotateNodes pinnedPolicy embeddings sampleIndex (fun _ => "f".toList)
          embeddedCatalog writerTxn [(1, "a".toList)],
        annotation.node = (1, "a".toList) ∧ annotation.embeddingState = .current) ∧
      Eligible pinnedPolicy embeddings sampleIndex (fun _ => "f".toList) embeddedCatalog writerTxn
        (1, "a".toList) ∧
      ¬Eligible pinnedPolicy embeddings sampleIndex (fun _ => "f".toList) embeddedCatalog writerTxn
        (1, "b".toList) ∧
      indexedConcept "c" ∈ pendingConcepts pinnedPolicy embeddings sampleIndex (fun _ => "f".toList)
        embeddedCatalog writerTxn none := by
  have hrows : ∀ b bundle, embeddedCatalog.bundles.rows b = some bundle →
      (embeddedCatalog.freshness.rows b).isSome := by
    intro b bundle hb
    simp only [embeddedCatalog, oneBundle] at hb ⊢
    split at hb
    next h => simp [h]
    next => contradiction
  have hscopes : ∀ key f, embeddedCatalog.freshness.scopes key = some f → f.state ≠ .fresh := by
    intro key f hf
    simp only [embeddedCatalog] at hf
    split at hf
    next => cases hf; decide
    next => contradiction
  obtain ⟨hsearch, hnodes, hrow⟩ := embedding_current_iff_eligible pinnedPolicy embeddings sampleIndex
    (fun _ => "f".toList) embeddedCatalog writerTxn sampleEngine hrows hscopes
  have hhit : ∃ hit ∈ freshSearch (sampleEngine.withEmbeddings pinnedPolicy embeddings sampleIndex
      fun _ => "f".toList) embeddedCatalog writerTxn sampleIndex { sampleRequest with limit := 3 } none,
      (hit.hit.bundleId = 1 ∧ hit.hit.conceptId = "a".toList) ∧ hit.embeddingState = .current := by
    decide +kernel
  obtain ⟨hit, hmem, ⟨hbundle, hid⟩, hcurrent⟩ := hhit
  have heligible := (hsearch _ none hit hmem).mp hcurrent
  rw [hbundle, hid] at heligible
  obtain ⟨hstale, -⟩ := hrow (indexedConcept "b") (by simp [sampleIndex]) (by decide +kernel)
  obtain ⟨-, hpending⟩ := hrow (indexedConcept "c") (by simp [sampleIndex]) (by decide +kernel)
  obtain ⟨hstates, hreported⟩ := hnodes [(1, "a".toList)]
  have hannotated := hreported (indexedConcept "a") (by simp [sampleIndex]) (by decide)
    (by decide +kernel)
  refine ⟨⟨hit, hmem, hid, hcurrent⟩, ⟨_, hannotated, rfl, (hstates _ hannotated).mpr heligible⟩,
    heligible, ?_, (hpending none (.inl rfl)).mpr ?_⟩
  · intro h
    exact absurd (hstale.mp h).1 (by decide +kernel)
  · rw [contractMet_iff]
    decide +kernel

end Pgokf.Catalog
