import Pgokf.Catalog.RowSteps
import Pgokf.Sync.Package

/-! # The embedding contract beside the catalog (`config.rs`, `embedding.rs`)

A change of one of three configuration keys marks bundles stale by a statement of its own. -/

namespace Pgokf.Catalog

open Lib

structure EmbeddingContractPolicy where
  dim : Int
  model : Text
  contract : Text
  deriving DecidableEq

/- The defaults of the three columns. -/
def EmbeddingContractPolicy.default : EmbeddingContractPolicy := ⟨1536, [], []⟩

inductive EmbeddingKey where
  | dim
  | model
  | contract
  deriving DecidableEq

def EmbeddingKey.name : EmbeddingKey → String
  | .dim => "embedding_dim"
  | .model => "embedding_model"
  | .contract => "embedding_contract"

/- The shapes of a `jsonb` value that the coercion of the three keys tells apart. -/
inductive ConfigJson where
  | integer (n : Int)
  | string (s : Text)
  | other

def typeError (key : EmbeddingKey) (expected : String) : CatalogError :=
  .invalidParameter ("configuration key " ++ key.name ++ " expects " ++ expected)

def minEmbeddingDim : Int := 1
def maxEmbeddingDim : Int := 16000
def maxEmbeddingLabelLen : Nat := 200

def validateEmbeddingDim (dim : Int) : Except CatalogError Int := do
  ensure (minEmbeddingDim ≤ dim && dim ≤ maxEmbeddingDim)
    (.invalidParameter ("embedding_dim must be between " ++ toString minEmbeddingDim ++ " and " ++
      toString maxEmbeddingDim ++ ", got " ++ toString dim))
  pure dim

def validateEmbeddingLabel (label : Text) (keyName : String) : Except CatalogError Unit :=
  if label.isEmpty then .ok ()
  else do
    ensure (!isBlank label)
      (.invalidParameter (keyName ++ " must not be blank (use the empty string to leave it unpinned)"))
    ensure (Sync.utf8Len label ≤ maxEmbeddingLabelLen)
      (.invalidParameter (keyName ++ " must be at most " ++ toString maxEmbeddingLabelLen ++
        " bytes, got " ++ toString (Sync.utf8Len label)))
    ensure ('\x00' ∉ label) (.invalidParameter (keyName ++ " must not contain NUL bytes"))

def coerceLabel (key : EmbeddingKey) : ConfigJson → Except CatalogError Text
  | .string label => do
    validateEmbeddingLabel label key.name
    pure label
  | _ => .error (typeError key "a string")

/-- `coerce` and `persist` of one of the three keys. -/
def EmbeddingContractPolicy.set (policy : EmbeddingContractPolicy) (key : EmbeddingKey)
    (value : ConfigJson) : Except CatalogError EmbeddingContractPolicy :=
  match key, value with
  | .dim, .integer n => do pure { policy with dim := ← validateEmbeddingDim n }
  | .dim, _ => .error (typeError .dim "an integer")
  | .model, value => do pure { policy with model := ← coerceLabel .model value }
  | .contract, value => do pure { policy with contract := ← coerceLabel .contract value }

/- `reset_key`, and `reset_all` where no key is named. -/
def EmbeddingContractPolicy.reset (policy : EmbeddingContractPolicy) :
    Option EmbeddingKey → EmbeddingContractPolicy
  | none => .default
  | some .dim => { policy with dim := EmbeddingContractPolicy.default.dim }
  | some .model => { policy with model := EmbeddingContractPolicy.default.model }
  | some .contract => { policy with contract := EmbeddingContractPolicy.default.contract }

/-! ### The installation -/

/- The catalog, the policy, and for each bundle the concepts that have an embedding row. -/
structure Installation where
  catalog : State
  policy : EmbeddingContractPolicy
  embedded : BundleId → List Text

def Installation.empty : Installation := ⟨.empty, .default, fun _ => []⟩

def reasonEmbeddingContractChanged : Text := "embedding_contract_changed"

/-- The update of `invalidate_embeddings_for_contract_change`, which writes fresh rows only. -/
def FreshnessRow.contractChanged (row : FreshnessRow) (now : Instant) : FreshnessRow :=
  { row with
    state := .stale
    reasonCodes := [reasonEmbeddingContractChanged]
    staleSince := some now }

def invalidateEmbeddingsForContractChange (now : Instant) (embedded : BundleId → List Text)
    (rows : FreshnessRows) : FreshnessRows := fun b =>
  (rows b).map fun row =>
    if row.state = .fresh ∧ embedded b ≠ [] then row.contractChanged now else row

/-- `with_embedding_contract_invalidation`, after the write of the new policy. -/
def Installation.withPolicy (s : Installation) (now : Instant) (policy : EmbeddingContractPolicy) :
    Installation :=
  if policy = s.policy then s
  else
    { s with
      policy
      catalog :=
        { s.catalog with
          freshness :=
            { s.catalog.freshness with
              rows := invalidateEmbeddingsForContractChange now s.embedded s.catalog.freshness.rows } } }

/- A sync deletes the embeddings of the concepts it stages and, by cascade, of those it removes. -/
def embeddedAfter (embedded : BundleId → List Text) : Op → BundleId → List Text
  | .syncBundle b input =>
    Function.update embedded b ((embedded b).filter fun id => input.changes.all (·.id != id))
  | .unregisterBundle b => Function.update embedded b []
  | _ => embedded

inductive Call where
  | catalog (op : Op)
  | setConceptEmbedding (b : BundleId) (conceptId : Text)
  | setConfig (key : EmbeddingKey) (value : ConfigJson)
  | resetConfig (key : Option EmbeddingKey)
  -- `set_config` and `reset_config` of a key that is not part of the contract
  | otherConfig

structure Invocation where
  txn : Txn
  committedAt : Instant
  call : Call

def Invocation.byAdmin (now : Instant) (call : Call) : Invocation :=
  { txn := (Request.byAdmin now (.disableDependency 0)).txn, committedAt := now, call }

def Installation.exec (s : Installation) (invocation : Invocation) :
    Except CatalogError (Installation × Reply) :=
  let txn := invocation.txn
  match invocation.call with
  | .catalog op => do
    let (catalog, reply) ← Catalog.exec s.catalog ⟨txn, invocation.committedAt, op⟩
    pure ({ s with catalog, embedded := embeddedAfter s.embedded op }, reply)
  | .setConceptEmbedding b conceptId => do
    let _ ← confinedBundle .ingest txn s.catalog.bundles.rows b
    pure ({ s with embedded := Function.update s.embedded b (conceptId :: s.embedded b) }, .done)
  | .setConfig key value => do
    authorizeCurrentUser .register txn.session txn.requireTenant
    let policy ← s.policy.set key value
    pure (s.withPolicy txn.now policy, .done)
  | .resetConfig key => do
    authorizeCurrentUser .register txn.session txn.requireTenant
    pure (s.withPolicy txn.now (s.policy.reset key), .done)
  | .otherConfig => do
    authorizeCurrentUser .register txn.session txn.requireTenant
    pure (s, .done)

variable {s s' : Installation} {b : BundleId} {row : FreshnessRow}

inductive Effect (s : Installation) (txn : Txn) : Call → Installation → Reply → Prop where
  | catalog {op catalog reply} : Does s.catalog txn op catalog reply →
      Effect s txn (.catalog op) { s with catalog, embedded := embeddedAfter s.embedded op } reply
  | embedding {b conceptId} :
      Effect s txn (.setConceptEmbedding b conceptId)
        { s with embedded := Function.update s.embedded b (conceptId :: s.embedded b) } .done
  | setConfig {key value policy} : s.policy.set key value = .ok policy →
      Effect s txn (.setConfig key value) (s.withPolicy txn.now policy) .done
  | resetConfig {key} : Effect s txn (.resetConfig key) (s.withPolicy txn.now (s.policy.reset key)) .done
  | otherConfig : Effect s txn .otherConfig s .done

theorem Installation.exec_effect {invocation : Invocation} {reply : Reply}
    (h : s.exec invocation = .ok (s', reply)) :
    Effect s invocation.txn invocation.call s' reply := by
  obtain ⟨txn, committedAt, call⟩ := invocation
  cases call with
  | catalog op =>
    simp only [Installation.exec, bind_eq_ok, pure_eq_ok, Prod.mk.injEq, Prod.exists] at h
    obtain ⟨catalog, reply', h, rfl, rfl⟩ := h
    exact .catalog (exec_does h)
  | setConceptEmbedding b conceptId =>
    simp only [Installation.exec, bind_eq_ok, pure_eq_ok, Prod.mk.injEq] at h
    obtain ⟨-, -, rfl, rfl⟩ := h
    exact .embedding
  | setConfig key value =>
    simp only [Installation.exec, bind_eq_ok, pure_eq_ok, Prod.mk.injEq] at h
    obtain ⟨-, -, policy, hpolicy, rfl, rfl⟩ := h
    exact .setConfig hpolicy
  | resetConfig key =>
    simp only [Installation.exec, bind_eq_ok, pure_eq_ok, Prod.mk.injEq] at h
    obtain ⟨-, -, rfl, rfl⟩ := h
    exact .resetConfig
  | otherConfig =>
    simp only [Installation.exec, bind_eq_ok, pure_eq_ok, Prod.mk.injEq] at h
    obtain ⟨-, -, rfl, rfl⟩ := h
    exact .otherConfig

theorem Installation.step_effect {e : Entry Invocation CatalogError Reply}
    (h : Step Installation.exec s e s') :
    (∃ reply, e.result = .ok reply ∧ Effect s e.call.txn e.call.call s' reply) ∨
      (∃ error, e.result = .error error) ∧ s' = s := by
  cases h with
  | commit h => exact .inl ⟨_, rfl, Installation.exec_effect h⟩
  | refuse h => exact .inr ⟨⟨_, rfl⟩, rfl⟩

theorem Installation.withPolicy_bundles (s : Installation) (now : Instant)
    (policy : EmbeddingContractPolicy) :
      (s.withPolicy now policy).catalog.bundles = s.catalog.bundles := by
  unfold Installation.withPolicy
  split <;> rfl

theorem Installation.withPolicy_row (hrow : s.catalog.freshness.rows b = some row) (now : Instant)
    (policy : EmbeddingContractPolicy) :
    ∃ row', (s.withPolicy now policy).catalog.freshness.rows b = some row' ∧
      (row' = row ∨ row.state = .fresh ∧ row' = row.contractChanged now) := by
  unfold Installation.withPolicy
  split
  · exact ⟨row, hrow, .inl rfl⟩
  · simp only [invalidateEmbeddingsForContractChange, hrow, Option.map_some]
    refine ⟨_, rfl, ?_⟩
    split
    · rename_i hfresh
      exact .inr ⟨hfresh.1, rfl⟩
    · exact .inl rfl

end Pgokf.Catalog
