import Pgokf.Catalog.Activation

/-! # Relationship rows and the concepts they refer to

A write validates its rows against the concepts of the moment, or leaves that to the sync that
activates it. -/

namespace Pgokf.Catalog

open Lib

variable {F : Type}

structure CatalogStore (F : Type) where
  catalog : State
  concepts : BundleId → Text → Bool
  -- By publication.
  rows : Int → List (RelationshipRow F)

def CatalogStore.empty : CatalogStore F where
  catalog := .empty
  concepts _ _ := false
  rows _ := []

def Op.writesRelationships : Op → Bool
  | .replaceRelationships _ => true
  | _ => false

inductive StoreOp (F : Type) where
  | publish (args : RelationshipArguments F)
  /- Every other call; a sync also brings the concepts that it accepts. -/
  | other (op : Op) (accepted : Text → Bool) (plain : op.writesRelationships = false)

structure StoreCall (F : Type) where
  txn : Txn
  committedAt : Instant
  op : StoreOp F

def RelationshipRow.reresolve (concepts : BundleId → Text → Bool) (row : RelationshipRow F) :
    RelationshipRow F :=
  match row.targetBundleId, row.targetConceptId with
  | some bundle, some concept => { row with unresolved := !concepts bundle concept }
  | _, _ => row

def quarantineAbsentSources (concepts : BundleId → Text → Bool) (b : BundleId)
    (rows : List (RelationshipRow F)) : List (RelationshipRow F) :=
  rows.filter fun row => concepts b row.sourceConceptId

def settleActivated (concepts : BundleId → Text → Bool) (b : BundleId)
    (rows : List (RelationshipRow F)) :
    List (RelationshipRow F) :=
  quarantineAbsentSources concepts b (rows.map (·.reresolve concepts))

def Op.conceptsAfter (op : Op) (accepted : Text → Bool) (c : State) (concepts : BundleId → Text → Bool) :
    BundleId → Text → Bool :=
  match op with
  | .registerBundle _ => Function.update concepts c.bundles.next accepted
  | .syncBundle b _ => Function.update concepts b accepted
  | .unregisterBundle b => Function.update concepts b fun _ => false
  | _ => concepts

/-- Only the publications that a sync has activated are settled. -/
def Reply.rowsAfter (reply : Reply) (concepts : BundleId → Text → Bool)
    (rows : Int → List (RelationshipRow F)) :
    Int → List (RelationshipRow F) :=
  match reply with
  | .synced b _ activated => fun id =>
    if activated.contains id then settleActivated concepts b (rows id) else rows id
  | _ => rows

/-- The foreign key of a row: the rows of a publication that is pruned go with it. -/
def cascade (publications : PublicationTable) (rows : Int → List (RelationshipRow F)) (id : Int) :
    List (RelationshipRow F) :=
  if publications.rows.any (·.publicationId == id) then rows id else []

section Calls

variable (digest : Text → Text) (serde : Serde F) (maxRows : Nat)

def CatalogStore.endpoints (s : CatalogStore F) (txn : Txn) (args : RelationshipArguments F) :
    Endpoints where
  sourceBundleId := args.sourceBundleId
  visible := visibleActive txn s.catalog.bundles.rows
  concepts := s.concepts

def StoreOp.op (s : CatalogStore F) (txn : Txn) : StoreOp F → Op
  | .publish args => .replaceRelationships
    (args.write digest serde maxRows txn s.catalog.bundles.rows s.concepts)
  | .other op _ _ => op

def acceptedRows (e : Endpoints) (activate : Bool) (rows : Jsonb F) : List (RelationshipRow F) :=
  match canonicalSet digest serde maxRows e activate rows with
  | .ok stored => stored.1.map (·.1)
  | .error _ => []

/- The set that a write has stored under a publication of its own. A retry stores none. -/
def CatalogStore.insertRows (s : CatalogStore F) (txn : Txn) (args : RelationshipArguments F)
    (reply : Reply) :
    Int → List (RelationshipRow F) :=
  match reply with
  | .published p _ =>
    if p.publicationId = s.catalog.publications.next then
      Function.update s.rows p.publicationId
        (acceptedRows digest serde maxRows (s.endpoints txn args) (p.state == .active) args.rows)
    else s.rows
  | _ => s.rows

def CatalogStore.after (s : CatalogStore F) (call : StoreCall F) (c' : State) (reply : Reply) :
    CatalogStore F :=
  match call.op with
  | .publish args =>
    { catalog := c'
      concepts := s.concepts
      rows := cascade c'.publications (s.insertRows digest serde maxRows call.txn args reply) }
  | .other op accepted _ =>
    let concepts := op.conceptsAfter accepted s.catalog s.concepts
    { catalog := c', concepts, rows := cascade c'.publications (reply.rowsAfter concepts s.rows) }

def storeExec (s : CatalogStore F) (call : StoreCall F) :
    Except CatalogError (CatalogStore F × Reply) := do
  let (c', reply) ← exec s.catalog
    { txn := call.txn, committedAt := call.committedAt, op :=
      call.op.op digest serde maxRows s call.txn }
  pure (s.after digest serde maxRows call c' reply, reply)

def StoreRun (s : CatalogStore F) (es : List (Entry (StoreCall F) CatalogError Reply))
    (s' : CatalogStore F) :
    Prop :=
  Run (Step (storeExec digest serde maxRows)) s es s'

end Calls

section Ledger

variable {key : FenceKey} {c c' : State} {txn : Txn} {op : Op} {reply : Reply} {p q : Publication}
  {b : BundleId} {now : Instant} {generation : Int} {t : PublicationTable}

/-- No two publications of a key share a generation, and no two are active. -/
structure OneActive (key : FenceKey) (t : PublicationTable) : Prop where
  distinct : ∀ p ∈ t.rows, ∀ q ∈ t.rows, p.isAt key → q.isAt key →
    p.publicationGeneration = q.publicationGeneration → p = q
  active : ∀ p ∈ t.rows, ∀ q ∈ t.rows, p.isAt key → q.isAt key → p.state = .active →
    q.state = .active → p = q

theorem OneActive.step (h : OneActive key c.publications) (hdoes : Does c txn op c' reply) :
    OneActive key c'.publications := by
  refine ⟨hdoes.distinct_at h.distinct, fun p hp q hq hpat hqat hpactive hqactive => ?_⟩
  have hpalive : p.state ≠ .superseded := by rw [hpactive]; decide
  have hqalive : q.state ≠ .superseded := by rw [hqactive]; decide
  -- Once one of the two is an old active row, so is the other.
  have hold : ∀ {p q : Publication}, p ∈ c.publications.rows → q ∈ c'.publications.rows → p.isAt key →
      q.isAt key → p.state = .active → q.state = .active →
      (p.state = .active → ∀ r ∈ c'.publications.rows, r.isAt key → r.state = .active →
        r ∈ c.publications.rows) → p = q := by
    intro p q hp hq hpat hqat hpactive hqactive hothers
    exact h.active p hp q (hothers hpactive q hq hqat hqactive) hpat hqat hpactive hqactive
  cases hdoes.live_at hp hpat hpalive with
  | kept hp₀ _ hothers => exact hold hp₀ hq hpat hqat hpactive hqactive hothers
  | won hsync hnewest =>
    cases hdoes.live_at hq hqat hqalive with
    | kept hq₀ _ hothers => exact (hold hq₀ hp hqat hpat hqactive hpactive hothers).symm
    | won _ hnewest' =>
      rw [h.distinct _ hnewest.mem _ hnewest'.mem hpat hqat (hnewest.generation_eq hnewest' hpat hqat)]
    | written hop =>
      rw [hop] at hsync
      cases hsync
  | written hop hchecked =>
    cases hdoes.live_at hq hqat hqalive with
    | kept hq₀ _ hothers => exact (hold hq₀ hp hqat hpat hqactive hpactive hothers).symm
    | won hsync =>
      rw [hop] at hsync
      cases hsync
    | written hop' hchecked' =>
      obtain rfl := Op.replaceRelationships.inj (hop.symm.trans hop')
      obtain rfl := Except.ok.inj (hchecked.symm.trans hchecked')
      rfl

def ExpectsCurrent (key : FenceKey) (c : State) : Prop :=
  ∀ p ∈ c.publications.rows, p.isAt key → p.state = .active →
    ∀ bundle, c.bundles.rows key.bundleId = some bundle →
      p.expectedCatalogGeneration = bundle.catalogGeneration

theorem ExpectsCurrent.step (h : ExpectsCurrent key c)
    (hregistered : ∀ p ∈ c.publications.rows, p.isAt key → (c.bundles.rows key.bundleId).isSome)
    (hdoes : Does c txn op c' reply) (hstill : op.movesLifecycle = false) : ExpectsCurrent key c' := by
  intro p hp hat hactive bundle' hbundle'
  have hop : op ≠ .unregisterBundle key.bundleId := by
    rintro rfl
    exact (not_isAt_of_unregistered hdoes).1 p hp hat
  -- The bundle of an older row was there before the call.
  have hbefore : ∀ {q : Publication}, q ∈ c.publications.rows → q.isAt key →
      ∃ bundle, c.bundles.rows key.bundleId = some bundle ∧
        GenerationStep key.bundleId c op bundle bundle' := by
    intro q hq hqat
    obtain ⟨bundle, hbundle⟩ := Option.isSome_iff_exists.mp (hregistered q hq hqat)
    obtain ⟨_, hb, hstep⟩ := hdoes.generationStep hop hbundle
    obtain rfl := Option.some.inj (hb.symm.trans hbundle')
    exact ⟨bundle, hbundle, hstep⟩
  cases hdoes.live_at hp hat (by rw [hactive]; decide) with
  | kept hp₀ hsynced _ =>
    obtain ⟨bundle, hbundle, hstep⟩ := hbefore hp₀ hat
    have hsync : op.syncs key.bundleId c = false := by
      refine Bool.eq_false_iff.mpr fun hsync => ?_
      rw [(hsynced hsync).1] at hactive
      cases hactive
    obtain rfl := hstep.same hsync hstill
    exact h p hp₀ hat hactive _ hbundle
  | won hsync hnewest =>
    obtain ⟨bundle, hbundle, hstep⟩ := hbefore hnewest.mem hat
    rw [hstep.synced hsync]
    refine hnewest.expected.trans ?_
    simp [nextGeneration, hbundle]
  | written hwrite hchecked hcheckedAt _ =>
    obtain ⟨bundle, hrow, hcheckedKey, -, -, -, -, -, hmode, -⟩ := checkedWrite_ok hchecked
    have hbundle : c.bundles.rows key.bundleId = some bundle := by
      rw [← hcheckedAt, hcheckedKey]
      exact hrow
    obtain ⟨_, hb, hstep⟩ := hdoes.generationStep hop hbundle
    obtain rfl := Option.some.inj (hb.symm.trans hbundle')
    obtain rfl := hstep.same (by rw [hwrite]; rfl) hstill
    rw [newPublication_state] at hactive
    split at hactive
    · rename_i hactivate
      exact activationMode_eq_true (hactivate ▸ hmode)
    · cases hactive

def Tenanted (key : FenceKey) (c : State) : Prop :=
  ∀ p ∈ c.publications.rows, p.isAt key → p.state ≠ .superseded →
    ∀ bundle, c.bundles.rows key.bundleId = some bundle → bundle.tenantId = key.tenantId

theorem Tenanted.step (h : Tenanted key c)
    (hregistered : ∀ p ∈ c.publications.rows, p.isAt key → (c.bundles.rows key.bundleId).isSome)
    (hdoes : Does c txn op c' reply) : Tenanted key c' := by
  intro p hp hat hlive bundle' hbundle'
  have hop : op ≠ .unregisterBundle key.bundleId := by
    rintro rfl
    exact (not_isAt_of_unregistered hdoes).1 p hp hat
  have hbefore : ∀ {q : Publication}, q ∈ c.publications.rows → q.isAt key → q.state ≠ .superseded →
      bundle'.tenantId = key.tenantId := by
    intro q hq hqat hqlive
    obtain ⟨bundle, hbundle⟩ := Option.isSome_iff_exists.mp (hregistered q hq hqat)
    obtain ⟨_, hb, hstep⟩ := hdoes.generationStep hop hbundle
    obtain rfl := Option.some.inj (hb.symm.trans hbundle')
    rw [hstep.tenant]
    exact h q hq hqat hqlive bundle hbundle
  cases hdoes.live_at hp hat hlive with
  | kept hp₀ _ _ => exact hbefore hp₀ hat hlive
  | won _ hnewest => exact hbefore hnewest.mem hat (by rw [hnewest.staged]; decide)
  | written _ hchecked hcheckedAt _ =>
    obtain ⟨bundle, hrow, hcheckedKey, -⟩ := checkedWrite_ok hchecked
    rw [hcheckedAt] at hcheckedKey
    subst hcheckedKey
    obtain ⟨_, hb, hstep⟩ := hdoes.generationStep hop hrow
    obtain rfl := Option.some.inj (hb.symm.trans hbundle')
    exact hstep.tenant

theorem Newest.mem_activated (h : Newest t b generation p) :
    p.publicationId ∈ (activateStaged now b generation t).activated := by
  refine List.mem_map_of_mem (List.mem_filter.mpr ⟨List.mem_filter.mpr ⟨?_, h.attempts⟩, ?_⟩)
  · exact mem_outdated_of_attempts h.mem h.attempts
  · refine List.all_eq_true.mpr fun q hq => ?_
    obtain ⟨hq, hattempt⟩ := List.mem_filter.mp hq
    obtain ⟨-, hstaged, -⟩ := attempts_iff.mp hattempt
    obtain ⟨hq, -⟩ := mem_supersedeOutdated hq (by rw [hstaged]; decide)
    have hnewest := h.newest q hq hattempt
    by_cases hscope : q.tenantId = p.tenantId ∧ q.producer = p.producer
    · simp [hnewest hscope.1 hscope.2]
    · rw [not_and_or] at hscope
      rcases hscope with hne | hne <;> simp [hne]

theorem of_mem_activated {id : Int} (h : id ∈ (activateStaged now b generation t).activated) :
    ∃ p ∈ t.rows, p.sourceBundleId = some b ∧ p.publicationId = id := by
  obtain ⟨p, hp, rfl⟩ := List.mem_map.mp h
  obtain ⟨hp, hattempt⟩ := List.mem_filter.mp (List.mem_filter.mp hp).1
  obtain ⟨hbundle, hstaged, -⟩ := attempts_iff.mp hattempt
  obtain ⟨hp, -⟩ := mem_supersedeOutdated hp (by rw [hstaged]; decide)
  exact ⟨p, hp, hbundle, rfl⟩

end Ledger

section Rows

variable {concepts : BundleId → Text → Bool} {b : BundleId} {row : RelationshipRow F} {e : Endpoints}
  {rows : List (RelationshipRow F)}

structure RelationshipRow.Grounded (concepts : BundleId → Text → Bool) (b : BundleId)
    (row : RelationshipRow F) : Prop where
  source : concepts b row.sourceConceptId = true
  target : row.unresolved = false → row.targetBundleId = some b →
    ∃ concept, row.targetConceptId = some concept ∧ concepts b concept = true

theorem RelationshipRow.Paired.concept (h : row.Paired) (hb : row.targetBundleId = some b) :
    ∃ concept, row.targetConceptId = some concept := by
  have hpair := h.pair
  rw [hb] at hpair
  exact Option.isSome_iff_exists.mp hpair.symm

theorem reresolve_wire (concepts : BundleId → Text → Bool) (row : RelationshipRow F) :
    (row.reresolve concepts).wire = row.wire := by
  unfold RelationshipRow.reresolve
  split <;> rfl

variable {target : BundleId}

theorem reresolve_unresolved {concept : Text} (hb : row.targetBundleId = some target)
    (hc : row.targetConceptId = some concept) :
    (row.reresolve concepts).unresolved = !concepts target concept := by
  simp [RelationshipRow.reresolve, hb, hc]

theorem mem_settleActivated (hpaired : ∀ row ∈ rows, row.Paired)
    (h : row ∈ settleActivated concepts b rows) : row.Grounded concepts b ∧ row.Paired := by
  obtain ⟨hsettled, hsource⟩ := List.mem_filter.mp h
  obtain ⟨row, hrow, rfl⟩ := List.mem_map.mp hsettled
  have hwire := reresolve_wire concepts row
  have hp : (row.reresolve concepts).Paired := by
    refine .of_wire ?_
    rw [hwire]
    exact ⟨(hpaired row hrow).pair, (hpaired row hrow).external⟩
  refine ⟨⟨hsource, fun hresolved hb => ?_⟩, hp⟩
  obtain ⟨concept, hconcept⟩ := hp.concept hb
  refine ⟨concept, hconcept, ?_⟩
  have hb₀ : row.targetBundleId = some b := (congrArg RelationshipRow.targetBundleId hwire).symm.trans hb
  have hc₀ : row.targetConceptId = some concept :=
    (congrArg RelationshipRow.targetConceptId hwire).symm.trans hconcept
  rw [reresolve_unresolved hb₀ hc₀] at hresolved
  simpa using hresolved

theorem settle_resolved {concept : Text} (hb : row.targetBundleId = some target)
    (hc : row.targetConceptId = some concept) (h : (row.settle e true).unresolved = false) :
    e.concepts target concept = true := by
  simp only [RelationshipRow.settle, hb, hc, Bool.or_eq_false_iff, Bool.not_eq_false'] at h
  exact h.2

theorem resolve_grounded (h : row.WellShaped)
    (hsource : e.concepts e.sourceBundleId row.sourceConceptId = true) :
    (row.resolve e true).Grounded e.concepts e.sourceBundleId := by
  have hsame := congrArg RelationshipRow.sourceConceptId (resolve_wire e true h)
  refine ⟨?_, fun hresolved hb => ?_⟩
  · change e.concepts e.sourceBundleId (row.resolve e true).wire.sourceConceptId = true
    rw [hsame]
    exact hsource
  obtain ⟨concept, hconcept⟩ := (resolve_paired h).concept hb
  -- The flags aside, the row is what `dropInvisible` has left.
  have hkept : (row.resolve e true).wire = ((row.declareBundle e.sourceBundleId).dropInvisible e).wire :=
    settle_wire
  refine ⟨concept, hconcept, settle_resolved ?_ ?_ hresolved⟩
  · exact (congrArg RelationshipRow.targetBundleId hkept).symm.trans hb
  · exact (congrArg RelationshipRow.targetConceptId hkept).symm.trans hconcept

variable {digest : Text → Text} {serde : Serde F} {maxRows : Nat} {json : Jsonb F} {activate : Bool}

theorem acceptedRows_paired : ∀ row ∈ acceptedRows digest serde maxRows e activate json, row.Paired := by
  intro resolved hresolved
  unfold acceptedRows at hresolved
  split at hresolved
  · rename_i stored h
    obtain ⟨declared, hdeclared, -, rfl⟩ := canonicalSet_ok.mp h
    rw [canonicalize_rows, List.mem_insertionSort] at hresolved
    obtain ⟨row, hrow, rfl⟩ := List.mem_map.mp hresolved
    exact resolve_paired (declaredRows_shape hdeclared row hrow).1
  · cases hresolved

theorem acceptedRows_grounded :
    ∀ row ∈ acceptedRows digest serde maxRows e true json, row.Grounded e.concepts e.sourceBundleId := by
  intro resolved hresolved
  unfold acceptedRows at hresolved
  split at hresolved
  · rename_i stored h
    obtain ⟨declared, hdeclared, hsources, rfl⟩ := canonicalSet_ok.mp h
    rw [canonicalize_rows, List.mem_insertionSort] at hresolved
    obtain ⟨row, hrow, rfl⟩ := List.mem_map.mp hresolved
    exact resolve_grounded (declaredRows_shape hdeclared row hrow).1 (hsources row hrow rfl)
  · cases hresolved

end Rows

/-! ### One call -/

section Step

variable {digest : Text → Text} {serde : Serde F} {maxRows : Nat} {s s' : CatalogStore F}
  {call : StoreCall F} {c c' : State} {txn : Txn} {op : Op} {reply : Reply} {p : Publication}
  {b : BundleId} {args : RelationshipArguments F} {accepted : Text → Bool} {row : RelationshipRow F}
  {rows : Int → List (RelationshipRow F)} {id : Int}

variable {had : Bool} {activated : List Int}

theorem Does.synced_reply (h : Does c txn op c' (.synced b had activated)) : op.syncs b c = true ∧
      activated = (activateStaged txn.now b (nextGeneration c b) c.publications).activated := by
  generalize hreply : Reply.synced b had activated = reply at h
  cases h with
  | registerBundle h =>
    obtain ⟨rfl, -, rfl⟩ := Reply.synced.inj hreply
    obtain ⟨row, hrow, h⟩ := registerBundle_ok h
    obtain ⟨bundle, recorded, hbundle, -, rfl, -⟩ := syncTail_ok h
    obtain rfl : row = bundle := by simpa [BundleRegistry.add] using hbundle
    refine ⟨beq_self_eq_true _, ?_⟩
    rw [nextGeneration, next_unregistered, hrow]
    rfl
  | syncBundle h =>
    obtain ⟨rfl, -, rfl⟩ := Reply.synced.inj hreply
    obtain ⟨bundle, recorded, hbundle, -, rfl, -⟩ := syncTail_ok (syncBundle_ok h)
    refine ⟨beq_self_eq_true _, ?_⟩
    rw [nextGeneration, hbundle]
    rfl
  | _ => cases hreply

theorem Does.reply_of_syncs (h : Does c txn op c' reply) (hsync : op.syncs b c = true) :
    ∃ had, reply = .synced b had
      (activateStaged txn.now b (nextGeneration c b) c.publications).activated := by
  have hreply : ∃ had activated, reply = .synced b had activated := by
    cases h with
    | registerBundle h | syncBundle h =>
      obtain rfl := beq_iff_eq.mp hsync
      exact ⟨_, _, rfl⟩
    | _ => cases hsync
  obtain ⟨had, activated, rfl⟩ := hreply
  exact ⟨had, by rw [h.synced_reply.2]⟩

theorem Does.published_reply {write : RelationshipWrite} {checked : CheckedWrite}
    (h : Does c txn (.replaceRelationships write) c' reply)
    (hchecked : checkedWrite txn c.bundles.rows c.fences write = .ok checked)
    (hnone : existingPublication c.publications checked.key write.publicationGeneration = none) :
    ∃ activated, reply = .published (newPublication txn.now checked.key write checked.fence checked.set
      checked.activate c.publications.next) activated := by
  cases h with
  | replaceRelationships h =>
    obtain ⟨_, hchecked', h⟩ := bind_eq_ok.mp h
    obtain rfl := Except.ok.inj (hchecked.symm.trans hchecked')
    simp only [answerWrite, hnone] at h
    obtain rfl := pure_eq_ok.mp h
    cases hactivate : checked.activate with
    | true | false => exact ⟨_, rfl⟩

theorem storeExec_ok (h : storeExec digest serde maxRows s call = .ok (s', reply)) :
    ∃ c', Does s.catalog call.txn (call.op.op digest serde maxRows s call.txn) c' reply ∧
      s' = s.after digest serde maxRows call c' reply := by
  obtain ⟨⟨c', reply'⟩, hexec, h⟩ := bind_eq_ok.mp h
  obtain ⟨rfl, rfl⟩ := Prod.mk.inj (pure_eq_ok.mp h)
  exact ⟨c', exec_does hexec, rfl⟩

theorem of_mem_cascade {t : PublicationTable} (h : row ∈ cascade t rows id) : row ∈ rows id := by
  unfold cascade at h
  split at h
  · exact h
  · cases h

theorem insertRows_other (hid : id ≠ s.catalog.publications.next) :
    s.insertRows digest serde maxRows txn args reply id = s.rows id := by
  unfold CatalogStore.insertRows
  split
  · split
    · rename_i hnext
      rw [Function.update_apply, if_neg (hnext ▸ hid)]
    · rfl
  · rfl

theorem insertRows_new {activated : Bool} (hid : p.publicationId = s.catalog.publications.next)
    (hactive : p.state = .active) :
    s.insertRows digest serde maxRows txn args (.published p activated) p.publicationId =
      acceptedRows digest serde maxRows (s.endpoints txn args) true args.rows := by
  have hstate : (p.state == .active) = true := beq_iff_eq.mpr hactive
  simp only [CatalogStore.insertRows, if_pos hid, hstate]
  exact Function.update_self ..

variable {concepts : BundleId → Text → Bool}

theorem rowsAfter_activated (hid : id ∈ activated) :
    (Reply.synced b had activated).rowsAfter concepts rows id = settleActivated concepts b (rows id) :=
  if_pos (List.contains_iff_mem.mpr hid)

theorem rowsAfter_untouched (h : ∀ b had activated, reply = .synced b had activated → id ∉ activated) :
    reply.rowsAfter concepts rows id = rows id := by
  unfold Reply.rowsAfter
  split
  · rename_i b had activated
    exact if_neg fun hid => h b had activated rfl (List.contains_iff_mem.mp hid)
  · rfl

theorem insertRows_paired (hpaired : ∀ id, ∀ row ∈ s.rows id, row.Paired)
    (h : row ∈ s.insertRows digest serde maxRows txn args reply id) : row.Paired := by
  unfold CatalogStore.insertRows at h
  split at h
  · split at h
    · rw [Function.update_apply] at h
      split at h
      · exact acceptedRows_paired row h
      · exact hpaired id row h
    · exact hpaired id row h
  · exact hpaired id row h

theorem rowsAfter_paired (hpaired : ∀ id, ∀ row ∈ rows id, row.Paired)
    (h : row ∈ reply.rowsAfter concepts rows id) :
    row.Paired := by
  unfold Reply.rowsAfter at h
  split at h
  · split at h
    · exact (mem_settleActivated (hpaired id) h).2
    · exact hpaired id row h
  · exact hpaired id row h

theorem conceptsAfter_other (accepted : Text → Bool) (concepts : BundleId → Text → Bool)
    (hsync : op.syncs b c = false) (hop : op ≠ .unregisterBundle b) :
    op.conceptsAfter accepted c concepts b = concepts b := by
  unfold Op.conceptsAfter
  split
  · exact Function.update_of_ne (Ne.symm (beq_eq_false_iff_ne.mp hsync)) _ _
  · exact Function.update_of_ne (Ne.symm (beq_eq_false_iff_ne.mp hsync)) _ _
  · refine Function.update_of_ne ?_ _ _
    rintro rfl
    exact hop rfl
  · rfl

def RowsGrounded (key : FenceKey) (s : CatalogStore F) : Prop :=
  ∀ p ∈ s.catalog.publications.rows, p.isAt key → p.state = .active →
    ∀ row ∈ s.rows p.publicationId, row.Grounded s.concepts key.bundleId

variable {key : FenceKey}

theorem RowsGrounded.publish (h : RowsGrounded key s) (hop : call.op = .publish args)
    (hdoes : Does s.catalog call.txn (call.op.op digest serde maxRows s call.txn) c' reply) :
    RowsGrounded key (s.after digest serde maxRows call c' reply) := by
  have hafter : s.after digest serde maxRows call c' reply =
      { catalog := c'
        concepts := s.concepts
        rows := cascade c'.publications (s.insertRows digest serde maxRows call.txn args reply) } := by
    simp only [CatalogStore.after, hop]
  rw [hafter]
  rw [hop] at hdoes
  intro p hp hat hactive row hrow
  replace hrow := of_mem_cascade hrow
  cases hdoes.live_at hp hat (by rw [hactive]; decide) with
  | kept hp₀ _ _ =>
    rw [insertRows_other (ne_of_lt (s.catalog.publications.allocated p hp₀))] at hrow
    exact h p hp₀ hat hactive row hrow
  | won hsync => cases hsync
  | written hwrite hchecked hcheckedAt hnone =>
    obtain rfl := Op.replaceRelationships.inj hwrite
    obtain ⟨bundle, -, hcheckedKey, -⟩ := checkedWrite_ok hchecked
    subst hcheckedAt
    obtain ⟨activated, rfl⟩ := hdoes.published_reply hchecked hnone
    have hbundle : args.sourceBundleId = _ := congrArg FenceKey.bundleId hcheckedKey.symm
    rw [← hbundle]
    rw [insertRows_new rfl hactive] at hrow
    exact acceptedRows_grounded row hrow

theorem RowsGrounded.other {plain : op.writesRelationships = false}
    (hpaired : ∀ id, ∀ row ∈ s.rows id, row.Paired)
    (h : RowsGrounded key s) (hop : call.op = .other op accepted plain)
    (hdoes : Does s.catalog call.txn (call.op.op digest serde maxRows s call.txn) c' reply) :
    RowsGrounded key (s.after digest serde maxRows call c' reply) := by
  have hafter : s.after digest serde maxRows call c' reply =
      { catalog := c'
        concepts := op.conceptsAfter accepted s.catalog s.concepts
        rows := cascade c'.publications
          (reply.rowsAfter (op.conceptsAfter accepted s.catalog s.concepts) s.rows) } := by
    simp only [CatalogStore.after, hop]
  rw [hafter]
  rw [hop] at hdoes
  change Does s.catalog call.txn op c' reply at hdoes
  intro p hp hat hactive row hrow
  replace hrow := of_mem_cascade hrow
  have hop : op ≠ .unregisterBundle key.bundleId := by
    rintro rfl
    exact (not_isAt_of_unregistered hdoes).1 p hp hat
  cases hdoes.live_at hp hat (by rw [hactive]; decide) with
  | kept hp₀ hsynced _ =>
    have hsync : op.syncs key.bundleId s.catalog = false := by
      refine Bool.eq_false_iff.mpr fun hsync => ?_
      rw [(hsynced hsync).1] at hactive
      cases hactive
    have hground : row ∈ s.rows p.publicationId → row.Grounded
        (op.conceptsAfter accepted s.catalog s.concepts) key.bundleId := by
      intro hrow
      obtain ⟨hsource, htarget⟩ := h p hp₀ hat hactive row hrow
      have hconcepts := conceptsAfter_other accepted s.concepts hsync hop
      refine ⟨by rw [hconcepts]; exact hsource, ?_⟩
      rw [hconcepts]
      exact htarget
    refine hground ?_
    rwa [rowsAfter_untouched] at hrow
    rintro a had activated rfl hid
    -- An activated row is one of the bundle that was synced.
    obtain ⟨hsyncs, rfl⟩ := hdoes.synced_reply
    obtain ⟨q, hq, hqb, hqid⟩ := of_mem_activated hid
    obtain rfl := s.catalog.publications.eq_of_key hq hp₀ hqid
    obtain rfl := Option.some.inj (hqb.symm.trans hat.2.2)
    rw [hsyncs] at hsync
    cases hsync
  | won hsync hnewest =>
    obtain ⟨had, rfl⟩ := hdoes.reply_of_syncs hsync
    rename_i q
    have hid : (q.activated call.txn.now (nextGeneration s.catalog key.bundleId)).publicationId ∈
        (activateStaged call.txn.now key.bundleId (nextGeneration s.catalog key.bundleId)
          s.catalog.publications).activated := hnewest.mem_activated
    rw [rowsAfter_activated hid] at hrow
    exact (mem_settleActivated (hpaired _) hrow).1
  | written hwrite =>
    rw [hwrite] at plain
    cases plain

structure Sound (key : FenceKey) (s : CatalogStore F) : Prop where
  paired : ∀ id, ∀ row ∈ s.rows id, row.Paired
  registered : ∀ p ∈ s.catalog.publications.rows, p.isAt key →
    (s.catalog.bundles.rows key.bundleId).isSome
  oneActive : OneActive key s.catalog.publications
  tenanted : Tenanted key s.catalog
  grounded : RowsGrounded key s

theorem after_paired (hpaired : ∀ id, ∀ row ∈ s.rows id, row.Paired) :
    ∀ id, ∀ row ∈ (s.after digest serde maxRows call c' reply).rows id, row.Paired := by
  intro id row hrow
  unfold CatalogStore.after at hrow
  split at hrow
  · exact insertRows_paired hpaired (of_mem_cascade hrow)
  · exact rowsAfter_paired hpaired (of_mem_cascade hrow)

theorem after_catalog : (s.after digest serde maxRows call c' reply).catalog = c' := by
  unfold CatalogStore.after
  split <;> rfl

theorem Sound.step (h : Sound key s) (hexec : storeExec digest serde maxRows s call = .ok (s', reply)) :
    Sound key s' := by
  obtain ⟨c', hdoes, rfl⟩ := storeExec_ok hexec
  have hregistered := hdoes.registered h.registered
  have hone := h.oneActive.step hdoes
  have htenanted := h.tenanted.step h.registered hdoes
  refine ⟨after_paired h.paired, ?_, ?_, ?_, ?_⟩
  · rw [after_catalog]
    exact hregistered
  · rw [after_catalog]
    exact hone
  · rw [after_catalog]
    exact htenanted
  · cases hop : call.op with
    | publish args => exact h.grounded.publish hop hdoes
    | other op accepted plain => exact h.grounded.other h.paired hop hdoes

end Step

section Runs

variable {digest : Text → Text} {serde : Serde F} {maxRows : Nat} {s : CatalogStore F}
  {es : List (Entry (StoreCall F) CatalogError Reply)} {key : FenceKey}

theorem sound_empty : Sound key (CatalogStore.empty : CatalogStore F) where
  paired _ _ hrow := absurd hrow List.not_mem_nil
  registered _ hp := absurd hp List.not_mem_nil
  oneActive := ⟨fun _ hp => absurd hp List.not_mem_nil, fun _ hp => absurd hp List.not_mem_nil⟩
  tenanted _ hp := absurd hp List.not_mem_nil
  grounded _ hp := absurd hp List.not_mem_nil

theorem sound_run (hrun : StoreRun digest serde maxRows .empty es s) : Sound key s := by
  refine Run.invariant hrun sound_empty fun s e s' h hstep => ?_
  cases hstep with
  | commit hexec => exact h.step hexec
  | refuse => exact h

def StoreOp.movesLifecycle : StoreOp F → Bool
  | .publish _ => false
  | .other op _ _ => op.movesLifecycle

theorem expectsCurrent_run (hrun : StoreRun digest serde maxRows .empty es s)
    (hstill : ∀ e ∈ es, e.call.op.movesLifecycle = false) : ExpectsCurrent key s.catalog := by
  have hboth : Sound key s ∧
    ((∀ e ∈ es, e.call.op.movesLifecycle = false) → ExpectsCurrent key s.catalog) := by
    refine Run.history_invariant (P := fun es s => Sound key s ∧
        ((∀ e ∈ es, e.call.op.movesLifecycle = false) → ExpectsCurrent key s.catalog)) hrun
      ⟨sound_empty, fun _ _ hp => absurd hp List.not_mem_nil⟩ fun es s e s' h hstep => ?_
    obtain ⟨hsound, hcurrent⟩ := h
    cases hstep with
    | refuse => exact ⟨hsound, fun hall => hcurrent fun e he => hall e (List.mem_append_left _ he)⟩
    | commit hexec =>
      refine ⟨hsound.step hexec, fun hall => ?_⟩
      obtain ⟨c', hdoes, rfl⟩ := storeExec_ok hexec
      rw [after_catalog]
      refine (hcurrent fun e he => hall e (List.mem_append_left _ he)).step hsound.registered hdoes ?_
      have hlast := hall _ (List.mem_append_right _ List.mem_cons_self)
      rename_i call _
      cases hop : call.op with
      | publish args => rfl
      | other op accepted plain =>
        rw [hop] at hlast
        exact hlast
  exact hboth.2 hstill

/-- Of the publications of a producer on a bundle at most one is active; unless the lifecycle of a
bundle moves, it expects the bundle's current generation; the source of each of its rows exists, and
so does the target of a resolved row in the bundle. -/
theorem active_relationships_current (hrun : StoreRun digest serde maxRows .empty es s) :
    (∀ key, ∀ p ∈ s.catalog.publications.rows, ∀ q ∈ s.catalog.publications.rows, p.isAt key →
      q.isAt key →
      p.state = .active → q.state = .active → p = q) ∧
    ((∀ e ∈ es, e.call.op.movesLifecycle = false) → ∀ p ∈ s.catalog.publications.rows, ∀ b bundle,
      p.sourceBundleId = some b → p.state = .active → s.catalog.bundles.rows b = some bundle →
      p.expectedCatalogGeneration = bundle.catalogGeneration) ∧
    ∀ p ∈ s.catalog.publications.rows, ∀ b, p.sourceBundleId = some b → p.state = .active →
      ∀ row ∈ s.rows p.publicationId, s.concepts b row.sourceConceptId = true ∧
        (row.unresolved = false → row.targetBundleId = some b →
          ∃ concept, row.targetConceptId = some concept ∧ s.concepts b concept = true) := by
  refine ⟨fun key => (sound_run hrun).oneActive.active,
    fun hstill p hp b bundle hb hactive hbundle => ?_,
    fun p hp b hb hactive row hrow => ?_⟩
  · have hcurrent : ExpectsCurrent ⟨p.tenantId, p.producer, b⟩ s.catalog :=
      expectsCurrent_run hrun hstill
    exact hcurrent p hp ⟨rfl, rfl, hb⟩ hactive bundle hbundle
  · have hsound : Sound ⟨p.tenantId, p.producer, b⟩ s := sound_run hrun
    obtain ⟨hsource, htarget⟩ := hsound.grounded p hp ⟨rfl, rfl, hb⟩ hactive row hrow
    exact ⟨hsource, htarget⟩

end Runs

def withinBundle : RelationshipArguments Nat :=
  sampleArguments 2 ⟨.array [targetRow 1 "x" 0, targetRow 1 "y" 0], by decide⟩

def acceptsAll (_ : Text) : Bool := true
def acceptsX (concept : Text) : Bool := concept != "y"

def StoreCall.byAdmin (now : Instant) (op : StoreOp Nat) : StoreCall Nat :=
  ⟨{ writerTxn with now }, now, op⟩

def StoreCall.registers (now : Instant) : StoreCall Nat :=
  .byAdmin now (.other (.registerBundle ⟨[], [], .default⟩) acceptsAll rfl)

def StoreCall.fences (now : Instant) : StoreCall Nat :=
  .byAdmin now (.other (.issueFence 1 "p" 5 1 none 60) acceptsAll rfl)

def stagedCalls : List (StoreCall Nat) :=
  [.registers 0,
    .fences 10,
    .byAdmin 20 (.publish withinBundle),
    .byAdmin 30 (.other (.syncBundle 1 ⟨[], [], .default⟩) acceptsX rfl)]

def stagedStore : CatalogStore Nat :=
    (play (storeExec sampleTextDigest sampleSerde 50) .empty stagedCalls).1

theorem active_relationships_current_staged :
    ∃ p ∈ stagedStore.catalog.publications.rows, p.state = .active ∧ p.expectedCatalogGeneration = 2 ∧
      ∃ row ∈ stagedStore.rows p.publicationId, row.unresolved = false ∧
        ∃ concept, row.targetConceptId = some concept ∧ stagedStore.concepts 1 concept = true := by
  have hactive : ∃ p ∈ stagedStore.catalog.publications.rows, p.state = .active ∧
    p.sourceBundleId = some 1 ∧
      p.expectedCatalogGeneration = 2 ∧
      ∃ row ∈ stagedStore.rows p.publicationId, row.unresolved = false ∧ row.targetBundleId = some 1 :=
    ⟨_, List.mem_cons_self, rfl, rfl, rfl, _, List.mem_cons_self, rfl, rfl⟩
  obtain ⟨p, hp, hactive, hb, hexpected, row, hrow, hresolved, htarget⟩ := hactive
  have hcurrent := active_relationships_current
    (play_run (storeExec sampleTextDigest sampleSerde 50) CatalogStore.empty stagedCalls)
  exact ⟨p, hp, hactive, hexpected, row, hrow, hresolved,
    (hcurrent.2.2 p hp 1 hb hactive row hrow).2 hresolved htarget⟩

end Pgokf.Catalog
