import Pgokf.Catalog.Activation

/-! # The order in which publications become active

The generations of a producer increase as long as no write that activates at once overtakes a
publication staged for the next catalog generation, which the next sync would activate after it. -/

namespace Pgokf.Catalog

open Lib

variable {key : FenceKey} {c c' : State} {txn : Txn} {op : Op} {reply : Reply} {es : Journal}
  {log : List Int} {e : Entry Request CatalogError Reply} {p : Publication}

def Publication.activeUnder (p : Publication) (key : FenceKey) : Bool :=
  p.tenantId == key.tenantId && p.producer == key.producer && p.isOf key.bundleId .active

def newlyActive (key : FenceKey) (c c' : State) : List Int :=
  (c'.publications.rows.filter fun p => p.activeUnder key &&
    !c.publications.rows.any fun q => q.activeUnder key && q.publicationId == p.publicationId).map
      (·.publicationGeneration)

def activations (key : FenceKey) (c : State) : List Request → List Int
  | [] => []
  | call :: calls =>
    match exec c call with
    | .ok (c', _) => newlyActive key c c' ++ activations key c' calls
    | .error _ => activations key c calls

/-- A write that would activate at once, while a publication of the same key is staged for the next
generation. -/
def Request.overtakes (key : FenceKey) (c : State) (call : Request) : Bool :=
  match call.op, c.bundles.rows key.bundleId with
  | .replaceRelationships write, some bundle =>
    write.producer == key.producer && write.sourceBundleId == key.bundleId &&
      write.expectedCatalogGeneration == bundle.catalogGeneration &&
      c.publications.rows.any fun p => p.tenantId == key.tenantId && p.producer == key.producer &&
        p.attempts key.bundleId (bundle.catalogGeneration + 1)
  | _, _ => false

def neverOvertakes (key : FenceKey) (c : State) : List Request → Bool
  | [] => true
  | call :: calls =>
    !call.overtakes key c &&
      match exec c call with
      | .ok (c', _) => neverOvertakes key c' calls
      | .error _ => neverOvertakes key c calls

theorem activeUnder_iff : p.activeUnder key = true ↔ p.isAt key ∧ p.state = .active := by
  simp [Publication.activeUnder, Publication.isOf, Publication.isAt, and_assoc]

variable {g : Int}

theorem mem_newlyActive : g ∈ newlyActive key c c' ↔ ∃ p ∈ c'.publications.rows,
    p.isAt key ∧ p.state = .active ∧ p.publicationGeneration = g ∧
      ∀ q ∈ c.publications.rows, q.isAt key → q.state = .active → q.publicationId ≠ p.publicationId := by
  simp only [newlyActive, List.mem_map, List.mem_filter, Bool.and_eq_true, activeUnder_iff,
    Bool.not_eq_true',
    List.any_eq_false, beq_iff_eq, not_and]
  constructor
  · rintro ⟨p, ⟨hp, ⟨hat, hactive⟩, hnew⟩, rfl⟩
    exact ⟨p, hp, hat, hactive, rfl, fun q hq hqat hqactive => hnew q hq ⟨hqat, hqactive⟩⟩
  · rintro ⟨p, hp, hat, hactive, rfl, hnew⟩
    exact ⟨p, ⟨hp, ⟨hat, hactive⟩, fun q hq hq' => hnew q hq hq'.1 hq'.2⟩, rfl⟩

/-- A generation that has become active is below the target of the fence or is it; then its
publication is in the ledger, or the fence has long expired. -/
def Below (key : FenceKey) (es : Journal) (c : State) (g : Int) : Prop :=
  ∃ f, c.fences key = some f ∧ g ≤ f.targetGeneration ∧ (g = f.targetGeneration →
    (∃ p ∈ c.publications.rows, p.isAt key ∧ p.publicationGeneration = g) ∨
      ∃ i ∈ Journal.instants es, f.issuedAt + days 16 < i)

structure OrderInv (key : FenceKey) (es : Journal) (c : State) (log : List Int) : Prop where
  sorted : log.Pairwise (· < ·)
  allocated : log ≠ [] → key.bundleId < c.bundles.next
  below : (c.bundles.rows key.bundleId).isSome → ∀ g ∈ log, Below key es c g
  registered : ∀ p ∈ c.publications.rows, p.isAt key → (c.bundles.rows key.bundleId).isSome
  staged : ∀ bundle, c.bundles.rows key.bundleId = some bundle → ∀ p ∈ c.publications.rows, p.isAt key →
    p.state = .staged → p.expectedCatalogGeneration ≤ bundle.catalogGeneration + 1 ∧
      (p.expectedCatalogGeneration = bundle.catalogGeneration + 1 →
        ∀ g ∈ log, g < p.publicationGeneration)

variable {issuedAt : Int}

theorem expired_of_paced {expiresAt now i : Int} (hlease : expiresAt ≤ issuedAt + days 1)
    (hpaced : i ≤ now + days 14) (hlate : issuedAt + days 16 < i) : ¬ now < expiresAt := by
  simp only [days] at *
  omega

theorem aged_of_dated {updatedAt now : Int} (hdated : issuedAt ≤ updatedAt + days 14)
    (haged : updatedAt < now - days 30) : ¬ now ≤ issuedAt + days 16 := by
  simp only [days] at *
  omega

theorem Below.lt_of_written (hkey : KeyInv key es c) (h : Below key es c g)
    (hlater : ∀ i ∈ Journal.instants es, i ≤ txn.now + days 14) {write : RelationshipWrite}
    {checked : CheckedWrite}
    (hchecked : checkedWrite txn c.bundles.rows c.fences write = .ok checked) (hat : checked.key = key)
    (hnone : existingPublication c.publications key write.publicationGeneration = none) :
    g < write.publicationGeneration := by
  obtain ⟨bundle, -, -, hfence, -, hlive, -, htarget, -⟩ := checkedWrite_ok hchecked
  obtain ⟨f, hf, hle, hlast⟩ := h
  rw [hat, hf] at hfence
  obtain rfl := Option.some.inj hfence
  rw [← htarget] at hnone ⊢
  refine lt_of_le_of_ne hle fun heq => ?_
  rcases hlast heq with ⟨p, hp, hpat, hpg⟩ | ⟨i, hi, hexpired⟩
  · exact existingPublication_eq_none hnone hp hpat (hpg.trans heq)
  · exact expired_of_paced (hkey.fence _ hf).1 (hlater i hi) hexpired hlive

inductive Activates (key : FenceKey) (c : State) (txn : Txn) (op : Op) (g : Int) : Prop where
  | won {q : Publication} : op.syncs key.bundleId c = true →
      Newest c.publications key.bundleId (nextGeneration c key.bundleId) q → q.isAt key →
      q.publicationGeneration = g → Activates key c txn op g
  | written {write : RelationshipWrite} {checked : CheckedWrite} : op = .replaceRelationships write →
      checkedWrite txn c.bundles.rows c.fences write = .ok checked → checked.key = key →
      existingPublication c.publications key write.publicationGeneration = none →
      checked.activate = true → write.publicationGeneration = g → Activates key c txn op g

theorem activates_of_newlyActive (h : Does c txn op c' reply) (hg : g ∈ newlyActive key c c') :
    Activates key c txn op g := by
  obtain ⟨p, hp, hat, hactive, rfl, hnew⟩ := mem_newlyActive.mp hg
  cases h.live_at hp hat (by rw [hactive]; decide) with
  | kept hp₀ _ _ => exact absurd rfl (hnew p hp₀ hat hactive)
  | won hsync hnewest => exact .won hsync hnewest hat rfl
  | written hop hchecked hkey hnone =>
    rw [newPublication_state] at hactive
    refine .written hop hchecked hkey hnone ?_ rfl
    split at hactive
    · assumption
    · cases hactive

theorem Activates.unique {g' : Int} (h : Activates key c txn op g) (h' : Activates key c txn op g') :
    g = g' := by
  cases h with
  | won hsync hnewest hat hg =>
    cases h' with
    | won _ hnewest' hat' hg' =>
      rw [← hg, ← hg']
      exact hnewest.generation_eq hnewest' hat hat'
    | written hop' =>
      rw [hop'] at hsync
      cases hsync
  | written hop _ _ _ _ hg =>
    cases h' with
    | won hsync' =>
      rw [hop] at hsync'
      cases hsync'
    | written hop' _ _ _ _ hg' =>
      rw [hop] at hop'
      obtain rfl := Op.replaceRelationships.inj hop'
      exact hg.symm.trans hg'

theorem newlyActive_sorted (hkey' : KeyInv key es c') (h : Does c txn op c' reply) :
    (newlyActive key c c').Pairwise (· < ·) := by
  have hgeneration : ∀ g ∈ newlyActive key c c', ∀ g' ∈ newlyActive key c c', g = g' :=
    fun g hg g' hg' =>
    (activates_of_newlyActive h hg).unique (activates_of_newlyActive h hg')
  refine List.pairwise_map.mpr ((c'.publications.ordered.filter _).imp_of_mem fun hp hp' hlt => ?_)
  rename_i p p'
  -- Two rows of one generation are the same row, and the ids of the ledger are distinct.
  have hg := hgeneration _ (List.mem_map_of_mem hp) _ (List.mem_map_of_mem hp')
  simp only [List.mem_filter, Bool.and_eq_true, activeUnder_iff] at hp hp'
  obtain rfl := hkey'.unique p hp.1 p' hp'.1 hp.2.1.1 hp'.2.1.1 hg
  exact absurd hlt (lt_irrefl _)

theorem Below.step (hkey : KeyInv key es c) (h : Below key es c g)
    (hdoes : Does c e.call.txn e.call.op c' reply) (hop : e.call.op ≠ .unregisterBundle key.bundleId) :
    Below key (es ++ [e]) c' g := by
  obtain ⟨f, hf, hle, hlast⟩ := h
  -- While the fence is the same issuance, only age takes its publication out of the ledger.
  have hstays : g = f.targetGeneration →
      (∃ p ∈ c'.publications.rows, p.isAt key ∧ p.publicationGeneration = g) ∨
        ∃ i ∈ Journal.instants (es ++ [e]), f.issuedAt + days 16 < i := by
    intro heq
    rcases hlast heq with ⟨p, hp, hat, hg⟩ | ⟨i, hi, hlate⟩
    · rcases hdoes.forth hp with haged | ⟨p', hp', hd⟩
      · obtain ⟨f', hf', -, hdated⟩ := hkey.written p hp hat
        obtain rfl := Option.some.inj (hf.symm.trans hf')
        refine .inr ⟨e.call.txn.now, by simp [Journal.instants], ?_⟩
        exact Int.not_le.mp fun hyoung => aged_of_dated (hdated (hg.trans heq)) haged hyoung
      · exact .inl ⟨p', hp', hd.stays_at hop hat, hd.generation.trans hg⟩
    · refine .inr ⟨i, ?_, hlate⟩
      simp only [Journal.instants, List.map_append, List.mem_append]
      exact .inl hi
  have hchange := hdoes.fence_at hop
  rw [hf] at hchange
  generalize hslot : c'.fences key = slot at hchange
  cases hchange with
  | same => exact ⟨f, hslot, hle, hstays⟩
  | release => exact ⟨_, hslot, hle, hstays⟩
  | issue _ _ hadvance =>
    have hlt := lt_of_le_of_lt hle (hadvance f rfl).2
    exact ⟨_, hslot, le_of_lt hlt, fun heq => absurd heq (ne_of_lt hlt)⟩

theorem Activates.above {g' : Int} (hkey : KeyInv key es c) (hinv : OrderInv key es c log)
    (hlater : ∀ i ∈ Journal.instants es, i ≤ txn.now + days 14) (h : Activates key c txn op g')
    (hg : g ∈ log) :
    g < g' := by
  cases h with
  | won hsync hnewest hat hg' =>
    obtain ⟨bundle, hbundle⟩ := Option.isSome_iff_exists.mp (hinv.registered _ hnewest.mem hat)
    have hnext : nextGeneration c key.bundleId = bundle.catalogGeneration + 1 := by
      simp [nextGeneration, hbundle]
    rw [← hg']
    exact (hinv.staged bundle hbundle _ hnewest.mem hat hnewest.staged).2
      (hnewest.expected.trans hnext) g hg
  | written hop hchecked hat hnone hactive hg' =>
    obtain ⟨bundle, hbundle, hcheckedKey, -⟩ := checkedWrite_ok hchecked
    have hregistered : (c.bundles.rows key.bundleId).isSome := by
      rw [← hat, hcheckedKey]
      simp [hbundle]
    rw [← hg']
    exact (hinv.below hregistered g hg).lt_of_written hkey hlater hchecked hat hnone

theorem staged_step (hkey : KeyInv key es c) (hinv : OrderInv key es c log)
    (hdoes : Does c e.call.txn e.call.op c' reply)
    (hlater : ∀ i ∈ Journal.instants es, i ≤ e.call.txn.now + days 14)
    (hnot : e.call.overtakes key c = false) (hop : e.call.op ≠ .unregisterBundle key.bundleId)
    {bundle' : BundleRow} (hbundle' : c'.bundles.rows key.bundleId = some bundle')
    (hp : p ∈ c'.publications.rows) (hat : p.isAt key) (hstaged : p.state = .staged) :
    p.expectedCatalogGeneration ≤ bundle'.catalogGeneration + 1 ∧
      (p.expectedCatalogGeneration = bundle'.catalogGeneration + 1 →
        ∀ g ∈ log ++ newlyActive key c c', g < p.publicationGeneration) := by
  cases hdoes.live_at hp hat (by rw [hstaged]; decide) with
  | kept hp hsynced _ =>
    obtain ⟨bundle, hbundle⟩ := Option.isSome_iff_exists.mp (hinv.registered p hp hat)
    obtain ⟨_, hb, hgeneration⟩ := hdoes.generationStep hop hbundle
    obtain rfl := Option.some.inj (hb.symm.trans hbundle')
    obtain ⟨hle, hbelow⟩ := hinv.staged bundle hbundle p hp hat hstaged
    have hmono := hgeneration.le
    refine ⟨by omega, fun hexpected => ?_⟩
    have hnext : p.expectedCatalogGeneration = bundle.catalogGeneration + 1 := by omega
    have hnone : newlyActive key c c' = [] := by
      refine List.eq_nil_iff_forall_not_mem.mpr fun g hg => ?_
      cases activates_of_newlyActive hdoes hg with
      | won hsync hnewest _ _ =>
        obtain ⟨-, hlt⟩ := hsynced hsync
        simp only [nextGeneration, hbundle, Option.elim_some] at hlt
        omega
      | written hwrite hchecked hcheckedAt _ hactive _ =>
        obtain ⟨_, hrow, hcheckedKey, -, -, -, -, -, hmode, -⟩ := checkedWrite_ok hchecked
        rw [hcheckedAt] at hcheckedKey
        subst hcheckedKey
        obtain rfl := Option.some.inj (hrow.symm.trans hbundle)
        refine absurd ?_ (Bool.eq_false_iff.mp hnot)
        simp only [Request.overtakes, hwrite, hrow, Bool.and_eq_true, beq_self_eq_true, true_and,
          beq_iff_eq,
          List.any_eq_true]
        refine ⟨activationMode_eq_true (hactive ▸ hmode), p, hp, ⟨hat.1, hat.2.1⟩, ?_⟩
        exact attempts_iff.mpr ⟨hat.2.2, hstaged, hnext⟩
    rw [hnone, List.append_nil]
    exact hbelow hnext
  | won => cases hstaged
  | written hwrite hchecked hcheckedAt hnone =>
    obtain ⟨bundle, hrow, hcheckedKey, -, -, -, -, -, hmode, -⟩ := checkedWrite_ok hchecked
    have hbundle : c.bundles.rows key.bundleId = some bundle := by
      rw [← hcheckedAt, hcheckedKey]
      exact hrow
    obtain ⟨_, hb, hgeneration⟩ := hdoes.generationStep hop hbundle
    obtain rfl := Option.some.inj (hb.symm.trans hbundle')
    obtain rfl := hgeneration.same (by rw [hwrite]; rfl) (by rw [hwrite]; rfl)
    rw [newPublication_state] at hstaged
    split at hstaged
    · cases hstaged
    rename_i hactivate
    have hexpected := activationMode_eq_false (Bool.eq_false_iff.mpr hactivate ▸ hmode)
    refine ⟨le_of_eq hexpected, fun _ g hg => ?_⟩
    rcases List.mem_append.mp hg with hg | hg
    · exact (hinv.below (by simp [hbundle]) g hg).lt_of_written hkey hlater hchecked hcheckedAt hnone
    · cases activates_of_newlyActive hdoes hg with
      | won hsync =>
        rw [hwrite] at hsync
        cases hsync
      | written hwrite' hchecked' _ _ hactive _ =>
        obtain rfl := Op.replaceRelationships.inj (hwrite.symm.trans hwrite')
        obtain rfl := Except.ok.inj (hchecked.symm.trans hchecked')
        exact absurd hactive hactivate

theorem orderInv_does (hkey : KeyInv key es c) (hinv : OrderInv key es c log)
    (hdoes : Does c e.call.txn e.call.op c' reply)
    (hlater : ∀ i ∈ Journal.instants es, i ≤ e.call.txn.now + days 14)
    (hnot : e.call.overtakes key c = false) :
    OrderInv key (es ++ [e]) c' (log ++ newlyActive key c c') := by
  have hkey' := keyInv_does hkey hdoes hlater
  have hgone : ∀ {p : Publication}, p ∈ c'.publications.rows → p.isAt key →
      e.call.op ≠ .unregisterBundle key.bundleId := by
    intro p hp hat hop
    rw [hop] at hdoes
    exact (not_isAt_of_unregistered hdoes).1 p hp hat
  have hregistered := hdoes.registered hinv.registered
  -- A bundle that is there after the call and has activations was there before it, and the call kept it.
  have hstood : (c'.bundles.rows key.bundleId).isSome → log ≠ [] →
      (c.bundles.rows key.bundleId).isSome ∧ e.call.op ≠ .unregisterBundle key.bundleId := by
    intro hafter hlog
    refine ⟨?_, ?_⟩
    · by_contra hnone
      have hnone := Option.not_isSome_iff_eq_none.mp hnone
      simp [(hdoes.stays_gone hnone (hinv.allocated hlog)).1] at hafter
    · intro hop
      rw [hop] at hdoes
      simp [(gone_of_unregistered hdoes).1] at hafter
  refine ⟨?_, fun hlog => ?_, fun hafter g hg => ?_, hregistered, ?_⟩
  · refine List.pairwise_append.mpr ⟨hinv.sorted, newlyActive_sorted hkey' hdoes, fun g hg g' hg' => ?_⟩
    exact (activates_of_newlyActive hdoes hg').above hkey hinv hlater hg
  · by_cases hafter : (c'.bundles.rows key.bundleId).isSome
    · exact c'.bundles.allocated _ hafter
    have hlog₀ : log ≠ [] := by
      rintro rfl
      obtain ⟨g, hg⟩ := List.exists_mem_of_ne_nil _ hlog
      obtain ⟨p, hp, hat, -⟩ := mem_newlyActive.mp (by simpa using hg)
      exact hafter (hregistered p hp hat)
    by_cases hop : e.call.op = .unregisterBundle key.bundleId
    · rw [hop] at hdoes
      exact (gone_of_unregistered hdoes).2
    · cases hbefore : c.bundles.rows key.bundleId with
      | none => exact (hdoes.stays_gone hbefore (hinv.allocated hlog₀)).2
      | some bundle =>
        obtain ⟨bundle', hbundle', -⟩ := hdoes.generationStep hop hbefore
        exact absurd (by simp [hbundle']) hafter
  · rcases List.mem_append.mp hg with hg | hg
    · obtain ⟨hbefore, hop⟩ := hstood hafter (List.ne_nil_of_mem hg)
      exact (hinv.below hbefore g hg).step hkey hdoes hop
    · obtain ⟨p, hp, hat, -, rfl, -⟩ := mem_newlyActive.mp hg
      obtain ⟨f, hf, hle, -⟩ := hkey'.written p hp hat
      exact ⟨f, hf, hle, fun _ => .inl ⟨p, hp, hat, rfl⟩⟩
  · intro bundle' hbundle' p hp hat hstaged
    exact staged_step hkey hinv hdoes hlater hnot (hgone hp hat) hbundle' hp hat hstaged

theorem OrderInv.refused (h : OrderInv key es c log) : OrderInv key (es ++ [e]) c log := by
  refine ⟨h.sorted, h.allocated, fun hregistered g hg => ?_, h.registered, h.staged⟩
  obtain ⟨f, hf, hle, hlast⟩ := h.below hregistered g hg
  refine ⟨f, hf, hle, fun heq => (hlast heq).imp_right ?_⟩
  rintro ⟨i, hi, hlate⟩
  exact ⟨i, by simp only [Journal.instants, List.map_append, List.mem_append]; exact .inl hi, hlate⟩

theorem orderInv_empty : OrderInv key [] .empty [] where
  sorted := .nil
  allocated h := absurd rfl h
  below _ _ hg := absurd hg List.not_mem_nil
  registered _ hp := absurd hp List.not_mem_nil
  staged _ _ _ hp := absurd hp List.not_mem_nil

theorem activations_sorted {calls : List Request} (hkey : KeyInv key es c) (hinv : OrderInv key es c log)
    (hpaced : Paced (Journal.instants es ++ calls.map (·.txn.now)))
    (hnever : neverOvertakes key c calls = true) :
      (log ++ activations key c calls).Pairwise (· < ·) := by
  induction calls generalizing es c log with
  | nil =>
    rw [activations, List.append_nil]
    exact hinv.sorted
  | cons call calls ih =>
    simp only [neverOvertakes, Bool.and_eq_true, Bool.not_eq_true'] at hnever
    obtain ⟨hnot, hnever⟩ := hnever
    -- The pacing of the calls, read at the journal that this call extends.
    have hnext : ∀ e : Entry Request CatalogError Reply, e.call = call →
        Paced (Journal.instants (es ++ [e]) ++ calls.map (·.txn.now)) ∧
          Paced (Journal.instants (es ++ [e])) := by
      rintro e rfl
      have hsame : Journal.instants (es ++ [e]) ++ calls.map (·.txn.now) =
          Journal.instants es ++ (e.call :: calls).map (·.txn.now) := by
        simp [Journal.instants]
      rw [hsame]
      refine ⟨hpaced, ?_⟩
      rw [← hsame] at hpaced
      exact (List.pairwise_append.mp hpaced).1
    cases hexec : exec c call with
    | ok result =>
      obtain ⟨c', reply⟩ := result
      rw [hexec] at hnever
      obtain ⟨hrest, hsoFar⟩ := hnext ⟨call, .ok reply⟩ rfl
      have hlater : ∀ i ∈ Journal.instants es, i ≤ call.txn.now + days 14 := by
        intro i hi
        refine (List.pairwise_append.mp hpaced).2.2 i hi _ ?_
        simp
      have hstep := orderInv_does hkey hinv (e := ⟨call, .ok reply⟩) (exec_does hexec) hlater hnot
      have hsorted := ih (keyInv_step hkey (.commit hexec) hsoFar) hstep hrest hnever
      rw [List.append_assoc] at hsorted
      rw [activations, hexec]
      exact hsorted
    | error error =>
      rw [hexec] at hnever
      obtain ⟨hrest, hsoFar⟩ := hnext ⟨call, .error error⟩ rfl
      rw [activations, hexec]
      exact ih (keyInv_step hkey (.refuse hexec) hsoFar) hinv.refused hrest hnever

/-- The publications of a producer become active with increasing generations, unless a call
publishes at once over one staged for the next generation. -/
theorem activations_increase (key : FenceKey) (calls : List Request)
    (hpaced : Paced (calls.map (·.txn.now))) (hnever : neverOvertakes key .empty calls = true) :
    (activations key .empty calls).Pairwise (· < ·) :=
  activations_sorted (keyInv_run (.start _) .nil) orderInv_empty hpaced hnever

def sampleKey : FenceKey := ⟨"default", ['p'], 1⟩

def stagedThenSynced : List Request :=
  [.byAdmin 0 (.registerBundle ⟨[], [], .default⟩),
    .byAdmin 10 (.issueFence 1 ['p'] 5 1 none 60), .byAdmin 20 (publication 5 1 1),
    .byAdmin 30 (.issueFence 1 ['p'] 6 1 none 60), .byAdmin 40 (publication 6 2 2),
    .byAdmin 50 (.syncBundle 1 ⟨[], [], .default⟩)]

def stagedThenOvertaken : List Request :=
  [.byAdmin 0 (.registerBundle ⟨[], [], .default⟩),
    .byAdmin 10 (.issueFence 1 ['p'] 5 1 none 60), .byAdmin 20 (publication 5 1 2),
    .byAdmin 30 (.issueFence 1 ['p'] 6 1 none 60), .byAdmin 40 (publication 6 2 1),
    .byAdmin 50 (.syncBundle 1 ⟨[], [], .default⟩)]

theorem activations_increase_sync :
    activations sampleKey .empty stagedThenSynced = [5, 6] ∧
      (activations sampleKey .empty stagedThenSynced).Pairwise (· < ·) :=
  ⟨by decide, activations_increase _ _ (by decide) (by decide)⟩

/-- The sync activates the older attempt after the newer one, which it supersedes. -/
theorem overtaken_attempt_activated :
    Paced (stagedThenOvertaken.map (·.txn.now)) ∧
      activations sampleKey .empty stagedThenOvertaken = [6, 5] := by
  decide

end Pgokf.Catalog
