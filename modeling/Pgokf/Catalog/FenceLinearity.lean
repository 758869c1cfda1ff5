import Pgokf.Catalog.Steps

/-! # Publication fences are linear

The fences of one slot have increasing tokens and targets, and only the last, unreleased and
unexpired, can be released or used. -/

namespace Pgokf.Catalog

open Lib

/- A bundle has one tenant, so its slots are told apart by their producers. -/
variable {b : BundleId} {producer : Text} {es : Journal} {e : Entry Request CatalogError Reply}
  {c₀ c c' : State}

def issued (b : BundleId) (producer : Text) (e : Entry Request CatalogError Reply) : Option Fence :=
  match e.call.op, e.result with
  | .issueFence b' producer' .., .ok (.fence fence) =>
    if b' = b ∧ producer' = producer then some fence else none
  | _, _ => none

def released (b : BundleId) (producer : Text) (e : Entry Request CatalogError Reply) : Option Int :=
  match e.call.op, e.result with
  | .releaseFence b' producer' token, .ok _ =>
    if b' = b ∧ producer' = producer then some token else none
  | _, _ => none

def written (b : BundleId) (producer : Text) (e : Entry Request CatalogError Reply) :
    Option (Int × Int) :=
  match e.call.op, e.result with
  | .replaceRelationships write, .ok _ =>
    if write.sourceBundleId = b ∧ write.producer = producer then
      some (write.fencingToken, write.publicationGeneration)
    else none
  | _, _ => none

def issuances (b : BundleId) (producer : Text) (es : Journal) : List Fence :=
  es.filterMap (issued b producer)

def releases (b : BundleId) (producer : Text) (es : Journal) : List Int :=
  es.filterMap (released b producer)

/-- `fence` is the slot's most recent issuance, and it has not been released since. -/
def Held (b : BundleId) (producer : Text) (es : Journal) (fence : Fence) : Prop :=
  ∃ before i after, es = before ++ i :: after ∧ issued b producer i = some fence ∧
    ∀ j ∈ after, issued b producer j = none ∧ released b producer j = none

variable {fence : Fence}

theorem Held.snoc (h : Held b producer es fence) (hi : issued b producer e = none)
    (hr : released b producer e = none) :
    Held b producer (es ++ [e]) fence := by
  obtain ⟨before, i, after, rfl, hfence, hafter⟩ := h
  refine ⟨before, i, after ++ [e], by simp, hfence, ?_⟩
  intro j hj
  obtain hj | hj := List.mem_append.mp hj
  · exact hafter j hj
  · rw [List.mem_singleton.mp hj]
    exact ⟨hi, hr⟩

structure Tracks (b : BundleId) (producer : Text) (es : Journal) (slot : Fence) : Prop where
  issued_le : ∀ f ∈ issuances b producer es,
    f.fencingToken ≤ slot.fencingToken ∧ f.targetGeneration ≤ slot.targetGeneration
  released_le : ∀ token ∈ releases b producer es, token ≤ slot.fencingToken
  /- While the row says `issued` it is the last issuance itself, not released yet. -/
  held : slot.state = .issued → Held b producer es slot ∧
    ∀ token ∈ releases b producer es, token < slot.fencingToken

inductive SlotStatus (b : BundleId) (producer : Text) (es : Journal) (c : State) : Prop where
  | unused : (∀ tenant, c.fences ⟨tenant, producer, b⟩ = none) → issuances b producer es = [] →
      releases b producer es = [] → SlotStatus b producer es c
  | gone : c.bundles.rows b = none → b < c.bundles.next → SlotStatus b producer es c
  | slot {row : BundleRow} {slot : Fence} : c.bundles.rows b = some row →
      c.fences ⟨row.tenantId, producer, b⟩ = some slot → Tracks b producer es slot →
      SlotStatus b producer es c

structure SlotInv (b : BundleId) (producer : Text) (es : Journal) (c : State) : Prop where
  issuances_increase : (issuances b producer es).Pairwise fun f g =>
    f.fencingToken < g.fencingToken ∧ f.targetGeneration < g.targetGeneration
  releases_increase : (releases b producer es).Pairwise (· < ·)
  status : SlotStatus b producer es c

theorem issuances_snoc (b : BundleId) (producer : Text) (es : Journal)
    (e : Entry Request CatalogError Reply) :
    issuances b producer (es ++ [e]) = issuances b producer es ++ (issued b producer e).toList := by
  cases h : issued b producer e <;> simp [issuances, h]

theorem releases_snoc (b : BundleId) (producer : Text) (es : Journal)
    (e : Entry Request CatalogError Reply) :
    releases b producer (es ++ [e]) = releases b producer es ++ (released b producer e).toList := by
  cases h : released b producer e <;> simp [releases, h]

theorem SlotInv.frame (h : SlotInv b producer es c) (hi : issued b producer e = none)
    (hr : released b producer e = none) (hkeep : KeepsTenant b c.bundles c'.bundles)
    (hgone : c.bundles.rows b = none → b < c.bundles.next →
      c'.bundles.rows b = none ∧ b < c'.bundles.next)
    (hfences : ∀ tenant, c'.fences ⟨tenant, producer, b⟩ = c.fences ⟨tenant, producer, b⟩) :
    SlotInv b producer (es ++ [e]) c' := by
  have his : issuances b producer (es ++ [e]) = issuances b producer es := by
    simp [issuances_snoc, hi]
  have hrs : releases b producer (es ++ [e]) = releases b producer es := by
    simp [releases_snoc, hr]
  refine ⟨his ▸ h.issuances_increase, hrs ▸ h.releases_increase, ?_⟩
  cases h.status with
  | unused hnone hno hnr =>
    exact .unused (fun tenant => (hfences tenant).trans (hnone tenant)) (his ▸ hno) (hrs ▸ hnr)
  | gone hrow hlt =>
    obtain ⟨hrow', hlt'⟩ := hgone hrow hlt
    exact .gone hrow' hlt'
  | slot hrow hslot htracks =>
    obtain ⟨row', hrow', htenant⟩ := hkeep.2 _ hrow
    refine .slot hrow' (by rw [htenant, hfences]; exact hslot) ?_
    refine ⟨his ▸ htracks.issued_le, hrs ▸ htracks.released_le, fun hstate => ?_⟩
    exact ⟨(htracks.held hstate).1.snoc hi hr, hrs ▸ (htracks.held hstate).2⟩

variable {txn : Txn} {fences : FenceTable}

theorem issue_inv {target expected lease : Int} {manifest : Option Text} (h : SlotInv b producer es c)
    (hissue : Catalog.issueFence txn c.bundles.rows c.fences b producer target expected manifest lease =
      .ok (fences, fence)) (hi : issued b producer e = some fence) (hr : released b producer e = none) :
    SlotInv b producer (es ++ [e]) { c with fences } := by
  obtain ⟨bundle, hbundle, rfl, hstate, hadvance⟩ := issueFence_ok hissue
  have his : issuances b producer (es ++ [e]) = issuances b producer es ++ [fence] := by
    simp [issuances_snoc, hi]
  have hrs : releases b producer (es ++ [e]) = releases b producer es := by simp [releases_snoc, hr]
  -- The new fence lies above everything issued or released on the slot so far.
  have habove : (∀ f ∈ issuances b producer es,
      f.fencingToken < fence.fencingToken ∧ f.targetGeneration < fence.targetGeneration) ∧
      ∀ token ∈ releases b producer es, token < fence.fencingToken := by
    cases h.status with
    | unused _ hno hnr => simp [hno, hnr]
    | gone hrow => simp [hrow] at hbundle
    | slot hrow hslot htracks =>
      obtain rfl : bundle = _ := Option.some.inj (hbundle.symm.trans hrow)
      obtain ⟨htoken, htarget⟩ := hadvance _ hslot
      refine ⟨fun f hf => ?_, fun token ht => lt_of_le_of_lt (htracks.released_le token ht) htoken⟩
      obtain ⟨hle, hle'⟩ := htracks.issued_le f hf
      exact ⟨lt_of_le_of_lt hle htoken, lt_of_le_of_lt hle' htarget⟩
  refine ⟨?_, hrs ▸ h.releases_increase, .slot hbundle (Function.update_self ..) ?_⟩
  · rw [his]
    refine List.pairwise_append.mpr ⟨h.issuances_increase, List.pairwise_singleton _ _, ?_⟩
    intro f hf g hg
    rw [List.mem_singleton.mp hg]
    exact habove.1 f hf
  · refine ⟨?_, fun token ht => le_of_lt (habove.2 token (hrs ▸ ht)), fun _ => ⟨?_, hrs ▸ habove.2⟩⟩
    · intro f hf
      rw [his] at hf
      obtain hf | hf := List.mem_append.mp hf
      · exact ⟨le_of_lt (habove.1 f hf).1, le_of_lt (habove.1 f hf).2⟩
      · rw [List.mem_singleton.mp hf]
        exact ⟨le_rfl, le_rfl⟩
    · exact ⟨es, e, [], rfl, hi, by simp⟩

variable {token : Int}

theorem release_held (h : SlotInv b producer es c)
    (hrelease : Catalog.releaseFence txn c.bundles.rows c.fences b producer token = .ok fences) :
    ∃ row slot, c.bundles.rows b = some row ∧ slot.fencingToken = token ∧ slot.state = .issued ∧
      txn.now < slot.expiresAt ∧ Tracks b producer es slot ∧
      fences = Function.update c.fences ⟨row.tenantId, producer, b⟩
        (some { slot with state := .released }) := by
  obtain ⟨bundle, slot, hbundle, hslot, htoken, hstate, hlive, rfl⟩ := releaseFence_ok hrelease
  refine ⟨bundle, slot, hbundle, htoken, hstate, hlive, ?_, rfl⟩
  cases h.status with
  | unused hnone => simp [hnone] at hslot
  | gone hrow => simp [hrow] at hbundle
  | slot hrow hslot' htracks =>
    obtain rfl : bundle = _ := Option.some.inj (hbundle.symm.trans hrow)
    obtain rfl : slot = _ := Option.some.inj (hslot.symm.trans hslot')
    exact htracks

theorem release_inv (h : SlotInv b producer es c)
    (hrelease : Catalog.releaseFence txn c.bundles.rows c.fences b producer token = .ok fences)
    (hi : issued b producer e = none) (hr : released b producer e = some token) :
    SlotInv b producer (es ++ [e]) { c with fences } := by
  obtain ⟨row, slot, hrow, rfl, hstate, -, htracks, rfl⟩ := release_held h hrelease
  have his : issuances b producer (es ++ [e]) = issuances b producer es := by
    simp [issuances_snoc, hi]
  have hrs : releases b producer (es ++ [e]) = releases b producer es ++ [slot.fencingToken] := by
    simp [releases_snoc, hr]
  have hbelow := (htracks.held hstate).2
  refine ⟨his ▸ h.issuances_increase, ?_, .slot hrow (Function.update_self ..) ?_⟩
  · rw [hrs]
    refine List.pairwise_append.mpr ⟨h.releases_increase, List.pairwise_singleton _ _, ?_⟩
    intro t ht u hu
    rw [List.mem_singleton.mp hu]
    exact hbelow t ht
  · refine ⟨his ▸ htracks.issued_le, ?_, by simp⟩
    intro t ht
    rw [hrs] at ht
    obtain ht | ht := List.mem_append.mp ht
    · exact le_of_lt (hbelow t ht)
    · exact le_of_eq (List.mem_singleton.mp ht)

theorem quiet_of_refused {error : CatalogError} (h : e.result = .error error) :
    issued b producer e = none ∧ released b producer e = none := by
  obtain ⟨⟨txn, committedAt, op⟩, result⟩ := e
  subst h
  cases op <;> exact ⟨rfl, rfl⟩

theorem quiet_of_other (h : e.call.op.writesFences = false) :
    issued b producer e = none ∧ released b producer e = none := by
  obtain ⟨⟨txn, committedAt, op⟩, result⟩ := e
  cases op <;> first | exact ⟨rfl, rfl⟩ | simp [Op.writesFences] at h

theorem slot_step (h : SlotInv b producer es c) (hs : Step exec c e c') :
    SlotInv b producer (es ++ [e]) c' := by
  obtain ⟨reply, hresult, hdoes⟩ | ⟨⟨error, hresult⟩, rfl⟩ := step_does hs
  · by_cases hop : e.call.op.writesFences = true
    · obtain ⟨⟨txn, committedAt, op⟩, result⟩ := e
      subst hresult
      cases hdoes with
      | @issueFence b' producer' target expected manifest lease fences fence hissue =>
        by_cases hslot : b' = b ∧ producer' = producer
        · obtain ⟨rfl, rfl⟩ := hslot
          exact issue_inv h hissue (by simp [issued]) rfl
        · obtain ⟨bundle, -, rfl, -⟩ := issueFence_ok hissue
          refine h.frame (by simp [issued, hslot]) rfl (.refl _ _) (fun h₁ h₂ => ⟨h₁, h₂⟩) ?_
          intro tenant
          exact Function.update_of_ne (by rintro ⟨⟩; exact hslot ⟨rfl, rfl⟩) _ _
      | @releaseFence b' producer' token fences hrelease =>
        by_cases hslot : b' = b ∧ producer' = producer
        · obtain ⟨rfl, rfl⟩ := hslot
          exact release_inv h hrelease rfl (by simp [released])
        · obtain ⟨bundle, slot, -, -, -, -, -, rfl⟩ := releaseFence_ok hrelease
          refine h.frame rfl (by simp [released, hslot]) (.refl _ _) (fun h₁ h₂ => ⟨h₁, h₂⟩) ?_
          intro tenant
          exact Function.update_of_ne (by rintro ⟨⟩; exact hslot ⟨rfl, rfl⟩) _ _
      | @unregisterBundle b' _ hunregister =>
        have hdoes : Does c txn (.unregisterBundle b') c' .done := .unregisterBundle hunregister
        obtain ⟨bundle, recorded, hbundle, -, rfl⟩ := unregisterBundle_ok hunregister
        by_cases hb : b' = b
        · subst hb
          -- The slot's bundle leaves: nothing can be issued or released on it any more.
          exact ⟨by simpa [issuances_snoc, issued] using h.issuances_increase,
            by simpa [releases_snoc, released] using h.releases_increase,
            .gone (Function.update_self ..) (c.bundles.allocated b' (by simp [hbundle]))⟩
        · exact h.frame rfl rfl (hdoes.keepsTenant (by simpa using hb)) (hdoes.stays_gone)
            fun tenant => by simp [Ne.symm hb]
      | _ => simp [Op.writesFences] at hop
    · have hop : e.call.op.writesFences = false := by simpa using hop
      have hkeep : KeepsTenant b c.bundles c'.bundles :=
        hdoes.keepsTenant (by rintro hop'; simp [hop', Op.writesFences] at hop)
      exact h.frame (quiet_of_other hop).1 (quiet_of_other hop).2 hkeep hdoes.stays_gone
        fun tenant => by rw [hdoes.fences_eq hop]
  · exact h.frame (quiet_of_refused hresult).1 (quiet_of_refused hresult).2 (.refl _ _)
      (fun h₁ h₂ => ⟨h₁, h₂⟩) fun _ => rfl

theorem slot_run (h₀ : ∀ tenant, c₀.fences ⟨tenant, producer, b⟩ = none) (h : CatalogRun c₀ es c) :
    SlotInv b producer es c :=
  h.history_invariant ⟨.nil, .nil, .unused h₀ rfl rfl⟩ fun _ _ _ _ => slot_step

theorem step_release (h : SlotInv b producer es c) (hs : Step exec c e c')
    (hr : released b producer e = some token) :
    ∃ fence, Held b producer es fence ∧ fence.fencingToken = token ∧
      e.call.txn.now < fence.expiresAt := by
  obtain ⟨reply, hresult, hdoes⟩ | ⟨⟨error, hresult⟩, -⟩ := step_does hs
  · obtain ⟨⟨txn, committedAt, op⟩, result⟩ := e
    subst hresult
    cases hdoes with
    | @releaseFence b' producer' token' fences hrelease =>
      by_cases hslot : b' = b ∧ producer' = producer
      · obtain ⟨rfl, rfl⟩ := hslot
        obtain rfl : token' = token := by simpa [released] using hr
        obtain ⟨row, slot, -, htoken, hstate, hlive, htracks, -⟩ := release_held h hrelease
        exact ⟨slot, (htracks.held hstate).1, htoken, hlive⟩
      · simp [released, hslot] at hr
    | _ => simp [released] at hr
  · simp [quiet_of_refused hresult] at hr

theorem step_write (h : SlotInv b producer es c) (hs : Step exec c e c') {generation : Int}
    (hw : written b producer e = some (token, generation)) :
    ∃ fence, Held b producer es fence ∧ fence.fencingToken = token ∧
      fence.targetGeneration = generation ∧ e.call.txn.now < fence.expiresAt := by
  obtain ⟨reply, hresult, hdoes⟩ | ⟨⟨error, hresult⟩, -⟩ := step_does hs
  · obtain ⟨⟨txn, committedAt, op⟩, result⟩ := e
    subst hresult
    cases hdoes with
    | @replaceRelationships write published hwrite =>
      by_cases hslot : write.sourceBundleId = b ∧ write.producer = producer
      · obtain ⟨bundle, fence, hbundle, hfence, hstate, hlive, htoken, htarget, -⟩ :=
          replaceRelationships_ok hwrite
        obtain ⟨rfl, rfl⟩ : write.fencingToken = token ∧ write.publicationGeneration = generation := by
          simpa [written, hslot] using hw
        obtain ⟨rfl, rfl⟩ := hslot
        refine ⟨fence, ?_, htoken, htarget, hlive⟩
        cases h.status with
        | unused hnone => simp [hnone] at hfence
        | gone hrow => simp [hrow] at hbundle
        | slot hrow hslot htracks =>
          obtain rfl : bundle = _ := Option.some.inj (hbundle.symm.trans hrow)
          obtain rfl : fence = _ := Option.some.inj (hfence.symm.trans hslot)
          exact (htracks.held hstate).1
      · simp [written, hslot] at hw
    | _ => simp [written] at hw
  · obtain ⟨⟨txn, committedAt, op⟩, result⟩ := e
    subst hresult
    cases op <;> simp [written] at hw

/-- Over a whole run, from a slot without a row: issued tokens and targets increase strictly, no
token is released twice, and every accepted release or write was made with the last issuance, before
its release and its expiry. -/
theorem fence_linearity (h₀ : ∀ tenant, c₀.fences ⟨tenant, producer, b⟩ = none)
    (h : CatalogRun c₀ es c) :
    ((issuances b producer es).Pairwise fun f g =>
      f.fencingToken < g.fencingToken ∧ f.targetGeneration < g.targetGeneration) ∧
    (releases b producer es).Nodup ∧
    ∀ before e after, es = before ++ e :: after →
      (∀ token, released b producer e = some token → ∃ fence, Held b producer before fence ∧
        fence.fencingToken = token ∧ e.call.txn.now < fence.expiresAt) ∧
      ∀ token generation, written b producer e = some (token, generation) →
        ∃ fence, Held b producer before fence ∧ fence.fencingToken = token ∧
          fence.targetGeneration = generation ∧ e.call.txn.now < fence.expiresAt := by
  have hinv := slot_run h₀ h
  refine ⟨hinv.issuances_increase, hinv.releases_increase.imp (fun hlt => ne_of_lt hlt), ?_⟩
  rintro before e after rfl
  obtain ⟨c₁, hbefore, hafter⟩ := Run.append_iff.mp h
  obtain ⟨c₂, hstep, -⟩ := Run.cons_iff.mp hafter
  have hinv₁ := slot_run h₀ hbefore
  exact ⟨fun token hr => step_release hinv₁ hstep hr, fun token generation hw =>
    step_write hinv₁ hstep hw⟩

def reissuedSlot : List Request :=
  let write : RelationshipWrite := ⟨['p'], 1, 7, 1, 2, .ok (), fun _ => .ok ⟨['h'], 0⟩⟩
  [.byAdmin 0 (.registerBundle ⟨[], [], .default⟩),
    .byAdmin 10 (.issueFence 1 ['p'] 5 1 none 60),
    .byAdmin 20 (.issueFence 1 ['p'] 7 1 none 60),
    .byAdmin 30 (.releaseFence 1 ['p'] 1),
    .byAdmin 40 (.replaceRelationships write),
    .byAdmin 50 (.releaseFence 1 ['p'] 2),
    .byAdmin 60 (.releaseFence 1 ['p'] 2)]

theorem fence_linearity_reissued :
    let es := (play exec .empty reissuedSlot).2
    (issuances 1 ['p'] es).map (·.fencingToken) = [1, 2] ∧ releases 1 ['p'] es = [2] ∧
      es.filterMap (written 1 ['p']) = [(2, 7)] ∧
      ((issuances 1 ['p'] es).Pairwise fun f g =>
        f.fencingToken < g.fencingToken ∧ f.targetGeneration < g.targetGeneration) := by
  refine ⟨by decide, by decide, by decide, ?_⟩
  exact (fence_linearity (fun _ => rfl) (play_run exec .empty reissuedSlot)).1

end Pgokf.Catalog
