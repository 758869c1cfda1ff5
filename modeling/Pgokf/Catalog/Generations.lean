import Pgokf.Catalog.Delivery

/-! # The generations of a bundle and the events that announce them -/

namespace Pgokf.Catalog

open Lib

def State.generation (c : State) (b : BundleId) : Int :=
    ((c.bundles.rows b).map (·.catalogGeneration)).getD 0

def generationsOf (events : List ChangeEvent) (b : BundleId) : List Int :=
  (events.filter (·.bundleId == some b)).map (·.catalogGeneration)

def firstGenerations (n : Nat) : List Int := (List.range n).map fun i => (i : Int) + 1

/- What a call makes of the generation of a bundle and of its events. Retention may lose some of
them. -/
inductive Announces (keeps : Prop) (g : Int) (gs : List Int) : Int → List Int → Prop where
  | still {gs'} : gs'.Sublist gs → (keeps → gs' = gs) → Announces keeps g gs g gs'
  | next {gs'} : gs'.Sublist (gs ++ [g + 1]) → (keeps → gs' = gs ++ [g + 1]) →
    Announces keeps g gs (g + 1) gs'
  | gone : Announces keeps g gs 0 []

def Listed (keeps : Prop) (g : Int) (gs : List Int) : Prop :=
  ∃ n : Nat, g = n ∧ gs.Sublist (firstGenerations n) ∧ (keeps → gs = firstGenerations n)

theorem Announces.listed {keeps keeps' : Prop} {g g' : Int} {gs gs' : List Int}
    (h : Announces keeps' g gs g' gs')
    (hlisted : Listed keeps g gs) : Listed (keeps ∧ keeps') g' gs' := by
  obtain ⟨n, rfl, hsub, hall⟩ := hlisted
  cases h with
  | still hlost hkept => exact ⟨n, rfl, hlost.trans hsub, fun h => (hkept h.2).trans (hall h.1)⟩
  | next hlost hkept =>
    have hnext : firstGenerations (n + 1) = firstGenerations n ++ [(n : Int) + 1] := by
      simp [firstGenerations, List.range_succ]
    refine ⟨n + 1, rfl, hnext ▸ hlost.trans (hsub.append_right _), fun h => ?_⟩
    rw [hnext, hkept h.2, hall h.1]
  | gone => exact ⟨0, rfl, List.Sublist.refl _, fun _ => rfl⟩

variable {a b : BundleId} {txn : Txn} {c c' : State} {o : Outbox} {op : Op} {reply : Reply}

theorem generationsOf_cons (ev : ChangeEvent) (events : List ChangeEvent) :
    generationsOf (ev :: events) b =
    if ev.bundleId = some b then ev.catalogGeneration :: generationsOf events b
      else generationsOf events b := by
  by_cases hev : ev.bundleId = some b <;> simp [generationsOf, hev]

theorem generationsOf_map {f : ChangeEvent → ChangeEvent} (events : List ChangeEvent)
    (hf : ∀ ev, (f ev).bundleId = ev.bundleId ∧ (f ev).catalogGeneration = ev.catalogGeneration) :
    generationsOf (events.map f) b = generationsOf events b := by
  simp [generationsOf, List.filter_map, Function.comp_def, hf]

theorem recordEvent_generations {bundles : BundleTable} {operation : ChangeOperation} {generation : Int}
    {changes : List ConceptChange} {context : ChangeContext} {syncHash : Option Text}
    {recorded : Outbox × Int}
    (h : recordEvent bundles o a operation generation changes context syncHash = .ok recorded) :
    generationsOf recorded.1.rows b = generationsOf o.rows b ++ if b = a then [generation] else [] := by
  simp only [recordEvent, bind_eq_ok, orRefuse_eq_ok, pure_eq_ok] at h
  obtain ⟨bundle, -, rfl⟩ := h
  by_cases hab : b = a
  · simp [generationsOf, hab]
  · simp [generationsOf, hab, Ne.symm hab]

theorem pruneEvents_generations (now : Instant) (retentionDays : Int) (o : Outbox) :
    (generationsOf (pruneEvents now retentionDays o).rows b).Sublist (generationsOf o.rows b) := by
  unfold pruneEvents
  split
  · exact (List.filter_sublist.filter _).map _
  · exact List.Sublist.refl _

theorem detachEvents_generations (a b : BundleId) (o : Outbox) :
    generationsOf (detachEvents a o).rows b = if b = a then [] else generationsOf o.rows b := by
  rw [detachEvents, SerialTable.updateWhere_rows]
  induction o.rows with
  | nil => simp [generationsOf]
  | cons ev events ih =>
    rw [List.map_cons, generationsOf_cons, ih, generationsOf_cons]
    by_cases hab : b = a
    · by_cases hev : ev.bundleId = some a <;> simp [hev, hab]
    · by_cases hev : ev.bundleId = some a <;> simp [hev, hab, Ne.symm hab]

/- The call announces, for the bundle, what the table of bundles and the outbox show of it. -/
def State.Announces (txn : Txn) (c c' : State) (b : BundleId) : Prop :=
  Catalog.Announces (txn.changeEventRetentionDays ≤ 0) (c.generation b) (generationsOf c.outbox.rows b)
    (c'.generation b) (generationsOf c'.outbox.rows b)

theorem announces_of_outbox (hgeneration : c'.generation b = c.generation b)
    (houtbox : generationsOf c'.outbox.rows b = generationsOf c.outbox.rows b) :
      c.Announces txn c' b := by
  rw [State.Announces, hgeneration, houtbox]
  exact .still (List.Sublist.refl _) fun _ => rfl

/- A bundle moves to its next generation, and the event of that generation is recorded. -/
theorem announces_of_change {bundle : BundleRow} {change : BundleRow → BundleRow} {recorded : Outbox}
    (hbundle : c.bundles.rows a = some bundle)
    (hchange : ∀ row, (change row).catalogGeneration = bundle.catalogGeneration + 1)
    (hbundles : c'.bundles = c.bundles.modify a change)
    (hrecorded : generationsOf recorded.rows b =
      generationsOf c.outbox.rows b ++ if b = a then [bundle.catalogGeneration + 1] else [])
    (hlost : (generationsOf c'.outbox.rows b).Sublist (generationsOf recorded.rows b))
    (hkept : txn.changeEventRetentionDays ≤ 0 → c'.outbox = recorded) : c.Announces txn c' b := by
  by_cases hab : b = a
  · subst hab
    have hgeneration : c.generation b = bundle.catalogGeneration := by simp [State.generation, hbundle]
    have hnext : c'.generation b = c.generation b + 1 := by
      simp [State.generation, hbundles, modify_rows, hbundle, hchange]
    rw [if_pos rfl, ← hgeneration] at hrecorded
    rw [State.Announces, hnext]
    exact .next (hrecorded ▸ hlost) fun h => hkept h ▸ hrecorded
  · have hsame : c'.generation b = c.generation b :=
      by simp [State.generation, hbundles, modify_rows, hab]
    rw [if_neg hab, List.append_nil] at hrecorded
    rw [State.Announces, hsame]
    exact .still (hrecorded ▸ hlost) fun h => hkept h ▸ hrecorded

theorem syncTail_announces {input : SyncInput} {activation : Activation}
    (h : syncTail txn c a input = .ok (c', activation)) : c.Announces txn c' b := by
  obtain ⟨bundle, recorded, hbundle, hrecorded, -, hbundles, -, -, houtbox, -⟩ := syncTail_ok h
  refine announces_of_change hbundle (fun _ => rfl) hbundles
    (recordEvent_generations hrecorded) ?_ fun hnone => ?_
  · exact houtbox ▸ pruneEvents_generations _ _ _
  · rw [houtbox, pruneEvents, if_neg (not_lt.mpr hnone)]

theorem changeBundle_announces {change : BundleRow → BundleRow} {transition : Option BundleTransition}
    {operation : ChangeOperation} (h : changeBundle txn c a change transition operation = .ok c') :
    c.Announces txn c' b := by
  obtain ⟨bundle, recorded, hbundle, hrecorded, hbundles, -, -, houtbox, -⟩ := changeBundle_ok h
  exact announces_of_change hbundle (fun _ => rfl) hbundles (recordEvent_generations hrecorded)
    (houtbox ▸ List.Sublist.refl _) fun _ => houtbox

theorem add_generation {row : BundleRow} (hrow : row.catalogGeneration = 0) :
    State.generation { c with bundles := c.bundles.add row } b = c.generation b := by
  by_cases hab : b = c.bundles.next
  · have hnext : c.bundles.rows b = none := by
      by_contra hsome
      exact (c.bundles.allocated b (Option.isSome_iff_ne_none.mpr hsome)).ne hab
    simp [State.generation, BundleRegistry.add, ← hab, hnext, hrow]
  · simp [State.generation, BundleRegistry.add, hab]

theorem Does.announces (h : Does c txn op c' reply) : c.Announces txn c' b := by
  cases h with
  | registerBundle h =>
    obtain ⟨row, hrow, h⟩ := registerBundle_ok h
    have hsync := syncTail_announces (b := b) h
    rwa [State.Announces, add_generation hrow] at hsync
  | syncBundle h => exact syncTail_announces (syncBundle_ok h)
  | setBundleEnabled h | retireBundle h | unretireBundle h => exact changeBundle_announces h
  | unregisterBundle h =>
    rename_i a
    obtain ⟨bundle, recorded, -, hrecorded, rfl⟩ := unregisterBundle_ok h
    have hrows := detachEvents_generations a b recorded.1
    by_cases hab : b = a
    · subst hab
      rw [if_pos rfl] at hrows
      have hgone : Announces (txn.changeEventRetentionDays ≤ 0) (c.generation b)
        (generationsOf c.outbox.rows b) 0 [] := .gone
      simpa [State.Announces, State.generation, BundleRegistry.drop, hrows] using hgone
    · rw [if_neg hab, recordEvent_generations hrecorded, if_neg hab, List.append_nil] at hrows
      refine announces_of_outbox ?_ hrows
      simp [State.generation, BundleRegistry.drop, hab]
  | claimEvents h =>
    obtain ⟨picked, -, hrows, -⟩ := claimEvents_ok h
    refine announces_of_outbox rfl (hrows ▸ generationsOf_map _ fun ev => ?_)
    split <;> exact ⟨rfl, rfl⟩
  | ackEvent h =>
    obtain ⟨-, ⟨held, -, -, -, hrows⟩ | ⟨rfl, -⟩⟩ := ackEvent_ok h
    · refine announces_of_outbox rfl (hrows ▸ generationsOf_map _ fun ev => ?_)
      split <;> exact ⟨rfl, rfl⟩
    · exact announces_of_outbox rfl rfl
  | _ => exact announces_of_outbox rfl rfl

theorem listed_run {es : Journal} (hrun : CatalogRun .empty es c) (b : BundleId) :
    Listed (∀ e ∈ es, e.call.txn.changeEventRetentionDays ≤ 0) (c.generation b)
      (generationsOf c.outbox.rows b) := by
  refine hrun.history_invariant
    (P := fun es c => Listed (∀ e ∈ es, e.call.txn.changeEventRetentionDays ≤ 0)
    (c.generation b) (generationsOf c.outbox.rows b)) ⟨0, rfl, List.Sublist.refl _, fun _ => rfl⟩ ?_
  intro es c e c' ih hstep
  have hstep : c.Announces e.call.txn c' b := by
    obtain ⟨reply, -, hdoes⟩ | ⟨-, rfl⟩ := step_does hstep
    · exact hdoes.announces
    · exact announces_of_outbox rfl rfl
  simpa [or_imp, forall_and] using hstep.listed ih

theorem claimed_generations {e : Entry Request CatalogError Reply} {events : List ChangeEvent}
    (hstep : Step exec c e c') (hclaimed : e.result = .ok (.claimed events)) :
      (generationsOf events b).Sublist (generationsOf c.outbox.rows b) := by
  obtain ⟨reply, hreply, hdoes⟩ | ⟨⟨error, herror⟩, -⟩ := step_does hstep
  · obtain rfl := Except.ok.inj (hreply.symm.trans hclaimed)
    generalize e.call.op = op at hdoes
    cases hdoes with
    | claimEvents h =>
      obtain ⟨picked, -, hrows, -, rfl⟩ := claimEvents_ok h
      rw [← generationsOf_map c.outbox.rows fun ev => ?_, ← hrows]
      · exact (List.filter_sublist.filter _).map _
      · split <;> exact ⟨rfl, rfl⟩
  · cases herror.symm.trans hclaimed

/-- The events of a bundle lie in the outbox in the order of its generations, at most one for each,
and exactly one unless retention has deleted some. A claim hands out no generation twice. -/
theorem generations_announced {es : Journal} (hrun : CatalogRun .empty es c) (b : BundleId) :
    ∃ n : Nat, c.generation b = n ∧ (generationsOf c.outbox.rows b).Sublist (firstGenerations n) ∧
      ((∀ e ∈ es, e.call.txn.changeEventRetentionDays ≤ 0) →
        generationsOf c.outbox.rows b = firstGenerations n) ∧
      ∀ e c' events, Step exec c e c' → e.result = .ok (.claimed events) →
        (generationsOf events b).Subperm (firstGenerations n) := by
  obtain ⟨n, hn, hsub, hall⟩ := listed_run hrun b
  refine ⟨n, hn, hsub, hall, fun e c' events hstep hclaimed => ?_⟩
  -- The statement returns its rows in no particular order.
  exact ((claimed_generations hstep hclaimed).trans hsub).subperm

theorem generations_announced_synced :
    let c := (play exec .empty [.byAdmin 0 (.registerBundle ⟨[], [], .default⟩),
      .byAdmin 1 (.registerBundle ⟨[], [], .default⟩),
      .byAdmin 2 (.retireBundle 1), .byAdmin 3 (.syncBundle 1 ⟨[], [], .default⟩)]).1
    generationsOf c.outbox.rows 1 = [1, 2, 3] ∧ ∃ n : Nat, c.generation 1 = n ∧
      (generationsOf c.outbox.rows 1).Sublist (firstGenerations n) := by
  obtain ⟨n, hn, hsub, -⟩ := generations_announced (play_run exec .empty
    [.byAdmin 0 (.registerBundle ⟨[], [], .default⟩), .byAdmin 1 (.registerBundle ⟨[], [], .default⟩),
      .byAdmin 2 (.retireBundle 1), .byAdmin 3 (.syncBundle 1 ⟨[], [], .default⟩)]) 1
  exact ⟨by decide, n, hn, hsub⟩

end Pgokf.Catalog
