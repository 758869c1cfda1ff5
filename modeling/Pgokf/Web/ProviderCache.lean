import Mathlib.Order.Nat
import Pgokf.Lib.Run

/-! # The provider an instance keeps (`provider.rs`)

The row of one provider in the catalog and what an instance has built from it. A call is a few
steps, and the steps of different calls interleave. -/

namespace Pgokf.Web.Providers

open Lib

variable {κ : Type}

/- Everything a provider is built from is one value. Stamps are in microseconds, times of the
instance in nanoseconds. -/
structure ProviderSettings (κ : Type) where
  enabled : Bool
  updatedAt : Nat
  config : κ
  deriving DecidableEq

def believedFor : Nat := 30 * 1000000000

/- A provider is known by the settings it was built from. There is none where they cannot be built. -/
structure Live (κ : Type) where
  stamp : Nat
  seenAt : Nat
  state : Option (ProviderSettings κ)
  deriving DecidableEq

structure Registry (κ : Type) where
  row : Option (ProviderSettings κ)
  live : Option (Live κ)
  now : Nat
  deriving DecidableEq

namespace Registry

def believes (r : Registry κ) (known : Live κ) : Bool := r.now - known.seenAt < believedFor

def remember (r : Registry κ) (stamp : Nat) (state : Option (ProviderSettings κ)) :
    Registry κ × Option (ProviderSettings κ) :=
  match r.live.filter fun known => stamp < known.stamp && r.believes known with
  | some newer => (r, newer.state)
  | none => ({ r with live := some ⟨stamp, r.now, state⟩ }, state)

theorem remember_row (r : Registry κ) (stamp : Nat) (state : Option (ProviderSettings κ)) :
    (r.remember stamp state).1.row = r.row := by
  rw [remember]
  split <;> rfl

def touch (r : Registry κ) : Registry κ :=
    { r with live := r.live.map fun known => { known with seenAt := r.now } }

def forget (r : Registry κ) : Registry κ := { r with live := none }

end Registry

/- `all_current` does to one provider what `current` does: it forgets one that is not enabled and
refreshes one that is. -/
inductive Call (κ : Type) where
  | store (enabled : Bool) (config : κ)
  | remove
  | current
  | recent
  deriving DecidableEq

/- Where a call stands: the next step follows from it. -/
inductive Stage (κ : Type) where
  | started (call : Call κ)
  | saved (settings : ProviderSettings κ)
  | removed
  | loaded (row : Option (ProviderSettings κ))
  | refreshing (settings : ProviderSettings κ)
  | confirmed (answer : Option (ProviderSettings κ))
  | outdated (settings : ProviderSettings κ)
  | returned (answer : Option (ProviderSettings κ))
  deriving DecidableEq

/-- One step of a call. `stamp` is what the catalog stamps a row with that is saved now. -/
def Stage.step (build : κ → Bool) (stamp : Nat) (r : Registry κ) : Stage κ → Registry κ × Stage κ
  | .started (.store enabled config) =>
    ({ r with row := some ⟨enabled, stamp, config⟩ }, .saved ⟨enabled, stamp, config⟩)
  | .saved settings =>
    (if settings.enabled then (r.remember settings.updatedAt (some settings)).1 else r.forget,
      .returned none)
  | .started .remove => ({ r with row := none }, .removed)
  | .removed => (r.forget, .returned none)
  | .started .recent =>
    match r.live.filter r.believes with
    | some known => (r, .returned known.state)
    | none => (r, .started .current)
  | .started .current => (r, .loaded r.row)
  | .loaded row =>
    match row.filter (·.enabled) with
    | none => (r.forget, .returned none)
    | some settings => (r, .refreshing settings)
  | .refreshing settings =>
    match r.live.filter (·.stamp = settings.updatedAt) with
    | some known => (r, .confirmed known.state)
    | none => (r, .outdated settings)
  | .confirmed answer => (r.touch, .returned answer)
  | .outdated settings =>
    let (r, answer) := r.remember settings.updatedAt
      (if build settings.config then some settings else none)
    (r, .returned answer)
  | .returned answer => (r, .returned answer)

/- `floor` is what the last change that had returned when the call started asks of its answer. -/
structure Thread (κ : Type) where
  call : Call κ
  stage : Stage κ
  floor : Nat
  deriving DecidableEq

/- The last stamp the catalog has given, the call whose change is under way, and the least stamp
that the last change to return lets later answers have. -/
structure System (κ : Type) where
  registry : Registry κ
  threads : List (Thread κ)
  lastStamp : Nat
  changing : Option Nat
  floor : Nat
  deriving DecidableEq

inductive Action (κ : Type) where
  | start (call : Call κ)
  | step (thread now stamp : Nat)

namespace System

def start (row : Option (ProviderSettings κ)) (lastStamp : Nat) : System κ :=
    ⟨⟨row, none, 0⟩, [], lastStamp, none, 0⟩

/- After a removal, and after a store that disables, an answer can only come from a later store. -/
def exec (build : κ → Bool) (sys : System κ) : Action κ → System κ
  | .start call => { sys with threads := sys.threads ++ [⟨call, .started call, sys.floor⟩] }
  | .step i now stamp =>
    match sys.threads[i]? with
    | none => sys
    | some thread =>
      let after := thread.stage.step build stamp { sys.registry with now := now }
      let moved := { sys with
        registry := after.1
        threads := sys.threads.set i { thread with stage := after.2 } }
      match thread.stage with
      | .started (.store _ _) => { moved with lastStamp := stamp, changing := some i }
      | .started .remove => { moved with changing := some i }
      | .saved settings =>
        { moved with
          changing := none
          floor := if settings.enabled then settings.updatedAt else settings.updatedAt + 1 }
      | .removed => { moved with changing := none, floor := sys.lastStamp + 1 }
      | _ => moved

/- Changes do not overlap and their stamps increase. Settings from before the last returned change
are remembered only where a newer entry keeps them out. -/
def inTurn (sys : System κ) : Action κ → Bool
  | .start _ => true
  | .step i now stamp =>
    match sys.threads[i]?.map Thread.stage with
    | some (.started (.store _ _)) => sys.changing.isNone && sys.lastStamp < stamp
    | some (.started .remove) => sys.changing.isNone
    | some (.outdated settings) => sys.floor ≤ settings.updatedAt ||
        sys.registry.live.any fun known =>
          settings.updatedAt < known.stamp && now - known.seenAt < believedFor
    | _ => true

def next (build : κ → Bool) (sys : System κ) (action : Action κ) : Option (System κ) :=
  if sys.inTurn action then some (sys.exec build action) else none

end System

/-! ### What is kept is as new as the last change -/

def AtLeast (bound : Nat) (answer : Option (ProviderSettings κ)) : Prop := ∀ p, answer = some p →
    bound ≤ p.updatedAt

/- What is kept under a stamp was built from settings with this stamp. -/
structure Registry.Sound (r : Registry κ) (lastStamp bound : Nat) : Prop where
  row : ∀ s, r.row = some s → s.updatedAt ≤ lastStamp ∧ (s.enabled = true → bound ≤ s.updatedAt)
  live : ∀ known, r.live = some known → bound ≤ known.stamp ∧ ∀ p, known.state = some p →
    p.updatedAt = known.stamp

/- What a call carries on the way to its answer. -/
def Stage.Carries (bound : Nat) : Stage κ → Prop
  | .loaded row => AtLeast bound (row.filter (·.enabled))
  | .refreshing s | .outdated s => bound ≤ s.updatedAt
  | .confirmed answer | .returned answer => AtLeast bound answer
  | .started _ | .saved _ | .removed => True

/- The row as a change under way has left it. -/
def Stage.change : Stage κ → Option (Option (ProviderSettings κ))
  | .saved s => some (some s)
  | .removed => some none
  | _ => none

def System.Pending (sys : System κ) (i : Nat) (stage : Stage κ) : Prop :=
  ∀ row, stage.change = some row → sys.changing = some i ∧ sys.registry.row = row ∧
    ∀ s, row = some s → s.updatedAt = sys.lastStamp ∧ sys.floor ≤ s.updatedAt

structure System.Sound (sys : System κ) : Prop where
  registry : sys.registry.Sound sys.lastStamp sys.floor
  floor : sys.floor ≤ sys.lastStamp + 1
  threads : ∀ i (thread : Thread κ), sys.threads[i]? = some thread →
    thread.floor ≤ sys.floor ∧ thread.stage.Carries thread.floor ∧ sys.Pending i thread.stage

section Steps

variable {build : κ → Bool} {sys : System κ} {r : Registry κ} {thread : Thread κ}
  {i lastStamp bound stamp : Nat}

theorem Registry.Sound.state (h : r.Sound lastStamp bound) {known : Live κ}
    (hlive : r.live = some known) :
    AtLeast bound known.state := by
  intro p hp
  rw [(h.live known hlive).2 p hp]
  exact (h.live known hlive).1

theorem Registry.Sound.forget (h : r.Sound lastStamp bound) : r.forget.Sound lastStamp bound :=
  ⟨h.row, fun _ hlive => (by cases hlive)⟩

theorem Registry.Sound.touch (h : r.Sound lastStamp bound) : r.touch.Sound lastStamp bound := by
  refine ⟨h.row, fun known hlive => ?_⟩
  obtain ⟨before, hbefore, rfl⟩ := Option.map_eq_some_iff.mp hlive
  exact h.live before hbefore

theorem Registry.Sound.remember {old : Nat} {state : Option (ProviderSettings κ)}
    (h : r.Sound lastStamp old)
    (hrow : ∀ s, r.row = some s → s.enabled = true → bound ≤ s.updatedAt)
    (hstate : ∀ p, state = some p → p.updatedAt = stamp) (hnew : bound ≤ stamp ∨ bound ≤ old ∧
      (r.live.any fun known => stamp < known.stamp && r.believes known) = true) :
    (r.remember stamp state).1.Sound lastStamp bound ∧ AtLeast stamp (r.remember stamp state).2 := by
  have hrows : ∀ s, r.row = some s → s.updatedAt ≤ lastStamp ∧
    (s.enabled = true → bound ≤ s.updatedAt) :=
    fun s hs => ⟨(h.row s hs).1, hrow s hs⟩
  rw [Registry.remember]
  split
  next newer hnewer =>
    obtain ⟨hlive, hpass⟩ := Option.filter_eq_some_iff.mp hnewer
    obtain ⟨hlt, -⟩ := Bool.and_eq_true_iff.mp hpass
    have hlt : stamp < newer.stamp := of_decide_eq_true hlt
    obtain ⟨hold, hbuilt⟩ := h.live newer hlive
    refine ⟨⟨hrows, fun known hknown => ?_⟩, fun p hp => ?_⟩
    · obtain rfl := Option.some.inj (hlive.symm.trans hknown)
      exact ⟨hnew.elim (fun hle => hle.trans hlt.le) fun hle => hle.1.trans hold, hbuilt⟩
    · rw [hbuilt p hp]
      exact hlt.le
  next hnone =>
    have hbound : bound ≤ stamp := by
      rcases hnew with hle | ⟨-, hany⟩
      · exact hle
      · obtain ⟨known, hlive, hpass⟩ := (Option.any_eq_true _ _).mp hany
        rw [hlive, Option.filter_some, if_pos hpass] at hnone
        cases hnone
    refine ⟨⟨hrows, fun known hknown => ?_⟩, fun p hp => (hstate p hp).ge⟩
    obtain rfl := Option.some.inj hknown
    exact ⟨hbound, hstate⟩

variable {sys' : System κ} {stage : Stage κ}

theorem System.Sound.moved (h : sys.Sound) (hthread : sys.threads[i]? = some thread)
    (hthreads : sys'.threads = sys.threads.set i { thread with stage := stage })
    (hregistry : sys'.registry.Sound sys'.lastStamp sys'.floor) (hfloor : sys.floor ≤ sys'.floor)
    (hlast : sys'.floor ≤ sys'.lastStamp + 1) (hcarries : stage.Carries thread.floor)
    (hpending : sys'.Pending i stage)
    (hothers : ∀ j stage, j ≠ i → sys.Pending j stage → sys'.Pending j stage) : sys'.Sound := by
  refine ⟨hregistry, hlast, fun j other hother => ?_⟩
  rw [hthreads, List.getElem?_set] at hother
  split at hother
  next hij =>
    subst hij
    split at hother
    next =>
      obtain rfl := Option.some.inj hother
      exact ⟨(h.threads i thread hthread).1.trans hfloor, hcarries, hpending⟩
    next => cases hother
  next hij =>
    obtain ⟨hle, hkept, hwaits⟩ := h.threads j other hother
    exact ⟨hle.trans hfloor, hkept, hothers j _ (Ne.symm hij) hwaits⟩

theorem System.Sound.quiet (h : sys.Sound) (hthread : sys.threads[i]? = some thread)
    (hregistry : r.Sound sys.lastStamp sys.floor) (hrow : r.row = sys.registry.row)
    (hcarries : stage.Carries thread.floor) (hchange : stage.change = none) :
    ({ sys with registry := r, threads := sys.threads.set i { thread with stage := stage } } :
      System κ).Sound := by
  refine h.moved hthread rfl hregistry le_rfl h.floor hcarries
    (fun row h => ?_) fun j other _ hpending row h => ?_
  · rw [hchange] at h
    cases h
  · obtain ⟨hchanging, hstands, hnew⟩ := hpending row h
    exact ⟨hchanging, hrow.trans hstands, hnew⟩

/-- The last step of a change: what is asked of later answers rises to `bound`. -/
theorem System.Sound.finished (h : sys.Sound) (hthread : sys.threads[i]? = some thread)
    (hchanging : sys.changing = some i)
    (hregistry : r.Sound sys.lastStamp bound) (hbound : sys.floor ≤ bound)
    (hlast : bound ≤ sys.lastStamp + 1) :
    (⟨r, sys.threads.set i { thread with stage := .returned none }, sys.lastStamp, none, bound⟩ :
      System κ).Sound := by
  refine h.moved hthread rfl hregistry hbound hlast (fun _ hp => (by cases hp))
    (fun _ hrow => (by cases hrow))
    fun j stage hj hpending row hrow => absurd ?_ hj
  exact Option.some.inj ((hpending row hrow).1.symm.trans hchanging)

variable {now : Nat}

theorem System.Sound.begun {row : Option (ProviderSettings κ)} (h : sys.Sound) (stage : Stage κ)
    (hchange : stage.change = some row) (hthread : sys.threads[i]? = some thread)
    (hidle : sys.changing = none) (hlast : sys.lastStamp ≤ lastStamp)
    (hrow : ∀ s, row = some s → s.updatedAt = lastStamp ∧ sys.floor ≤ s.updatedAt) :
    (⟨⟨row, sys.registry.live, now⟩, sys.threads.set i { thread with stage := stage }, lastStamp,
      some i, sys.floor⟩ :
      System κ).Sound := by
  refine h.moved hthread rfl ⟨fun s hs => ?_, h.registry.live⟩ le_rfl
    (h.floor.trans (Nat.succ_le_succ hlast)) ?_
    (fun row' hrow' => ?_) fun j stage _ hpending row' hrow' => ?_
  · obtain ⟨hstamp, hfresh⟩ := hrow s hs
    exact ⟨hstamp.le, fun _ => hfresh⟩
  · cases stage with
    | saved | removed => trivial
    | _ => cases hchange
  · obtain rfl := Option.some.inj (hchange.symm.trans hrow')
    exact ⟨rfl, rfl, hrow⟩
  · cases hidle.symm.trans (hpending row' hrow').1

theorem System.Sound.at_now (h : sys.Sound) (now : Nat) :
    ({ sys.registry with now := now } : Registry κ).Sound sys.lastStamp sys.floor :=
  ⟨h.registry.row, h.registry.live⟩

/-- A stored row that is disabled leaves nothing behind that an answer could come from. -/
theorem System.Sound.stored {s : ProviderSettings κ} (h : sys.Sound)
    (hthread : sys.threads[i]? = some thread) (hpending : sys.Pending i (.saved s)) (now : Nat) :
    (⟨if s.enabled then (Registry.remember { sys.registry with now := now } s.updatedAt (some s)).1
        else Registry.forget { sys.registry with now := now },
      sys.threads.set i { thread with stage := .returned none }, sys.lastStamp, none,
      if s.enabled then s.updatedAt else s.updatedAt + 1⟩ : System κ).Sound := by
  obtain ⟨hchanging, hrow, hnew⟩ := hpending _ rfl
  obtain ⟨hstamp, hfresh⟩ := hnew s rfl
  have hrows : ∀ s', sys.registry.row = some s' → s' = s :=
    fun s' hs' => Option.some.inj (hs'.symm.trans hrow)
  by_cases henabled : s.enabled = true
  · rw [if_pos henabled, if_pos henabled]
    refine h.finished hthread hchanging ?_ hfresh (hstamp.le.trans (Nat.le_succ _))
    exact ((h.at_now now).remember (fun s' hs' _ => (hrows s' hs' ▸ le_rfl))
      (fun p hp => (Option.some.inj hp ▸ rfl)) (.inl le_rfl)).1
  · rw [if_neg henabled, if_neg henabled]
    refine h.finished hthread hchanging ⟨fun s' hs' => ?_, fun _ hlive => (by cases hlive)⟩
      (hfresh.trans (Nat.le_succ _)) (Nat.succ_le_succ hstamp.le)
    rw [hrows s' hs']
    exact ⟨hstamp.le, fun hon => absurd hon henabled⟩

/-- The first step of a call. -/
theorem System.Sound.called {call : Call κ} (h : sys.Sound) (hthread : sys.threads[i]? = some thread)
    (hstage : thread.stage = .started call) (hturn : sys.inTurn (.step i now stamp) = true) :
    (sys.exec build (.step i now stamp)).Sound := by
  have hregistry := h.at_now now
  have hfloor := (h.threads i thread hthread).1
  rw [System.inTurn, hthread, Option.map_some, hstage] at hturn
  rw [System.exec, hthread]
  dsimp only
  rw [hstage]
  cases call with
  | store enabled config =>
    obtain ⟨hidle, hlater⟩ := Bool.and_eq_true_iff.mp hturn
    have hlater : sys.lastStamp < stamp := of_decide_eq_true hlater
    refine h.begun (.saved ⟨enabled, stamp, config⟩) rfl hthread (Option.isNone_iff_eq_none.mp hidle)
      hlater.le fun s hs => ?_
    obtain rfl := Option.some.inj hs
    exact ⟨rfl, h.floor.trans hlater⟩
  | remove =>
    exact h.begun .removed rfl hthread (Option.isNone_iff_eq_none.mp hturn) le_rfl
      fun _ hs => (by cases hs)
  | current =>
    refine h.quiet hthread hregistry rfl (fun p hp => ?_) rfl
    obtain ⟨hrow, henabled⟩ := Option.filter_eq_some_iff.mp hp
    exact hfloor.trans ((hregistry.row p hrow).2 henabled)
  | recent =>
    dsimp only [Stage.step]
    split
    next known hknown =>
      obtain ⟨hlive, -⟩ := Option.filter_eq_some_iff.mp hknown
      exact h.quiet hthread hregistry rfl (fun p hp => hfloor.trans (hregistry.state hlive p hp)) rfl
    next => exact h.quiet hthread hregistry rfl trivial rfl

theorem System.Sound.step (h : sys.Sound) (hturn : sys.inTurn (.step i now stamp) = true) :
    (sys.exec build (.step i now stamp)).Sound := by
  cases hthread : sys.threads[i]? with
  | none =>
    rw [System.exec, hthread]
    exact h
  | some thread =>
    by_cases hstarted : ∃ call, thread.stage = .started call
    · obtain ⟨call, hstage⟩ := hstarted
      exact h.called hthread hstage hturn
    have hregistry := h.at_now now
    obtain ⟨-, hcarries, hpending⟩ := h.threads i thread hthread
    rw [System.inTurn, hthread, Option.map_some] at hturn
    rw [System.exec, hthread]
    dsimp only
    cases hstage : thread.stage with
    | started call => exact absurd ⟨call, hstage⟩ hstarted
    | saved s =>
      rw [hstage] at hpending
      exact h.stored hthread hpending now
    | removed =>
      rw [hstage] at hpending
      obtain ⟨hchanging, hrow, -⟩ := hpending _ rfl
      refine h.finished hthread hchanging ⟨fun s hs => ?_, fun _ hlive => (by cases hlive)⟩
        h.floor le_rfl
      cases hs.symm.trans hrow
    | loaded row =>
      rw [hstage] at hcarries
      dsimp only [Stage.step]
      split
      next => exact h.quiet hthread hregistry.forget rfl (fun _ hp => (by cases hp)) rfl
      next s hs => exact h.quiet hthread hregistry rfl (hcarries s hs) rfl
    | refreshing s =>
      rw [hstage] at hcarries
      dsimp only [Stage.step]
      split
      next known hknown =>
        obtain ⟨hlive, hstamp⟩ := Option.filter_eq_some_iff.mp hknown
        refine h.quiet hthread hregistry rfl (fun p hp => ?_) rfl
        rw [(hregistry.live known hlive).2 p hp, of_decide_eq_true hstamp]
        exact hcarries
      next => exact h.quiet hthread hregistry rfl hcarries rfl
    | confirmed answer =>
      rw [hstage] at hcarries
      exact h.quiet hthread hregistry.touch rfl hcarries rfl
    | outdated s =>
      rw [hstage] at hcarries hturn
      have hbuilt : ∀ p, (if build s.config then some s else none) = some p →
          p.updatedAt = s.updatedAt := by
        intro p hp
        split at hp
        next => rw [Option.some.inj hp]
        next => cases hp
      have hnew := (Bool.or_eq_true_iff.mp hturn).imp of_decide_eq_true
        fun hany => And.intro (le_refl sys.floor) hany
      obtain ⟨hkept, hanswer⟩ := hregistry.remember (fun s' hs' => (hregistry.row s' hs').2) hbuilt hnew
      exact h.quiet hthread hkept (Registry.remember_row _ _ _)
        (fun p hp => hcarries.trans (hanswer p hp)) rfl
    | returned answer =>
      rw [hstage] at hcarries
      exact h.quiet hthread hregistry rfl hcarries rfl

theorem System.Sound.next {action : Action κ} (h : sys.Sound)
    (hnext : sys.next build action = some sys') :
    sys'.Sound := by
  rw [System.next] at hnext
  split at hnext
  next hturn =>
    obtain rfl := Option.some.inj hnext
    cases action with
    | start call =>
      refine ⟨h.registry, h.floor, fun i thread hthread => ?_⟩
      rw [System.exec, List.getElem?_append] at hthread
      split at hthread
      next => exact h.threads i thread hthread
      next =>
        rw [List.getElem?_singleton] at hthread
        split at hthread
        next =>
          obtain rfl := Option.some.inj hthread
          exact ⟨le_rfl, trivial, fun _ hrow => (by cases hrow)⟩
        next => cases hthread
    | step i now stamp => exact h.step hturn
  next => cases hnext

end Steps

/-- No answer is older than the last store that had returned when the call started, and after a
removal or a disabling store it comes from a later store. -/
theorem recent_not_older {build : κ → Bool} {row : Option (ProviderSettings κ)} {lastStamp : Nat}
    {actions : List (Action κ)}
    {sys : System κ} (hrow : ∀ s, row = some s → s.updatedAt ≤ lastStamp)
    (hrun : Run (fun sys action sys' => sys.next build action = some sys')
      (.start row lastStamp) actions sys)
    {thread : Thread κ} (hthread : thread ∈ sys.threads) {p : ProviderSettings κ}
    (hanswer : thread.stage = .returned (some p)) : thread.floor ≤ p.updatedAt := by
  have hstart : (System.start row lastStamp).Sound :=
    ⟨⟨fun s hs => ⟨hrow s hs, fun _ => Nat.zero_le _⟩, fun _ hlive => (by cases hlive)⟩,
      Nat.zero_le _, fun _ _ h => (by cases h)⟩
  obtain ⟨i, hi⟩ := List.mem_iff_getElem?.mp hthread
  obtain ⟨-, hsound, -⟩ := (hrun.invariant hstart fun _ _ _ h hnext => h.next hnext).threads i thread hi
  rw [hanswer] at hsound
  exact hsound p rfl

def onlySettings : ProviderSettings Unit := ⟨true, 1, ()⟩

def afterwards (actions : List (Action Unit)) : System Unit :=
  actions.foldl (System.exec fun _ => true) (.start (some onlySettings) 1)

def storeThenRecent : List (Action Unit) :=
    [.start (.store true ()), .step 0 0 2, .step 0 0 0, .start .recent, .step 1 5 0]

theorem recent_not_older_stored : ∃ thread ∈ (afterwards storeThenRecent).threads,
    thread.call = .recent ∧ thread.stage = .returned (some ⟨true, 2, ()⟩) ∧ thread.floor ≤ 2 := by
  have hrun : Run (fun sys action sys' => sys.next (fun _ => true) action = some sys')
      (.start (some onlySettings) 1) storeThenRecent (afterwards storeThenRecent) :=
        .of_foldlM (by decide)
  have hthread : ⟨.recent, .returned (some ⟨true, 2, ()⟩), 2⟩ ∈
      (afterwards storeThenRecent).threads := by decide
  have hrow : ∀ s, some onlySettings = some s → s.updatedAt ≤ 1 :=
    fun s hs => (Option.some.inj hs ▸ le_rfl)
  exact ⟨_, hthread, rfl, rfl, recent_not_older hrow hrun hthread rfl⟩

/-- Nothing keeps out what was read before a removal: it is put back, and answers. -/
theorem removed_provider_put_back :
    -- The first call reads the row, the second removes it, and the third starts after the second.
    let sys := afterwards [.start .current, .step 0 0 0, .step 0 0 0, .step 0 0 0, .start .remove,
      .step 1 0 0, .step 1 0 0, .step 0 0 0, .start .recent, .step 2 0 0]
    sys.registry.row = none ∧ sys.threads = [⟨.current, .returned (some onlySettings), 0⟩,
      ⟨.remove, .returned none, 0⟩, ⟨.recent, .returned (some onlySettings), 2⟩] := by
  decide

end Pgokf.Web.Providers
