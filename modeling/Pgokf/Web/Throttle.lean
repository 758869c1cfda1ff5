import Pgokf.Web.SignIn

/-! # The sign-in throttle (`auth.rs`)

After the free failures of a name and peer, each further attempt waits out a cooldown that doubles.
The rule for forgetting looks at the end of the last cooldown. -/

namespace Pgokf.Web.Auth

open Lib

/-! ### Counters -/

section Counters

variable {Peer : Type} [DecidableEq Peer]

/- `until` of the source is the end of the cooldown, or the first failure while there is none. -/
structure Failures where
  -- A `u32` in the source. Past the free failures each waits out a cooldown, so it is not used up.
  count : Nat
  cooledAt : Nat
  deriving DecidableEq

/- Times are in nanoseconds, as those of `Instant` and `Duration`. -/
def seconds (n : Nat) : Nat := n * 1000000000

def freeFailures : Nat := 5

def maxCooldown : Nat := seconds 900

def failureMemory : Nat := seconds 3600

def maxTrackedFailures : Nat := 10000

abbrev Key (Peer : Type) := Text × Option Peer

structure Throttle (Peer : Type) where
  entries : OrderedMap (Key Peer) Failures
  distinct : (entries.map Prod.fst).Nodup

namespace Throttle

def empty : Throttle Peer := ⟨[], List.nodup_nil⟩

def get (t : Throttle Peer) (k : Key Peer) : Option Failures := OrderedMap.get t.entries k

/-- `duration_since` is zero for an instant that is still to come. -/
def forget (t : Throttle Peer) (now : Nat) : Throttle Peer where
  entries := OrderedMap.retain t.entries fun _ f => now - f.cooledAt < failureMemory
  distinct := OrderedMap.nodup_keys_filter t.distinct _

def insert (t : Throttle Peer) (k : Key Peer) (f : Failures) : Throttle Peer where
  entries := OrderedMap.insert t.entries k f
  distinct := OrderedMap.nodup_keys_insert t.distinct k f

def forgetFailures (t : Throttle Peer) (k : Key Peer) : Throttle Peer where
  entries := OrderedMap.remove t.entries k
  distinct := OrderedMap.nodup_keys_filter t.distinct _

def cooldown (t : Throttle Peer) (k : Key Peer) (now : Nat) : Option Nat :=
  (t.get k).bind fun f => if now ≤ f.cooledAt then some (f.cooledAt - now) else none

def throttled (t : Throttle Peer) (k : Key Peer) (now : Nat) : Bool := (t.cooldown k now).isSome

end Throttle

def waitAfter (count : Nat) : Nat :=
    min (seconds (Nat.pow 2 (min (count - freeFailures) 10))) maxCooldown

def Failures.again (f : Failures) (now : Nat) : Failures :=
  if freeFailures < f.count +
    1 then ⟨f.count + 1, now + waitAfter (f.count + 1)⟩ else ⟨f.count + 1, f.cooledAt⟩

def countFailure (t : Throttle Peer) (k : Key Peer) (now : Nat) : Throttle Peer :=
  let t := t.forget now
  if (t.get k).isNone && maxTrackedFailures ≤ t.entries.length then t
  else t.insert k (((t.get k).getD ⟨0, now⟩).again now)

end Counters

/- One call of `verify`: when the throttle is asked and when a failure is counted, and what the
catalog answers. -/
structure Attempt (Peer : Type) where
  name : Text
  password : Text
  peer : Option Peer
  asked : Nat
  counted : Nat
  record : Except Text (Option UserRecord)

def Attempt.key {Peer : Type} (a : Attempt Peer) : Key Peer := (trim a.name, a.peer)

/- `unheard` is the answer without a look at the password. -/
inductive Outcome where
  | unheard
  | unavailable (why : Text)
  | wrong
  | welcome (person : Principal)
  deriving DecidableEq

def Outcome.result : Outcome → Except Text (Option Principal)
  | unheard => .ok none
  | unavailable why => .error why
  | wrong => .ok none
  | welcome person => .ok (some person)

section Verify

variable {Peer : Type} [DecidableEq Peer] (env : Env)

def Attempt.outcome (t : Throttle Peer) (a : Attempt Peer) : Outcome :=
  if State.maxNameLen < Sync.utf8Len (trim a.name) then .unheard
  else if t.throttled a.key a.asked then .unheard
  else match a.record with
    | .error why => .unavailable why
    | .ok none => .wrong
    | .ok (some record) =>
      match record.hash with
      | none => .wrong
      | some hash =>
        if env.verifies hash a.password then
          .welcome ⟨trim a.name, record.display.getD (trim a.name), record.role⟩
        else .wrong

def Attempt.after (t : Throttle Peer) (a : Attempt Peer) : Throttle Peer :=
  match a.outcome env t with
  | .unheard | .unavailable _ => t
  | .wrong => countFailure t a.key a.counted
  | .welcome _ => t.forgetFailures a.key

theorem outcome_result (s : State) (t : Throttle Peer) (a : Attempt Peer)
    (hrecord : a.record = .ok (s.people.record (trim a.name))) :
    (a.outcome env t).result = .ok (s.verify env a.name a.password (t.throttled a.key a.asked)) := by
  rw [Attempt.outcome, State.verify, hrecord]
  by_cases hlong : State.maxNameLen < Sync.utf8Len (trim a.name)
  · simp [hlong, Outcome.result]
  · cases hthrottled : t.throttled a.key a.asked with
    | true => simp [hlong, Outcome.result]
    | false =>
      simp only [hlong, if_false, decide_false, Bool.or_false, Bool.false_eq_true]
      cases s.people.record (trim a.name) with
      | none => rfl
      | some record =>
        cases hhash : record.hash with
        | none => simp [hhash, Outcome.result]
        | some hash => cases hv : env.verifies hash a.password <;> simp [hhash, hv, Outcome.result]

end Verify

/- The failures of a pair since its last success, or since a pause as long as the memory. -/
structure Streak where
  first : Nat
  last : Nat
  count : Nat
  deriving DecidableEq

def Streak.extend (s : Option Streak) (now : Nat) : Streak :=
  match s with
  | none => ⟨now, now, 1⟩
  | some s => if failureMemory ≤ now - s.last then ⟨now, now, 1⟩ else ⟨s.first, now, s.count + 1⟩

section Histories

variable {Peer : Type} [DecidableEq Peer]

def streakStep (k : Key Peer) (s : Option Streak) (e : Attempt Peer × Outcome) : Option Streak :=
  if e.1.key ≠ k then s
  else match e.2 with
    | .unheard | .unavailable _ => s
    | .wrong => some (.extend s e.1.counted)
    | .welcome _ => none

def streak (k : Key Peer) (past : List (Attempt Peer × Outcome)) : Option Streak :=
    past.foldl (streakStep k) none

/- The throttle, the latest time read, and what has happened. -/
structure World (Peer : Type) where
  throttle : Throttle Peer
  clock : Nat
  past : List (Attempt Peer × Outcome)

def World.start : World Peer := ⟨.empty, 0, []⟩

variable (env : Env)

def World.after (w : World Peer) (a : Attempt Peer) : World Peer :=
  ⟨a.after env w.throttle, a.counted, w.past ++ [(a, a.outcome env w.throttle)]⟩

/-- Attempts come one after the other. -/
def AttemptStep (w : World Peer) (a : Attempt Peer) (w' : World Peer) : Prop :=
  w.clock ≤ a.asked ∧ a.asked ≤ a.counted ∧ w' = w.after env a

/- There is room for the failure, and the pair is not forgotten for the age of its first failure
while the last one is recent. -/
def KeepsTrack (k : Key Peer) (w : World Peer) (a : Attempt Peer) : Prop :=
  a.outcome env w.throttle = .wrong →
    (a.key = k → ((w.throttle.forget a.counted).get k).isSome = true ∨
      (w.throttle.forget a.counted).entries.length < maxTrackedFailures) ∧
    ∀ s ∈ streak k w.past, s.count ≤ freeFailures → failureMemory ≤ a.counted - s.first →
      failureMemory ≤ a.counted - s.last

end Histories

section Tracked

variable {Peer : Type} [DecidableEq Peer] {k j : Key Peer} {t : Throttle Peer} {f : Failures} {now : Nat}

theorem Throttle.get_forget : (t.forget now).get k = (t.get k).filter fun f =>
    now - f.cooledAt < failureMemory :=
  OrderedMap.get_retain t.distinct (fun _ f => now - f.cooledAt < failureMemory) k

theorem get_countFailure_of_ne (h : k ≠ j) : (countFailure t j now).get k = (t.forget now).get k := by
  rw [countFailure]
  split
  · rfl
  · exact OrderedMap.get_insert_of_ne _ _ h

theorem get_countFailure_self
    (hroom : ((t.forget now).get k).isSome = true ∨ (t.forget now).entries.length < maxTrackedFailures) :
    (countFailure t k now).get k = some ((((t.forget now).get k).getD ⟨0, now⟩).again now) := by
  rw [countFailure, if_neg]
  · exact OrderedMap.get_insert_self _ _ _
  · rw [Bool.and_eq_true, decide_eq_true_iff]
    rintro ⟨hnone, hfull⟩
    rcases hroom with h | h
    · rw [Option.isNone_iff_eq_none] at hnone
      rw [hnone] at h
      cases h
    · omega

theorem waitAfter_mono {m n : Nat} (h : m ≤ n) : waitAfter m ≤ waitAfter n := by
  have hpow : Nat.pow 2 (min (m - freeFailures) 10) ≤ Nat.pow 2 (min (n - freeFailures) 10) :=
    Nat.pow_le_pow_right (by omega) (by omega)
  unfold waitAfter seconds
  omega

theorem waitAfter_lt (n : Nat) : waitAfter n < failureMemory := by
  unfold waitAfter maxCooldown failureMemory seconds
  omega

/- An entry counts at least the streak; it ends a cooldown that began with the last failure, or
holds the time of the first. -/
structure Tracked (s : Option Streak) (entry : Option Failures) (clock : Nat) : Prop where
  past : ∀ x ∈ s, x.first ≤ x.last ∧ x.last ≤ clock
  absent : entry = none → ∀ x ∈ s, failureMemory ≤ clock - x.last
  known : ∀ f ∈ entry, ∃ x ∈ s, x.count ≤ f.count ∧
    (f.count ≤ freeFailures → x.first ≤ f.cooledAt ∧ f.cooledAt ≤ x.last) ∧
    (freeFailures < f.count → x.last + waitAfter f.count ≤ f.cooledAt)

variable {s : Option Streak} {entry : Option Failures} {clock : Nat}

theorem Tracked.later (h : Tracked s entry clock) (hnow : clock ≤ now) : Tracked s entry now where
  past x hx := ⟨(h.past x hx).1, (h.past x hx).2.trans hnow⟩
  absent hentry x hx := by
    have := h.absent hentry x hx
    omega
  known := h.known

theorem Tracked.forget (h : Tracked s entry clock) (hnow : clock ≤ now)
    (hearly : ∀ x ∈ s, x.count ≤ freeFailures → failureMemory ≤ now - x.first →
      failureMemory ≤ now - x.last) :
    Tracked s (entry.filter fun f => now - f.cooledAt < failureMemory) now where
  past := (h.later hnow).past
  absent := by
    intro hgone x hx
    cases hentry : entry with
    | none => exact (h.later hnow).absent hentry x hx
    | some f =>
      rw [hentry, Option.filter_eq_none_iff] at hgone
      have hold : failureMemory ≤ now - f.cooledAt := by
        simpa using hgone f rfl
      obtain ⟨y, hy, hcount, hfree, hcooled⟩ := h.known f hentry
      obtain rfl : x = y := Option.mem_unique hx hy
      by_cases hc : f.count ≤ freeFailures
      · exact hearly x hx (hcount.trans hc) (by have := (hfree hc).1; omega)
      · have := hcooled (by omega)
        omega
  known f hf := h.known f (Option.filter_eq_some_iff.mp hf).1

theorem Tracked.fail (h : Tracked s entry clock) (hnow : clock ≤ now)
    (hearly : ∀ x ∈ s, x.count ≤ freeFailures → failureMemory ≤ now - x.first →
      failureMemory ≤ now - x.last) :
    Tracked (some (.extend s now))
      (some (((entry.filter fun f => now - f.cooledAt < failureMemory).getD ⟨0, now⟩).again now))
        now := by
  have hkept := h.forget hnow hearly
  have hext : (Streak.extend s now).last = now ∧ (Streak.extend s now).first ≤ now := by
    cases s with
    | none => exact ⟨rfl, le_refl _⟩
    | some x =>
      have := h.past x rfl
      rw [Streak.extend]
      split
      · exact ⟨rfl, le_refl _⟩
      · exact ⟨rfl, by dsimp only; omega⟩
  refine ⟨?_, fun hnone => Option.some_ne_none _ hnone |>.elim, ?_⟩
  · intro x hx
    obtain rfl := Option.some.inj hx
    exact ⟨hext.2.trans hext.1.ge, hext.1.le⟩
  intro f hf
  obtain rfl := Option.some.inj hf
  refine ⟨_, rfl, ?_⟩
  cases hentry : entry.filter fun f => now - f.cooledAt < failureMemory with
  | none =>
    -- The pair was at rest, so its streak begins anew, as its entry does.
    have hnew : Streak.extend s now = ⟨now, now, 1⟩ := by
      cases s with
      | none => rfl
      | some x => exact if_pos (hkept.absent hentry x rfl)
    rw [hnew]
    simp [Failures.again, freeFailures]
  | some f =>
    obtain ⟨x, rfl, hcount, hfree, -⟩ := hkept.known f hentry
    have hrecent : now - f.cooledAt < failureMemory := by
      simpa using (Option.filter_eq_some_iff.mp hentry).2
    have hle : (Streak.extend (some x) now).count ≤ f.count + 1 := by
      rw [Streak.extend]
      split
      · exact Nat.le_add_left 1 f.count
      · exact Nat.add_le_add_right hcount 1
    rw [Option.getD_some, Failures.again]
    split
    next hcool =>
      refine ⟨hle, fun hc => ?_, fun _ => ?_⟩
      · dsimp only at hc
        omega
      · rw [hext.1]
    next hfew =>
      refine ⟨hle, fun hc => ?_, fun hc => absurd hc hfew⟩
      have hf := hfree (by dsimp only at hc; omega)
      have hlast : ¬failureMemory ≤ now - x.last := by omega
      have hfirst : (Streak.extend (some x) now).first = x.first := by
        rw [Streak.extend, if_neg hlast]
      rw [hext.1, hfirst]
      have := (hkept.past x rfl).2
      exact ⟨hf.1, hf.2.trans this⟩

end Tracked

section Runs

variable {Peer : Type} [DecidableEq Peer] {env : Env} {k : Key Peer} {w w' : World Peer}
  {a : Attempt Peer}

theorem streak_snoc (past : List (Attempt Peer × Outcome)) (e : Attempt Peer × Outcome) :
    streak k (past ++ [e]) = streakStep k (streak k past) e := by
  rw [streak, List.foldl_append]
  rfl

theorem tracked_step (h : Tracked (streak k w.past) (w.throttle.get k) w.clock)
    (hstep : AttemptStep env w a w')
    (hkeeps : KeepsTrack env k w a) : Tracked (streak k w'.past) (w'.throttle.get k) w'.clock := by
  obtain ⟨hasked, hcounted, rfl⟩ := hstep
  have hnow : w.clock ≤ a.counted := hasked.trans hcounted
  rw [World.after]
  dsimp only
  rw [streak_snoc, Attempt.after]
  by_cases hk : a.key = k
  · subst hk
    rw [streakStep, if_neg (by simp)]
    cases houtcome : a.outcome env w.throttle with
    | unheard | unavailable why => exact h.later hnow
    | wrong =>
      obtain ⟨hroom, hearly⟩ := hkeeps houtcome
      dsimp only
      rw [get_countFailure_self (hroom rfl), Throttle.get_forget]
      exact h.fail hnow hearly
    | welcome person =>
      dsimp only
      rw [Throttle.forgetFailures, Throttle.get, OrderedMap.get_remove_self]
      exact ⟨by simp, by simp, by simp⟩
  · rw [streakStep, if_pos hk]
    cases houtcome : a.outcome env w.throttle with
    | unheard | unavailable why => exact h.later hnow
    | wrong =>
      dsimp only
      rw [get_countFailure_of_ne (Ne.symm hk), Throttle.get_forget]
      exact h.forget hnow (hkeeps houtcome).2
    | welcome person =>
      dsimp only
      rw [Throttle.forgetFailures, Throttle.get, OrderedMap.get_remove_of_ne _ (Ne.symm hk)]
      exact h.later hnow

theorem tracked_run {attempts : List (Attempt Peer)}
    (hrun : Run (fun w a w' => AttemptStep env w a w' ∧ KeepsTrack env k w a) World.start attempts w) :
    Tracked (streak k w.past) (w.throttle.get k) w.clock := by
  refine hrun.invariant (P := fun w => Tracked (streak k w.past) (w.throttle.get k) w.clock) ?_ ?_
  · exact ⟨by simp [streak, World.start], by simp [streak, World.start], by
      simp [World.start, Throttle.empty, Throttle.get, OrderedMap.get]⟩
  · intro w a w' h hstep
    exact tracked_step h hstep.1 hstep.2

/-- In a run that keeps track of a pair, an attempt inside the cooldown of its failures is refused
unheard. -/
theorem cooled_pair_unheard {attempts : List (Attempt Peer)}
    (hrun : Run (fun w a w' => AttemptStep env w a w' ∧ KeepsTrack env k w a) World.start attempts
      w) {failures : Streak}
    (hstreak : streak k w.past = some failures) (hmany : freeFailures < failures.count)
    {next : Attempt Peer} (hkey : next.key = k) (hlater : w.clock ≤ next.asked)
    (hinside : next.asked ≤ failures.last + waitAfter failures.count) :
    next.outcome env w.throttle = .unheard ∧ next.after env w.throttle = w.throttle := by
  have htracked := tracked_run hrun
  have hcooled : w.throttle.throttled next.key next.asked = true := by
    rw [hkey, Throttle.throttled, Throttle.cooldown]
    cases hentry : w.throttle.get k with
    | none =>
      have hrest := htracked.absent hentry failures hstreak
      have hshort := waitAfter_lt failures.count
      omega
    | some f =>
      obtain ⟨x, hx, hcount, -, hcooled⟩ := htracked.known f hentry
      obtain rfl : failures = x := Option.mem_unique hstreak hx
      have hwait : waitAfter failures.count ≤ waitAfter f.count := waitAfter_mono hcount
      have hend := hcooled (by omega)
      rw [Option.bind_some, if_pos (by omega)]
      rfl
  have houtcome : next.outcome env w.throttle = .unheard := by
    rw [Attempt.outcome, if_pos hcooled, ite_self]
  refine ⟨houtcome, ?_⟩
  rw [Attempt.after, houtcome]

end Runs

instance {Peer : Type} [DecidableEq Peer] (env : Env) (k : Key Peer) (w : World Peer)
    (a : Attempt Peer) :
    Decidable (KeepsTrack env k w a) :=
  inferInstanceAs (Decidable (_ → _ ∧ _))

/- Nobody is known, so every password is wrong. -/
def strangerEnv : Env := ⟨⟨3600, fun _ => none⟩, id, id, fun _ _ => false⟩

def guess (now : Nat) : Attempt Nat := ⟨"ann", "guess", some 7, seconds now, seconds now, .ok none⟩

def annKey : Key Nat := ("ann", some 7)

def guessAgain (w : World Nat) (a : Attempt Nat) : Option (World Nat) :=
  if w.clock ≤ a.asked ∧ a.asked ≤ a.counted ∧
    KeepsTrack strangerEnv annKey w a then some (w.after strangerEnv a) else none

theorem guessAgain_step {w w' : World Nat} {a : Attempt Nat} (h : guessAgain w a = some w') :
    AttemptStep strangerEnv w a w' ∧ KeepsTrack strangerEnv annKey w a := by
  rw [guessAgain] at h
  split at h
  next hstep => exact ⟨⟨hstep.1, hstep.2.1, (Option.some.inj h).symm⟩, hstep.2.2⟩
  next => cases h

theorem cooled_pair_unheard_six :
    ∃ w, Run (fun w a w' => AttemptStep strangerEnv w a w' ∧ KeepsTrack strangerEnv annKey w a)
      World.start
        ([1, 2, 3, 4, 5, 6].map guess) w ∧
      streak annKey w.past = some ⟨seconds 1, seconds 6, 6⟩ ∧
      (guess 7).outcome strangerEnv w.throttle = .unheard ∧
        (guess 7).after strangerEnv w.throttle = w.throttle := by
  have hplayed : (([1, 2, 3, 4, 5, 6].map guess).foldlM guessAgain World.start).any
      (fun w => streak annKey w.past = some ⟨seconds 1, seconds 6, 6⟩ ∧ w.clock ≤ seconds 7) = true := by
    decide +kernel
  obtain ⟨w, hw, hend⟩ := (Option.any_eq_true _ _).mp hplayed
  obtain ⟨hstreak, hclock⟩ := of_decide_eq_true hend
  have hrun := (Run.of_foldlM hw).mono fun _ _ _ => guessAgain_step
  exact ⟨w, hrun, hstreak, cooled_pair_unheard hrun hstreak (by decide) (by decide) hclock (by decide)⟩

/-- Six failures in sixty-one minutes, each within half an hour of the last, and the seventh
password is tried a second later. -/
theorem first_failure_ages :
    ∃ w, Run (AttemptStep strangerEnv) World.start ([0, 600, 1200, 1800, 3540, 3660].map guess) w ∧
      streak annKey w.past = some ⟨seconds 0, seconds 3660, 6⟩ ∧
      freeFailures < 6 ∧ w.clock ≤ seconds 3661 ∧ seconds 3661 ≤ seconds 3660 + waitAfter 6 ∧
      (guess 3661).key = annKey ∧ (guess 3661).outcome strangerEnv w.throttle = .wrong := by
  have hplayed : (([0, 600, 1200, 1800, 3540, 3660].map guess).foldlM (fun (w : World Nat) a =>
      if w.clock ≤ a.asked ∧ a.asked ≤ a.counted then some (w.after strangerEnv a) else none)
        World.start).any
      (fun w => streak annKey w.past = some ⟨seconds 0, seconds 3660, 6⟩ ∧ w.clock ≤ seconds 3661 ∧
        (guess 3661).outcome strangerEnv w.throttle = .wrong) = true := by
    decide +kernel
  obtain ⟨w, hw, hend⟩ := (Option.any_eq_true _ _).mp hplayed
  obtain ⟨hstreak, hclock, houtcome⟩ := of_decide_eq_true hend
  refine ⟨w, (Run.of_foldlM hw).mono fun w a w' h =>
    ?_, hstreak, by decide, hclock, by decide, by decide, houtcome⟩
  split at h
  next hstep => exact ⟨hstep.1, hstep.2, (Option.some.inj h).symm⟩
  next => cases h

end Pgokf.Web.Auth
