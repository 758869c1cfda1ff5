import Pgokf.Lib.Run

/-! # Stores whose calls are transactions

A call either commits a new state with a reply or is refused and leaves the state as it was. -/

namespace Pgokf.Lib

universe u

section Checks

variable {ε : Type*} {α β : Type u}

def ensure (c : Bool) (e : ε) : Except ε Unit := if c then .ok () else .error e

def orRefuse (o : Option α) (e : ε) : Except ε α := match o with
  | none => .error e
  | some a => .ok a

variable {e : ε}

@[simp] theorem ensure_eq_ok {c : Bool} {u : Unit} : ensure c e = .ok u ↔ c = true := by
  unfold ensure
  split <;> simp_all

variable {a : α}

@[simp] theorem orRefuse_eq_ok {o : Option α} : orRefuse o e = .ok a ↔ o = some a := by
  cases o <;> simp [orRefuse]

@[simp] theorem bind_eq_ok {x : Except ε α} {f : α → Except ε β} {b : β} :
    x >>= f = .ok b ↔ ∃ a, x = .ok a ∧ f a = .ok b := by
  cases x with
  | error e | ok a => simp [bind, Except.bind]

@[simp] theorem pure_eq_ok {b : α} : (pure a : Except ε α) = .ok b ↔ a = b := by
  simp [pure, Except.pure]

theorem run_of_foldlM {σ α : Type*} {f : σ → α → Except ε σ} {s t : σ} {ls : List α}
    (h : ls.foldlM f s = .ok t) : Run (fun s a t => f s a = .ok t) s ls t := by
  induction ls generalizing s with
  | nil =>
    obtain rfl : s = t := Except.ok.inj h
    exact .start s
  | cons a ls ih =>
    obtain ⟨u, ha, hrest⟩ := bind_eq_ok.mp h
    exact Run.cons_iff.mpr ⟨u, ha, ih hrest⟩

end Checks

section Journal

variable {σ κ ε ρ : Type*}

structure Entry (κ ε ρ : Type*) where
  call : κ
  result : Except ε ρ

inductive Step (exec : σ → κ → Except ε (σ × ρ)) : σ → Entry κ ε ρ → σ → Prop where
  | commit {s t : σ} {c : κ} {r : ρ} : exec s c = .ok (t, r) → Step exec s ⟨c, .ok r⟩ t
  | refuse {s : σ} {c : κ} {e : ε} : exec s c = .error e → Step exec s ⟨c, .error e⟩ s

def play (exec : σ → κ → Except ε (σ × ρ)) (s : σ) : List κ → σ × List (Entry κ ε ρ)
  | [] => (s, [])
  | c :: cs =>
    match exec s c with
    | .ok (t, r) =>
      let rest := play exec t cs
      (rest.1, ⟨c, .ok r⟩ :: rest.2)
    | .error e =>
      let rest := play exec s cs
      (rest.1, ⟨c, .error e⟩ :: rest.2)

theorem play_run (exec : σ → κ → Except ε (σ × ρ)) (s : σ) (cs : List κ) :
    Run (Step exec) s (play exec s cs).2 (play exec s cs).1 := by
  induction cs generalizing s with
  | nil => exact .start s
  | cons c cs ih =>
    unfold play
    split
    · rename_i t r h
      exact Run.cons_iff.mpr ⟨t, .commit h, ih t⟩
    · rename_i e h
      exact Run.cons_iff.mpr ⟨s, .refuse h, ih s⟩

theorem play_calls (exec : σ → κ → Except ε (σ × ρ)) (s : σ) (cs : List κ) :
    (play exec s cs).2.map (·.call) = cs := by
  induction cs generalizing s with
  | nil => rfl
  | cons c cs ih =>
    unfold play
    split <;> simp [ih]

theorem play_step {exec : σ → κ → Except ε (σ × ρ)} {s : σ} {c : κ} {r : ρ}
    (h : (play exec s [c]).2.map (·.result) = [.ok r]) :
    Step exec s ⟨c, .ok r⟩ (play exec s [c]).1 := by
  unfold play at h ⊢
  split
  · rename_i t r' hexec
    obtain rfl : r' = r := by simpa [hexec, play] using h
    exact .commit hexec
  · rename_i e hexec
    simp [hexec, play] at h

end Journal

end Pgokf.Lib
