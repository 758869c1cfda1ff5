import Mathlib.Data.List.Induction

/-! # Actions that keep their state when they fail

`EStateM` runs an action to a value or an error, and to the state it leaves in either case. -/

namespace Pgokf.Lib

variable {ε σ α α' : Type}

def stateAfter : EStateM.Result ε σ α → σ
  | .ok _ s => s
  | .error _ s => s

def Keeps (R : σ → σ → Prop) (x : EStateM ε σ α) : Prop := ∀ s, R s (stateAfter (x s))

variable {s t : σ}

def reporting {ε' : Type} (x : σ → EStateM.Result ε σ α) (report : ε → ε') : EStateM ε' σ α := fun s =>
  match x s with
  | .ok a s => .ok a s
  | .error e s => .error (report e) s

variable {ε' : Type} {x : σ → EStateM.Result ε σ α} {report : ε → ε'}

theorem reporting_of_ok {a : α} (h : x s = .ok a t) : reporting x report s = .ok a t := by
  rw [reporting, h]

theorem reporting_of_error {e : ε} (h : x s = .error e t) :
    reporting x report s = .error (report e) t := by
  rw [reporting, h]

section Fold

variable {f : α' → α → EStateM ε σ α'} {R : σ → σ → Prop} {l : List α} {b : α'} {s : σ}

variable {x : EStateM ε σ α} {g : α → EStateM ε σ α'} {t : σ} {a : α}

theorem bind_of_ok (h : x s = .ok a t) :
    (x >>= g) s = g a t := by
  change EStateM.bind x g s = g a t
  rw [EStateM.bind, h]

theorem bind_of_error {e : ε} (h : x s = .error e t) :
    (x >>= g) s = .error e t := by
  change EStateM.bind x g s = .error e t
  rw [EStateM.bind, h]

theorem foldlM_snoc (a : α) : (l ++ [a]).foldlM f b = l.foldlM f b >>= fun b => f b a := by
  rw [List.foldlM_append]
  refine bind_congr fun b => ?_
  rw [List.foldlM_cons]
  exact bind_pure _

theorem foldlM_keeps (hrefl : ∀ s, R s s) (htrans : ∀ s t u, R s t → R t u → R s u)
    (hstep : ∀ before a after b' t, l = before ++ a :: after → before.foldlM f b s = .ok b' t →
      R t (stateAfter (f b' a t))) : R s (stateAfter (l.foldlM f b s)) := by
  induction l using List.reverseRecOn with
  | nil => exact hrefl s
  | append_singleton l a ih =>
    have hinit : R s (stateAfter (l.foldlM f b s)) := by
      refine ih fun before x after b' t hl hrun => hstep before x (after ++ [a]) b' t ?_ hrun
      rw [hl, List.append_assoc, List.cons_append]
    rw [foldlM_snoc]
    cases hrun : l.foldlM f b s with
    | error e t =>
      rw [bind_of_error hrun]
      rw [hrun] at hinit
      exact hinit
    | ok b' t =>
      rw [bind_of_ok hrun]
      rw [hrun] at hinit
      exact htrans s t _ hinit (hstep l a [] b' t rfl hrun)

variable {b' : α'}

theorem foldlM_keeps_after (hrefl : ∀ s, R s s) (htrans : ∀ s t u, R s t → R t u → R s u)
    (hf : ∀ b a, Keeps R (f b a)) {before after : List α} (hrun : before.foldlM f b s = .ok b' t) :
    R (stateAfter (f b' a t)) (stateAfter ((before ++ a :: after).foldlM f b s)) := by
  rw [List.foldlM_append, bind_of_ok hrun, List.foldlM_cons]
  cases hstep : f b' a t with
  | error e u =>
    rw [bind_of_error hstep]
    exact hrefl u
  | ok b'' u =>
    rw [bind_of_ok hstep]
    exact foldlM_keeps hrefl htrans fun _ x _ c v _ _ => hf c x v

end Fold

end Pgokf.Lib
