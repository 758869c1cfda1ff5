import Mathlib.Data.Finset.Card
import Mathlib.Logic.Relation

/-! # Graph walks with a node budget

A walk pops a node from a stack, fetches its edges up to one more than the budget allows, and acts
once on every new node. It stops at an empty stack, or as *truncated* when the budget is used up or
the fetch may have left edges out. -/

namespace Pgokf.Lib

structure WalkSpec (ν ε σ : Type*) where
  cap : Nat
  edges : ν → List ε
  target : ε → ν
  follow : ε → Bool
  visit : σ → ν → σ

structure Walk (ν σ : Type*) where
  visited : Finset ν
  -- The stack of nodes still to expand, its top first.
  frontier : List ν
  store : σ
  truncated : Bool

variable {ν ε σ : Type*} [DecidableEq ν]

/-- The walk before its first pass: every root is visited, and the last root is popped first. -/
def Walk.start (roots : List ν) (s : σ) : Walk ν σ :=
  { visited := roots.toFinset, frontier := roots.reverse, store := s, truncated := false }

def Walk.running (w : Walk ν σ) : Bool := !w.truncated && !w.frontier.isEmpty

namespace WalkSpec

variable (W : WalkSpec ν ε σ)

def scan : List ε → Walk ν σ → Walk ν σ
  | [], w => w
  | e :: es, w =>
    if W.follow e = false ∨ W.target e ∈ w.visited then scan es w
    else
      let found : Walk ν σ :=
        { w with
          visited := insert (W.target e) w.visited
          store := W.visit w.store (W.target e) }
      if W.cap ≤ found.visited.card then { found with truncated := true }
      else scan es { found with frontier := W.target e :: found.frontier }

def pass (w : Walk ν σ) : Walk ν σ :=
  match w.frontier with
  | [] => w
  | n :: rest =>
    if W.cap ≤ w.visited.card then { w with frontier := rest, truncated := true }
    else
      let remaining := W.cap - w.visited.card
      let fetched := (W.edges n).take (remaining + 1)
      let scanned := W.scan fetched { w with frontier := rest }
      { scanned with truncated := scanned.truncated || decide (remaining < fetched.length) }

def iterate : Nat → Walk ν σ → Walk ν σ
  | 0, w => w
  | n + 1, w => if w.running then iterate n (W.pass w) else w

/- Enough passes for the walk to stop, by `iterate_stops`. -/
def run (roots : List ν) (s : σ) : Walk ν σ :=
  W.iterate (roots.length + W.cap) (Walk.start roots s)

def Edge (a b : ν) : Prop := ∃ e ∈ W.edges a, W.follow e = true ∧ W.target e = b

def Reached (roots : List ν) (n : ν) : Prop := ∃ r ∈ roots, Relation.ReflTransGen W.Edge r n

variable {W} {w : Walk ν σ} {es : List ε} {roots : List ν} {s : σ}

theorem scan_cons (W : WalkSpec ν ε σ) (e : ε) (es : List ε) (w : Walk ν σ) :
    (W.follow e = false ∨ W.target e ∈ w.visited) ∧ W.scan (e :: es) w = W.scan es w ∨
    (W.follow e = true ∧ W.target e ∉ w.visited) ∧
      (W.cap ≤ w.visited.card + 1 ∧ W.scan (e :: es) w =
        ⟨insert (W.target e) w.visited, w.frontier, W.visit w.store (W.target e), true⟩ ∨
      w.visited.card + 1 < W.cap ∧ W.scan (e :: es) w = W.scan es
        ⟨insert (W.target e) w.visited, W.target e :: w.frontier, W.visit w.store (W.target e),
          w.truncated⟩) := by
  by_cases hskip : W.follow e = false ∨ W.target e ∈ w.visited
  · exact .inl ⟨hskip, by simp only [scan, if_pos hskip]⟩
  · have hnew : W.target e ∉ w.visited := fun h => hskip (.inr h)
    have hfollow : W.follow e = true := by simpa using fun h => hskip (.inl h)
    have hcard : (insert (W.target e) w.visited).card = w.visited.card + 1 :=
      Finset.card_insert_of_notMem hnew
    refine .inr ⟨⟨hfollow, hnew⟩, ?_⟩
    by_cases hcap : W.cap ≤ w.visited.card + 1
    · exact .inl ⟨hcap, by simp only [scan, if_neg hskip, hcard, if_pos hcap]⟩
    · exact .inr ⟨by omega, by simp only [scan, if_neg hskip, hcard, if_neg hcap]⟩

theorem scan_visited_subset (W : WalkSpec ν ε σ) (es : List ε) (w : Walk ν σ) :
    w.visited ⊆ (W.scan es w).visited := by
  induction es generalizing w with
  | nil => exact subset_rfl
  | cons e es ih =>
    obtain ⟨-, h⟩ | ⟨-, ⟨-, h⟩ | ⟨-, h⟩⟩ := scan_cons W e es w
    · exact h ▸ ih w
    · exact h ▸ Finset.subset_insert _ _
    · rw [h]
      exact fun n hn => ih _ (Finset.mem_insert_of_mem hn)

theorem scan_frontier_subset (W : WalkSpec ν ε σ) (es : List ε) (w : Walk ν σ) :
    w.frontier ⊆ (W.scan es w).frontier := by
  induction es generalizing w with
  | nil => exact fun _ h => h
  | cons e es ih =>
    obtain ⟨-, h⟩ | ⟨-, ⟨-, h⟩ | ⟨-, h⟩⟩ := scan_cons W e es w
    · exact h ▸ ih w
    · exact h ▸ fun _ h => h
    · rw [h]
      exact fun n hn => ih _ (List.mem_cons_of_mem _ hn)

theorem scan_frontier_visited (hw : ∀ n ∈ w.frontier, n ∈ w.visited) :
    ∀ n ∈ (W.scan es w).frontier, n ∈ (W.scan es w).visited := by
  induction es generalizing w with
  | nil => exact hw
  | cons e es ih =>
    obtain ⟨-, h⟩ | ⟨-, ⟨-, h⟩ | ⟨-, h⟩⟩ := scan_cons W e es w
    · exact h ▸ ih hw
    · exact h ▸ fun n hn => Finset.mem_insert_of_mem (hw n hn)
    · rw [h]
      refine ih fun n hn => ?_
      obtain rfl | hn := List.mem_cons.mp hn
      · exact Finset.mem_insert_self _ _
      · exact Finset.mem_insert_of_mem (hw n hn)

theorem scan_new_pushed (h : (W.scan es w).truncated = false) :
    ∀ n ∈ (W.scan es w).visited, n ∈ w.visited ∨ n ∈ (W.scan es w).frontier := by
  induction es generalizing w with
  | nil => exact fun n hn => .inl hn
  | cons e es ih =>
    obtain ⟨-, hs⟩ | ⟨-, ⟨-, hs⟩ | ⟨-, hs⟩⟩ := scan_cons W e es w
    · rw [hs] at h ⊢
      exact ih h
    · simp [hs] at h
    · rw [hs] at h ⊢
      intro n hn
      obtain hn | hn := ih h n hn
      · obtain rfl | hn := Finset.mem_insert.mp hn
        · exact .inr (scan_frontier_subset W es _ List.mem_cons_self)
        · exact .inl hn
      · exact .inr hn

theorem scan_complete (h : (W.scan es w).truncated = false) :
    ∀ e ∈ es, W.follow e = true → W.target e ∈ (W.scan es w).visited := by
  induction es generalizing w with
  | nil => simp
  | cons e es ih =>
    have hmono := fun v => scan_visited_subset W es v
    obtain ⟨hskip, hs⟩ | ⟨-, ⟨-, hs⟩ | ⟨-, hs⟩⟩ := scan_cons W e es w
    · rw [hs] at h ⊢
      intro e' he' hf
      obtain rfl | he' := List.mem_cons.mp he'
      · obtain hskip | hskip := hskip
        · simp [hskip] at hf
        · exact hmono _ hskip
      · exact ih h e' he' hf
    · simp [hs] at h
    · rw [hs] at h ⊢
      intro e' he' hf
      obtain rfl | he' := List.mem_cons.mp he'
      · exact hmono _ (Finset.mem_insert_self _ _)
      · exact ih h e' he' hf

theorem scan_truncated (h : w.truncated = true) : (W.scan es w).truncated = true := by
  induction es generalizing w with
  | nil => exact h
  | cons e es ih =>
    obtain ⟨-, hs⟩ | ⟨-, ⟨-, hs⟩ | ⟨-, hs⟩⟩ := scan_cons W e es w
    · exact hs ▸ ih h
    · exact hs ▸ rfl
    · exact hs ▸ ih h

theorem scan_measure (h : (W.scan es w).truncated = false) :
    (W.scan es w).frontier.length + (W.cap - (W.scan es w).visited.card) =
      w.frontier.length + (W.cap - w.visited.card) := by
  induction es generalizing w with
  | nil => rfl
  | cons e es ih =>
    obtain ⟨-, hs⟩ | ⟨⟨-, hnew⟩, ⟨-, hs⟩ | ⟨hcap, hs⟩⟩ := scan_cons W e es w
    · rw [hs] at h ⊢
      exact ih h
    · simp [hs] at h
    · rw [hs] at h ⊢
      rw [ih h]
      simp only [List.length_cons, Finset.card_insert_of_notMem hnew]
      omega

/- The nodes met so far besides the roots, each acted on exactly once. -/
def Found (W : WalkSpec ν ε σ) (roots : List ν) (s : σ) (w : Walk ν σ) : Prop :=
  ∃ found : List ν, found.Nodup ∧ w.store = found.foldl W.visit s ∧
    (∀ n, n ∈ w.visited ↔ n ∈ roots ∨ n ∈ found) ∧ (∀ n ∈ found, n ∉ roots ∧ W.Reached roots n)

theorem start_found (W : WalkSpec ν ε σ) (roots : List ν) (s : σ) :
    W.Found roots s (Walk.start roots s) :=
  ⟨[], List.nodup_nil, rfl, by simp [Walk.start], by simp⟩

omit [DecidableEq ν] in
theorem Found.reached (h : W.Found roots s w) {n : ν} (hn : n ∈ w.visited) : W.Reached roots n := by
  obtain ⟨found, -, -, hvisited, hfound⟩ := h
  obtain hroot | hn := (hvisited n).mp hn
  · exact ⟨n, hroot, .refl⟩
  · exact (hfound n hn).2

variable {n : ν}

theorem Found.insert (h : W.Found roots s w) (hn : n ∉ w.visited) (hr : W.Reached roots n)
    (frontier : List ν) (truncated : Bool) :
    W.Found roots s ⟨insert n w.visited, frontier, W.visit w.store n, truncated⟩ := by
  obtain ⟨found, hnodup, hstore, hvisited, hfound⟩ := h
  have hnew : n ∉ roots ∧ n ∉ found := by simpa [hvisited] using hn
  refine ⟨found ++ [n], ?_, ?_, ?_, ?_⟩
  · exact List.nodup_append.mpr ⟨hnodup, List.nodup_singleton n, by
      rintro a ha b hb rfl
      exact hnew.2 (List.mem_singleton.mp hb ▸ ha)⟩
  · simp [hstore]
  · intro m
    simp only [Finset.mem_insert, hvisited, List.mem_append, List.mem_singleton]
    tauto
  · intro m hm
    obtain hm | hm := List.mem_append.mp hm
    · exact hfound m hm
    · rw [List.mem_singleton.mp hm]
      exact ⟨hnew.1, hr⟩

theorem scan_found (h : W.Found roots s w)
    (hes : ∀ e ∈ es, W.follow e = true → W.Reached roots (W.target e)) :
    W.Found roots s (W.scan es w) := by
  induction es generalizing w with
  | nil => exact h
  | cons e es ih =>
    have hrest := fun e' he' => hes e' (List.mem_cons_of_mem _ he')
    obtain ⟨-, hs⟩ | ⟨⟨hf, hnew⟩, ⟨-, hs⟩ | ⟨-, hs⟩⟩ := scan_cons W e es w
    · exact hs ▸ ih h hrest
    · exact hs ▸ h.insert hnew (hes e List.mem_cons_self hf) _ _
    · exact hs ▸ ih (h.insert hnew (hes e List.mem_cons_self hf) _ _) hrest

structure Inv (W : WalkSpec ν ε σ) (roots : List ν) (s : σ) (w : Walk ν σ) : Prop where
  found : W.Found roots s w
  stacked : ∀ n ∈ w.frontier, n ∈ w.visited
  /- Every visited node that is no longer on the stack has been expanded completely. -/
  expanded : w.truncated = false → ∀ n ∈ w.visited, n ∉ w.frontier → ∀ m, W.Edge n m → m ∈ w.visited

theorem start_inv (W : WalkSpec ν ε σ) (roots : List ν) (s : σ) :
    W.Inv roots s (Walk.start roots s) where
  found := start_found W roots s
  stacked := by simp [Walk.start]
  expanded := by
    intro _ n hn hout
    simp_all [Walk.start]

theorem pass_inv (h : W.Inv roots s w) : W.Inv roots s (W.pass w) := by
  obtain ⟨visited, frontier, store, truncated⟩ := w
  cases frontier with
  | nil => exact h
  | cons n rest =>
    have hn : n ∈ visited := h.stacked n List.mem_cons_self
    have hrest : ∀ m ∈ rest, m ∈ visited := fun m hm => h.stacked m (List.mem_cons_of_mem _ hm)
    have hfound : W.Found roots s ⟨visited, rest, store, truncated⟩ := h.found
    by_cases hcap : W.cap ≤ visited.card
    · simp only [pass, if_pos hcap]
      exact ⟨h.found, hrest, by simp⟩
    · simp only [pass, if_neg hcap]
      -- Every fetched edge leads to a node reached from the roots, since `n` is.
      have hes : ∀ e ∈ (W.edges n).take (W.cap - visited.card + 1), W.follow e = true →
          W.Reached roots (W.target e) := by
        intro e he hf
        obtain ⟨r, hr, hpath⟩ := h.found.reached hn
        exact ⟨r, hr, hpath.tail ⟨e, List.mem_of_mem_take he, hf, rfl⟩⟩
      refine ⟨scan_found hfound hes, scan_frontier_visited hrest, ?_⟩
      intro htr m hm hout k hk
      simp only [Bool.or_eq_false_iff, decide_eq_false_iff_not, not_lt] at htr
      obtain ⟨hscan, hlen⟩ := htr
      obtain hm | hm := scan_new_pushed hscan m hm
      · by_cases hmn : m = n
        · -- The popped node: nothing was left out of the fetch, so every edge was scanned.
          subst hmn
          obtain ⟨e, he, hf, rfl⟩ := hk
          rw [List.length_take] at hlen
          have hall : (W.edges m).take (W.cap - visited.card + 1) = W.edges m :=
            List.take_of_length_le (by omega)
          exact scan_complete hscan e (by rwa [hall]) hf
        · have htr : truncated = false := by
            by_contra hne
            have : truncated = true := by simpa using hne
            exact absurd hscan (by simp [scan_truncated, this])
          have hold : m ∉ n :: rest := by
            intro hmem
            obtain hmem | hmem := List.mem_cons.mp hmem
            · exact hmn hmem
            · exact hout (scan_frontier_subset W _ _ hmem)
          exact scan_visited_subset W _ _ (h.expanded htr m hm hold k hk)
      · exact absurd hm hout

theorem iterate_inv (h : W.Inv roots s w) (n : Nat) : W.Inv roots s (W.iterate n w) := by
  induction n generalizing w with
  | zero => exact h
  | succ n ih =>
    simp only [iterate]
    split
    · exact ih (pass_inv h)
    · exact h

theorem iterate_of_not_running (h : w.running = false) (n : Nat) : W.iterate n w = w := by
  cases n with
  | zero => rfl
  | succ n => simp [iterate, h]

theorem iterate_stable {n m : Nat} (h : (W.iterate n w).running = false) (hnm : n ≤ m) :
    W.iterate m w = W.iterate n w := by
  induction n generalizing w m with
  | zero => exact iterate_of_not_running h m
  | succ n ih =>
    cases m with
    | zero => omega
    | succ m =>
      simp only [iterate] at h ⊢
      by_cases hrun : w.running = true
      · rw [if_pos hrun] at h ⊢
        rw [if_pos hrun]
        exact ih h (by omega)
      · rw [if_neg hrun, if_neg hrun]

/-- A pass truncates the walk, or uses up one unit of stack and budget together. -/
theorem pass_measure (W : WalkSpec ν ε σ) (h : w.running = true) :
    (W.pass w).truncated = true ∨
      (W.pass w).frontier.length + (W.cap - (W.pass w).visited.card) + 1 =
        w.frontier.length + (W.cap - w.visited.card) := by
  obtain ⟨visited, frontier, store, truncated⟩ := w
  cases frontier with
  | nil => simp [Walk.running] at h
  | cons n rest =>
    by_cases hcap : W.cap ≤ visited.card
    · exact .inl (by simp only [pass, if_pos hcap])
    · simp only [pass, if_neg hcap]
      by_cases hscan : (W.scan ((W.edges n).take (W.cap - visited.card + 1))
          ⟨visited, rest, store, truncated⟩).truncated = true
      · exact .inl (by simp [hscan])
      · have := scan_measure (by simpa using hscan)
        simp only [List.length_cons] at this ⊢
        omega

theorem iterate_stops (n : Nat) (h : w.frontier.length + (W.cap - w.visited.card) ≤ n) :
    (W.iterate n w).running = false := by
  induction n generalizing w with
  | zero =>
    have : w.frontier = [] := List.length_eq_zero_iff.mp (by omega)
    simp [iterate, Walk.running, this]
  | succ n ih =>
    simp only [iterate]
    split
    · rename_i hrun
      obtain ht | hm := pass_measure W hrun
      · have hstop : (W.pass w).running = false := by simp [Walk.running, ht]
        rw [iterate_of_not_running hstop, hstop]
      · exact ih (by omega)
    · simp_all

theorem run_stops (W : WalkSpec ν ε σ) (roots : List ν) (s : σ) : (W.run roots s).running = false := by
  refine iterate_stops _ ?_
  simp only [Walk.start, List.length_reverse]
  omega

theorem run_found (W : WalkSpec ν ε σ) (roots : List ν) (s : σ) : W.Found roots s (W.run roots s) :=
  (iterate_inv (start_inv W roots s) _).found

/-- A walk that is not truncated has met every reached node. -/
theorem run_complete (h : (W.run roots s).truncated = false) (hn : W.Reached roots n) :
    n ∈ (W.run roots s).visited := by
  have hinv : W.Inv roots s (W.run roots s) := iterate_inv (start_inv W roots s) _
  have hempty : (W.run roots s).frontier = [] := by
    have := run_stops W roots s
    simpa [Walk.running, h] using this
  obtain ⟨r, hr, hpath⟩ := hn
  induction hpath with
  | refl =>
    obtain ⟨found, -, -, hvisited, -⟩ := hinv.found
    exact (hvisited r).mpr (.inl hr)
  | tail _ hedge ih => exact hinv.expanded h _ ih (by simp [hempty]) _ hedge

end WalkSpec

end Pgokf.Lib
