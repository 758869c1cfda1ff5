import Mathlib.Data.List.Nodup
import Mathlib.Logic.Function.Basic
import Mathlib.Logic.Function.Iterate
import Pgokf.Lib.Transaction

/-! # Breadth-first search by levels

The nodes of a finite graph by levels, their distances, and a search that keeps one record for every
node and may stop at a number of nodes. -/

namespace Pgokf.Lib

/- A finite graph, given by its edges; two nodes may have several edges between them. -/
structure Graph (ν ε : Type) where
  source : ε → ν
  target : ε → ν
  edges : List ε

variable {ν ε ρ err : Type}

namespace Graph

variable (G : Graph ν ε)

inductive Trail (s : ν) : List ε → ν → Prop where
  | nil : Trail s [] s
  | snoc {es : List ε} {e : ε} : Trail s es (G.source e) → e ∈ G.edges → Trail s (es ++ [e]) (G.target e)

def Distance (s v : ν) (n : Nat) : Prop :=
  (∃ es, G.Trail s es v ∧ es.length = n) ∧ ∀ es, G.Trail s es v → n ≤ es.length

def Within (s : ν) (hops : Int) (v : ν) : Prop :=
  v ≠ s ∧ ∃ n : Nat, 1 ≤ n ∧ (n : Int) ≤ hops ∧ G.Distance s v n

/-- A listing of the edges that leave a set of nodes, in an order of its own. -/
def Lists (edgesOf : List ν → List ε) : Prop :=
  ∀ frontier e, e ∈ edgesOf frontier ↔ e ∈ G.edges ∧ G.source e ∈ frontier

variable {G} {s v : ν} {n : Nat}

theorem Distance.unique {m : Nat} (h : G.Distance s v n) (h' : G.Distance s v m) : n = m := by
  obtain ⟨⟨es, hes, rfl⟩, hmin⟩ := h
  obtain ⟨⟨es', hes', rfl⟩, hmin'⟩ := h'
  exact Nat.le_antisymm (hmin es' hes') (hmin' es hes)

theorem distance_zero_iff : G.Distance s v 0 ↔ v = s := by
  constructor
  · rintro ⟨⟨es, hes, hlen⟩, -⟩
    cases hes with
    | nil => rfl
    | snoc => simp at hlen
  · rintro rfl
    exact ⟨⟨[], .nil, rfl⟩, fun es _ => Nat.zero_le _⟩

/-- The nodes that a shortest trail passes are nearer than its end. -/
theorem Trail.passes {es : List ε} (h : G.Trail s es v) (hmin : G.Distance s v es.length) :
    ∀ e ∈ es, G.target e = v ∨ ∃ m, m < es.length ∧ G.Distance s (G.target e) m := by
  induction h with
  | nil => exact fun e he => absurd he List.not_mem_nil
  | snoc htrail hmem ih =>
    rename_i es last
    rw [List.length_append, List.length_singleton] at hmin ⊢
    -- A shorter way to where the last edge leaves would make one to the end.
    have hshort : G.Distance s (G.source last) es.length := by
      refine ⟨⟨es, htrail, rfl⟩, fun es' htrail' => ?_⟩
      have hle := hmin.2 _ (.snoc htrail' hmem)
      rw [List.length_append, List.length_singleton] at hle
      exact Nat.le_of_succ_le_succ hle
    intro e he
    rcases List.mem_append.mp he with he | he
    · refine .inr ?_
      rcases ih hshort e he with heq | ⟨m, hlt, hdist⟩
      · exact ⟨es.length, Nat.lt_succ_self _, by rw [heq]; exact hshort⟩
      · exact ⟨m, Nat.lt_succ_of_lt hlt, hdist⟩
    · rw [List.mem_singleton.mp he]
      exact .inl rfl

end Graph

/-! ### The order of a search -/

section Order

variable [DecidableEq ν]

/-- What is met for the first time, in the order it is met. -/
def firstMet (seen : List ν) : List ν → List ν
  | [] => []
  | t :: ts => if t ∈ seen then firstMet seen ts else t :: firstMet (seen ++ [t]) ts

variable {seen : List ν}

theorem mem_firstMet {ts : List ν} {v : ν} : v ∈ firstMet seen ts ↔ v ∈ ts ∧ v ∉ seen := by
  induction ts generalizing seen with
  | nil => simp [firstMet]
  | cons t ts ih =>
    rw [firstMet]
    split
    next ht =>
      rw [ih, List.mem_cons]
      constructor
      · rintro ⟨hv, hseen⟩
        exact ⟨.inr hv, hseen⟩
      · rintro ⟨rfl | hv, hseen⟩
        · exact absurd ht hseen
        · exact ⟨hv, hseen⟩
    next ht =>
      rw [List.mem_cons, ih, List.mem_cons, List.mem_append, List.mem_singleton, not_or]
      constructor
      · rintro (rfl | ⟨hv, hseen, -⟩)
        · exact ⟨.inl rfl, ht⟩
        · exact ⟨.inr hv, hseen⟩
      · rintro ⟨rfl | hv, hseen⟩
        · exact .inl rfl
        · by_cases hvt : v = t
          · exact .inl hvt
          · exact .inr ⟨hv, hseen, hvt⟩

theorem nodup_append_firstMet (h : seen.Nodup) (ts : List ν) :
    (seen ++ firstMet seen ts).Nodup := by
  induction ts generalizing seen with
  | nil => simpa [firstMet] using h
  | cons t ts ih =>
    rw [firstMet]
    split
    next => exact ih h
    next ht =>
      have hseen : (seen ++ [t]).Nodup := by
        rw [List.nodup_append]
        refine ⟨h, List.nodup_singleton t, ?_⟩
        intro a ha b hb
        obtain rfl := List.mem_singleton.mp hb
        rintro rfl
        exact ht ha
      simpa [List.append_assoc] using ih hseen

variable (target : ε → ν) (edgesOf : List ν → List ε) (s : ν)

def advance (w : List ν × List ν) : List ν × List ν :=
  let new := firstMet w.1 ((edgesOf w.2).map target)
  (w.1 ++ new, new)

def wave (k : Nat) : List ν × List ν := (advance target edgesOf)^[k] ([s], [s])

def ball (k : Nat) : List ν := (wave target edgesOf s k).1
def sphere (k : Nat) : List ν := (wave target edgesOf s k).2

/-- The nodes a search meets within so many levels, the one it starts from left out. -/
def searchOrder (k : Nat) : List ν := (ball target edgesOf s k).tail

variable {target edgesOf s} {k : Nat} {v : ν}

theorem wave_succ : wave target edgesOf s (k + 1) = advance target edgesOf (wave target edgesOf s k) :=
  Function.iterate_succ_apply' _ _ _

theorem sphere_succ : sphere target edgesOf s (k + 1) =
    firstMet (ball target edgesOf s k) ((edgesOf (sphere target edgesOf s k)).map target) := by
  rw [sphere, wave_succ]
  rfl

theorem ball_succ : ball target edgesOf s (k + 1) =
    ball target edgesOf s k ++ sphere target edgesOf s (k + 1) := by
  rw [sphere_succ, ball, wave_succ]
  rfl

theorem ball_nodup : (ball target edgesOf s k).Nodup := by
  induction k with
  | zero => exact List.nodup_singleton s
  | succ k ih =>
    rw [ball_succ, sphere_succ]
    exact nodup_append_firstMet ih _

theorem ball_eq_cons : ball target edgesOf s k = s :: searchOrder target edgesOf s k := by
  induction k with
  | zero => rfl
  | succ k ih => rw [searchOrder, ball_succ, ih, List.cons_append, List.tail_cons]

theorem searchOrder_succ : searchOrder target edgesOf s (k + 1) =
    searchOrder target edgesOf s k ++ sphere target edgesOf s (k + 1) := by
  have h : ball target edgesOf s (k + 1) = ball target edgesOf s k ++ sphere target edgesOf s (k + 1) :=
    ball_succ
  rw [ball_eq_cons, ball_eq_cons, List.cons_append] at h
  exact (List.cons.inj h).2

theorem searchOrder_grows {j : Nat} (h : j ≤ k) :
    ∃ rest, searchOrder target edgesOf s k = searchOrder target edgesOf s j ++ rest := by
  induction h with
  | refl => exact ⟨[], (List.append_nil _).symm⟩
  | step _ ih =>
    obtain ⟨rest, hrest⟩ := ih
    exact ⟨rest ++ _, by rw [searchOrder_succ, hrest, List.append_assoc]⟩

theorem searchOrder_nodup : (searchOrder target edgesOf s k).Nodup ∧
    s ∉ searchOrder target edgesOf s k := by
  have h : (ball target edgesOf s k).Nodup := ball_nodup
  rw [ball_eq_cons, List.nodup_cons] at h
  exact ⟨h.2, h.1⟩

theorem ball_mono {j : Nat} (h : j ≤ k) (hv : v ∈ ball target edgesOf s j) :
    v ∈ ball target edgesOf s k := by
  induction h with
  | refl => exact hv
  | step _ ih =>
    rw [ball_succ]
    exact List.mem_append_left _ ih

theorem mem_ball_iff_sphere : v ∈ ball target edgesOf s k ↔ ∃ j ≤ k, v ∈ sphere target edgesOf s j := by
  induction k with
  | zero =>
    constructor
    · intro hv
      exact ⟨0, Nat.le_refl 0, hv⟩
    · rintro ⟨j, hj, hv⟩
      obtain rfl := Nat.le_zero.mp hj
      exact hv
  | succ k ih =>
    rw [ball_succ, List.mem_append, ih]
    constructor
    · rintro (⟨j, hj, hv⟩ | hv)
      · exact ⟨j, Nat.le_succ_of_le hj, hv⟩
      · exact ⟨k + 1, Nat.le_refl _, hv⟩
    · rintro ⟨j, hj, hv⟩
      rcases Nat.le_succ_iff.mp hj with hj | rfl
      · exact .inl ⟨j, hj, hv⟩
      · exact .inr hv

theorem mem_sphere_succ : v ∈ sphere target edgesOf s (k + 1) ↔
    v ∈ ball target edgesOf s (k + 1) ∧ v ∉ ball target edgesOf s k := by
  rw [ball_succ, List.mem_append, sphere_succ, mem_firstMet]
  constructor
  · rintro ⟨hv, hnew⟩
    exact ⟨.inr ⟨hv, hnew⟩, hnew⟩
  · rintro ⟨hold | hv, hnew⟩
    · exact absurd hold hnew
    · exact hv

end Order

section Distances

variable [DecidableEq ν] {G : Graph ν ε} {edgesOf : List ν → List ε} {s v : ν} {k n : Nat}

theorem mem_ball_iff_trail (hG : G.Lists edgesOf) :
    v ∈ ball G.target edgesOf s k ↔ ∃ es, G.Trail s es v ∧ es.length ≤ k := by
  induction k generalizing v with
  | zero =>
    constructor
    · intro hv
      obtain rfl : v = s := List.mem_singleton.mp hv
      exact ⟨[], .nil, Nat.le_refl 0⟩
    · rintro ⟨es, hes, hlen⟩
      cases hes with
      | nil => exact List.mem_singleton.mpr rfl
      | snoc => simp at hlen
  | succ k ih =>
    constructor
    · intro hv
      rw [ball_succ, List.mem_append, sphere_succ, mem_firstMet] at hv
      rcases hv with hv | ⟨hv, -⟩
      · obtain ⟨es, hes, hlen⟩ := ih.mp hv
        exact ⟨es, hes, Nat.le_succ_of_le hlen⟩
      · obtain ⟨e, he, rfl⟩ := List.mem_map.mp hv
        obtain ⟨hedge, hsource⟩ := (hG _ e).mp he
        obtain ⟨es, hes, hlen⟩ := ih.mp (mem_ball_iff_sphere.mpr ⟨k, Nat.le_refl k, hsource⟩)
        exact ⟨es ++ [e], hes.snoc hedge, by simpa using hlen⟩
    · rintro ⟨es, hes, hlen⟩
      cases hes with
      | nil => exact ball_mono (Nat.zero_le _) (List.mem_singleton.mpr rfl)
      | snoc htrail hedge =>
        rename_i es e
        obtain ⟨j, hj, hsource⟩ := mem_ball_iff_sphere.mp (ih.mpr ⟨es, htrail, by simpa using hlen⟩)
        have htarget : G.target e ∈ (edgesOf (sphere G.target edgesOf s j)).map G.target :=
          List.mem_map_of_mem ((hG _ e).mpr ⟨hedge, hsource⟩)
        refine ball_mono (Nat.succ_le_succ hj) ?_
        rw [ball_succ, List.mem_append, sphere_succ, mem_firstMet]
        by_cases hold : G.target e ∈ ball G.target edgesOf s j
        · exact .inl hold
        · exact .inr ⟨htarget, hold⟩

theorem mem_sphere_iff_distance (hG : G.Lists edgesOf) :
    v ∈ sphere G.target edgesOf s n ↔ G.Distance s v n := by
  have hshort : ∀ m, v ∉ ball G.target edgesOf s m ↔ ∀ es, G.Trail s es v → m < es.length := by
    intro m
    rw [mem_ball_iff_trail hG]
    constructor
    · intro h es hes
      exact Nat.lt_of_not_le fun hlen => h ⟨es, hes, hlen⟩
    · rintro h ⟨es, hes, hlen⟩
      exact Nat.not_lt.mpr hlen (h es hes)
  cases n with
  | zero =>
    rw [Graph.distance_zero_iff]
    exact List.mem_singleton
  | succ n =>
    rw [mem_sphere_succ, hshort, mem_ball_iff_trail hG]
    constructor
    · rintro ⟨⟨es, hes, hlen⟩, hmin⟩
      exact ⟨⟨es, hes, Nat.le_antisymm hlen (hmin es hes)⟩, hmin⟩
    · rintro ⟨⟨es, hes, hlen⟩, hmin⟩
      exact ⟨⟨es, hes, Nat.le_of_eq hlen⟩, hmin⟩

theorem mem_ball_iff_distance (hG : G.Lists edgesOf) :
    v ∈ ball G.target edgesOf s k ↔ ∃ n ≤ k, G.Distance s v n := by
  rw [mem_ball_iff_sphere]
  exact exists_congr fun n => and_congr_right fun _ => mem_sphere_iff_distance hG

theorem mem_searchOrder (hG : G.Lists edgesOf) :
    v ∈ searchOrder G.target edgesOf s k ↔ ∃ n, 1 ≤ n ∧ n ≤ k ∧ G.Distance s v n := by
  have hball : v ∈ ball G.target edgesOf s k ↔ v = s ∨ v ∈ searchOrder G.target edgesOf s k := by
    rw [ball_eq_cons, List.mem_cons]
  rw [mem_ball_iff_distance hG] at hball
  constructor
  · intro hv
    obtain ⟨n, hn, hdist⟩ := hball.mpr (.inr hv)
    refine ⟨n, Nat.one_le_iff_ne_zero.mpr ?_, hn, hdist⟩
    rintro rfl
    rw [Graph.distance_zero_iff.mp hdist] at hv
    exact searchOrder_nodup.2 hv
  · rintro ⟨n, hpos, hn, hdist⟩
    rcases hball.mp ⟨n, hn, hdist⟩ with rfl | hv
    · have hzero := hdist.unique (Graph.distance_zero_iff.mpr rfl)
      rw [hzero] at hpos
      exact absurd hpos (by decide)
    · exact hv

theorem mem_searchOrder_iff_within (hG : G.Lists edgesOf) {hops : Int} :
    v ∈ searchOrder G.target edgesOf s hops.toNat ↔ G.Within s hops v := by
  rw [mem_searchOrder hG]
  constructor
  · rintro ⟨n, hpos, hn, hdist⟩
    refine ⟨?_, n, hpos, by omega, hdist⟩
    rintro rfl
    have hzero : n = 0 := hdist.unique (Graph.distance_zero_iff.mpr rfl)
    omega
  · rintro ⟨-, n, hpos, hn, hdist⟩
    exact ⟨n, hpos, by omega, hdist⟩

theorem searchOrder_sorted (hG : G.Lists edgesOf) : (searchOrder G.target edgesOf s k).Pairwise
    fun u v => ∀ m n, G.Distance s u m → G.Distance s v n → m ≤ n := by
  induction k with
  | zero => exact List.Pairwise.nil
  | succ k ih =>
    rw [searchOrder_succ, List.pairwise_append]
    have hsphere : ∀ u ∈ sphere G.target edgesOf s (k + 1), ∀ n, G.Distance s u n → n = k + 1 :=
      fun u hu n hn => hn.unique ((mem_sphere_iff_distance hG).mp hu)
    refine ⟨ih, ?_, ?_⟩
    · refine List.pairwise_of_forall_mem_list fun u hu v hv m n hm hn => ?_
      exact Nat.le_of_eq ((hsphere u hu m hm).trans (hsphere v hv n hn).symm)
    · intro u hu v hv m n hm hn
      obtain ⟨d, -, hd, hdist⟩ := (mem_searchOrder hG).mp hu
      rw [hsphere v hv n hn, hm.unique hdist]
      exact Nat.le_succ_of_le hd

theorem sphere_succ_of_nil (hG : G.Lists edgesOf) (h : sphere G.target edgesOf s k = []) :
    sphere G.target edgesOf s (k + 1) = [] := by
  refine List.eq_nil_iff_forall_not_mem.mpr fun v hv => ?_
  rw [sphere_succ, mem_firstMet, h] at hv
  obtain ⟨e, he, -⟩ := List.mem_map.mp hv.1
  exact absurd ((hG _ e).mp he).2 List.not_mem_nil

theorem searchOrder_of_sphere_nil (hG : G.Lists edgesOf) (h : sphere G.target edgesOf s k = [])
    (n : Nat) :
    searchOrder G.target edgesOf s (k + n) = searchOrder G.target edgesOf s k := by
  induction n generalizing k with
  | zero => rfl
  | succ n ih =>
    have hnext := sphere_succ_of_nil hG h
    rw [Nat.add_comm n 1, ← Nat.add_assoc, ih hnext, searchOrder_succ, hnext, List.append_nil]

end Distances

def isFull (limit : Option Nat) (l : List ν) : Bool :=
  match limit with
  | none => false
  | some n => decide (n ≤ l.length)

def atMost (limit : Option Nat) (l : List ν) : List ν :=
  match limit with
  | none => l
  | some n => l.take n

variable {limit : Option Nat} {l : List ν}

theorem atMost_of_full (h : isFull limit (atMost limit l) = true) (rest : List ν) :
    atMost limit (l ++ rest) = atMost limit l := by
  cases limit with
  | none => cases h
  | some n =>
    have hlen : n ≤ l.length := by
      have hn : n ≤ (l.take n).length := of_decide_eq_true h
      rw [List.length_take] at hn
      omega
    exact List.take_append_of_le_length hlen

variable {edgesOf : List ν → List ε}

theorem atMost_searchOrder [DecidableEq ν] {target : ε → ν} {s : ν} {j k : Nat} (hjk : j ≤ k)
    (h : isFull limit (atMost limit (searchOrder target edgesOf s j)) = true) :
    atMost limit (searchOrder target edgesOf s k) = atMost limit (searchOrder target edgesOf s j) := by
  obtain ⟨rest, hrest⟩ : ∃ rest,
    searchOrder target edgesOf s k = searchOrder target edgesOf s j ++ rest :=
    searchOrder_grows hjk
  rw [hrest, atMost_of_full h]

theorem atMost_sublist : (atMost limit l).Sublist l := by
  cases limit with
  | none => exact List.Sublist.refl l
  | some n => exact List.take_sublist n l

theorem atMost_of_not_full (h : isFull limit (atMost limit l) = false) :
    atMost limit l = l := by
  cases limit with
  | none => rfl
  | some n =>
    have hn : ¬ n ≤ (l.take n).length := of_decide_eq_false h
    rw [List.length_take] at hn
    exact List.take_of_length_le (by omega)

theorem mem_atMost_of_nearer [DecidableEq ν] {G : Graph ν ε} {s u v : ν} {k m n : Nat}
    (hG : G.Lists edgesOf)
    (hu : u ∈ atMost limit (searchOrder G.target edgesOf s k)) (hdist : G.Distance s u n)
    (hv : v ∈ searchOrder G.target edgesOf s k) (hm : G.Distance s v m) (hlt : m < n) :
    v ∈ atMost limit (searchOrder G.target edgesOf s k) := by
  cases limit with
  | none => exact hv
  | some c =>
    have hsorted : (searchOrder G.target edgesOf s k).Pairwise
        fun u v => ∀ m n, G.Distance s u m → G.Distance s v n → m ≤ n := searchOrder_sorted hG
    rw [← List.take_append_drop c (searchOrder G.target edgesOf s k), List.mem_append] at hv
    rcases hv with hv | hv
    · exact hv
    · rw [← List.take_append_drop c (searchOrder G.target edgesOf s k), List.pairwise_append] at hsorted
      exact absurd (hsorted.2.2 u hu v hv n m hdist hm) (Nat.not_le.mpr hlt)

/-! ### The search -/

structure SearchSpec (ν ε ρ err : Type) where
  source : ε → ν
  target : ε → ν
  edgesFrom : List ν → Except err (List ε)
  -- The record of a node: from that of the node it is reached from, the edge and the level.
  extend : Option ρ → ε → Int → Except err ρ
  limit : Option Nat
  lost : err

structure Search (ν ρ : Type) where
  visited : ν → Option ρ
  discovered : List ν

variable [DecidableEq ν]

def Search.discover (s : Search ν ρ) (v : ν) (r : ρ) : Search ν ρ :=
  ⟨Function.update s.visited v (some r), s.discovered ++ [v]⟩

def Search.start (seed : ν) (r : ρ) : Search ν ρ := ⟨Function.update (fun _ => none) seed (some r), []⟩

namespace SearchSpec

variable (S : SearchSpec ν ε ρ err)

def expand (hop : Int) : List ε → Search ν ρ → Except err (Search ν ρ × List ν)
  | [], s => .ok (s, [])
  | e :: es, s =>
    if isFull S.limit s.discovered then .ok (s, [])
    else if (s.visited (S.target e)).isSome then expand hop es s
    else do
      let record ← S.extend (s.visited (S.source e)) e hop
      let (s', next) ← expand hop es (s.discover (S.target e) record)
      pure (s', S.target e :: next)

def levels : Nat → Int → Search ν ρ → List ν → Except err (Search ν ρ)
  | 0, _, s, _ => .ok s
  | n + 1, hop, s, frontier =>
    if frontier.isEmpty || isFull S.limit s.discovered then .ok s
    else do
      let edges ← S.edgesFrom frontier
      let (s', next) ← S.expand hop edges s
      levels n (hop + 1) s' next

def detach : List ν → (ν → Option ρ) → Except err (List (ν × ρ))
  | [], _ => .ok []
  | v :: vs, visited => do
    let record ← orRefuse (visited v) S.lost
    let rest ← detach vs (Function.update visited v none)
    pure ((v, record) :: rest)

def run (seed : ν) (record : ρ) (maxHops : Int) : Except err (List (ν × ρ)) := do
  let s ← S.levels maxHops.toNat 1 (.start seed record) [seed]
  S.detach s.discovered s.visited

structure Follows (G : Graph ν ε) (edgesOf : List ν → List ε) (recordOf : List ε → ρ) : Prop where
  source : G.source = S.source
  target : G.target = S.target
  lists : G.Lists edgesOf
  edgesFrom : ∀ frontier, S.edgesFrom frontier = .ok (edgesOf frontier)
  extend : ∀ es e, S.extend (some (recordOf es)) e (es.length + 1) = .ok (recordOf (es ++ [e]))

structure Met (G : Graph ν ε) (recordOf : List ε → ρ) (seed : ν) (seen : List ν) (s : Search ν ρ) :
    Prop where
  visited : ∀ v, (s.visited v).isSome ↔ v ∈ seen
  recorded : ∀ v r, s.visited v = some r →
    ∃ es, G.Trail seed es v ∧ G.Distance seed v es.length ∧ r = recordOf es
  room : atMost S.limit s.discovered = s.discovered

variable {S} {G : Graph ν ε} {edgesOf : List ν → List ε} {recordOf : List ε → ρ} {seed : ν}
  {s : Search ν ρ} {seen : List ν} {k : Nat}

variable {es : List ε}

theorem Met.discover (h : S.Met G recordOf seed seen s)
    (hroom : isFull S.limit s.discovered = false) {v : ν}
    (htrail : G.Trail seed es v) (hdist : G.Distance seed v es.length) :
    S.Met G recordOf seed (seen ++ [v]) (s.discover v (recordOf es)) where
  visited u := by
    rw [Search.discover, List.mem_append, List.mem_singleton]
    by_cases huv : u = v
    · simp [huv]
    · simp [huv, h.visited]
  recorded u r hu := by
    change Function.update s.visited v (some (recordOf es)) u = some r at hu
    by_cases huv : u = v
    · subst huv
      rw [Function.update_self] at hu
      exact ⟨es, htrail, hdist, (Option.some.inj hu).symm⟩
    · rw [Function.update_of_ne huv] at hu
      exact h.recorded u r hu
  room := by
    cases hlimit : S.limit with
    | none => rfl
    | some n =>
      rw [hlimit] at hroom
      have hlen : ¬ n ≤ s.discovered.length := of_decide_eq_false hroom
      refine List.take_of_length_le ?_
      rw [Search.discover, List.length_append, List.length_singleton]
      omega

theorem distance_target (hG : G.Lists edgesOf) {e : ε} (htrail : G.Trail seed es (G.source e))
    (hedge : e ∈ G.edges)
    (hlen : es.length = k) (hnew : G.target e ∉ ball G.target edgesOf seed k) :
    G.Distance seed (G.target e) (es ++ [e]).length := by
  refine ⟨⟨es ++ [e], htrail.snoc hedge, rfl⟩, fun es' hes' => ?_⟩
  rw [mem_ball_iff_trail hG] at hnew
  rw [List.length_append, hlen]
  exact Nat.lt_of_not_le fun hle => hnew ⟨es', hes', hle⟩

theorem expand_spec (hS : S.Follows G edgesOf recordOf)
    (hes : ∀ e ∈ es, e ∈ G.edges ∧ G.source e ∈ sphere G.target edgesOf seed k)
    (hball : ∀ v ∈ ball G.target edgesOf seed k, v ∈ seen) (h : S.Met G recordOf seed seen s) :
    ∃ s' next, S.expand (k + 1) es s = .ok (s', next) ∧ s'.discovered = s.discovered ++ next ∧
      s'.discovered = atMost S.limit (s.discovered ++ firstMet seen (es.map G.target)) ∧
      S.Met G recordOf seed (seen ++ next) s' := by
  induction es generalizing s seen with
  | nil =>
    refine ⟨s, [], rfl, (List.append_nil _).symm, ?_, by simpa using h⟩
    rw [List.map_nil, firstMet, List.append_nil, h.room]
  | cons e es ih =>
    have hrest : ∀ e ∈ es, e ∈ G.edges ∧ G.source e ∈ sphere G.target edgesOf seed k :=
      fun e he => hes e (List.mem_cons_of_mem _ he)
    rw [List.map_cons, firstMet]
    simp only [expand, ← hS.target, ← hS.source, h.visited]
    by_cases hfull : isFull S.limit s.discovered = true
    · refine ⟨s, [], if_pos hfull, (List.append_nil _).symm, ?_, by simpa using h⟩
      rw [← h.room] at hfull
      rw [atMost_of_full hfull, h.room]
    by_cases hold : G.target e ∈ seen
    · rw [if_neg hfull, if_pos hold, if_pos hold]
      exact ih hrest hball h
    rw [if_neg hfull, if_neg hold, if_neg hold]
    obtain ⟨hedge, hsource⟩ := hes e List.mem_cons_self
    -- The edge starts at the last level, so its source has been recorded at distance `k`.
    have hvisited : G.source e ∈ seen := hball _ (mem_ball_iff_sphere.mpr ⟨k, Nat.le_refl k, hsource⟩)
    obtain ⟨r, hr⟩ := Option.isSome_iff_exists.mp ((h.visited _).mpr hvisited)
    obtain ⟨trail, htrail, hdist, rfl⟩ := h.recorded _ r hr
    have hlen : trail.length = k := hdist.unique ((mem_sphere_iff_distance hS.lists).mp hsource)
    have hnew : G.target e ∉ ball G.target edgesOf seed k := fun hv => hold (hball _ hv)
    have hextend : S.extend (s.visited (G.source e)) e (k + 1) = .ok (recordOf (trail ++ [e])) := by
      rw [hr, ← hlen]
      exact hS.extend trail e
    obtain ⟨s', next, hexpand, happend, hdiscovered, hmet⟩ := ih hrest
      (fun v hv => List.mem_append_left _ (hball v hv))
      (h.discover (Bool.eq_false_iff.mpr hfull) (htrail.snoc hedge)
        (distance_target hS.lists htrail hedge hlen hnew))
    refine ⟨s', G.target e :: next, ?_, ?_, ?_, ?_⟩
    · refine bind_eq_ok.mpr ⟨_, hextend, bind_eq_ok.mpr ⟨_, hexpand, rfl⟩⟩
    · rw [happend, Search.discover, List.append_assoc, List.singleton_append]
    · rw [hdiscovered, Search.discover, List.append_assoc, List.singleton_append]
    · rwa [List.append_assoc, List.singleton_append] at hmet

theorem levels_of_full (h : isFull S.limit s.discovered = true) (n : Nat) (hop : Int)
    (frontier : List ν) :
    S.levels n hop s frontier = .ok s := by
  cases n with
  | zero => rfl
  | succ n =>
    rw [levels, h, Bool.or_true]
    rfl

/-- From the state that has met a whole ball, the levels that remain discover what the order says. -/
theorem levels_spec (hS : S.Follows G edgesOf recordOf) (n : Nat)
    (h : S.Met G recordOf seed (ball G.target edgesOf seed k) s)
    (horder : s.discovered = searchOrder G.target edgesOf seed k) :
    ∃ s' seen, S.levels n (k + 1) s (sphere G.target edgesOf seed k) = .ok s' ∧
      s'.discovered = atMost S.limit (searchOrder G.target edgesOf seed (k + n)) ∧
      S.Met G recordOf seed seen s' ∧ ∀ v ∈ s'.discovered, v ∈ seen := by
  have hmem : ∀ v ∈ s.discovered, v ∈ ball G.target edgesOf seed k := by
    intro v hv
    rw [ball_eq_cons]
    exact List.mem_cons_of_mem _ (horder ▸ hv)
  induction n generalizing k s with
  | zero => exact ⟨s, _, rfl, by rw [Nat.add_zero, ← horder, h.room], h, hmem⟩
  | succ n ih =>
    by_cases hempty : sphere G.target edgesOf seed k = []
    · refine ⟨s, _, ?_, ?_, h, hmem⟩
      · rw [levels, hempty]
        rfl
      · rw [searchOrder_of_sphere_nil hS.lists hempty, ← horder, h.room]
    by_cases hfull : isFull S.limit s.discovered = true
    · refine ⟨s, _, levels_of_full hfull _ _ _, ?_, h, hmem⟩
      rw [← h.room, horder] at hfull
      rw [atMost_searchOrder (Nat.le_add_right k (n + 1)) hfull, ← horder, h.room]
    obtain ⟨s', next, hexpand, happend, hdiscovered, hmet⟩ := expand_spec hS
      (fun e he => (hS.lists _ e).mp he) (fun v hv => hv) h
    rw [← sphere_succ, horder, ← searchOrder_succ] at hdiscovered
    have hlevel : S.levels (n + 1) (k + 1) s (sphere G.target edgesOf seed k) =
        S.levels n (k + 1 + 1) s' next := by
      rw [levels, if_neg (by simp [hempty, hfull]), hS.edgesFrom]
      change (S.expand (k + 1) _ s >>= _) = _
      rw [hexpand]
      rfl
    by_cases hfull' : isFull S.limit s'.discovered = true
    · refine ⟨s', _, hlevel.trans (levels_of_full hfull' _ _ _), ?_, hmet, ?_⟩
      · rw [hdiscovered] at hfull' ⊢
        rw [atMost_searchOrder (Nat.add_le_add_left (Nat.succ_le_succ (Nat.zero_le n)) k) hfull']
      · intro v hv
        rw [happend, List.mem_append] at hv
        exact List.mem_append.mpr (hv.imp_left (hmem v))
    -- Below the limit the whole level has been met.
    rw [hdiscovered, Bool.not_eq_true] at hfull'
    rw [atMost_of_not_full hfull'] at hdiscovered
    obtain rfl : next = sphere G.target edgesOf seed (k + 1) := by
      rw [happend, horder, searchOrder_succ] at hdiscovered
      exact List.append_cancel_left hdiscovered
    rw [← ball_succ] at hmet
    rw [hlevel, ← Nat.add_assoc, Nat.add_right_comm]
    refine ih hmet hdiscovered ?_
    intro v hv
    rw [ball_eq_cons]
    exact List.mem_cons_of_mem _ (hdiscovered ▸ hv)

theorem detach_spec {vs : List ν} {visited : ν → Option ρ} (hnodup : vs.Nodup)
    (hvisited : ∀ v ∈ vs, (visited v).isSome) : ∃ hits, S.detach vs visited = .ok hits ∧
      hits.map Prod.fst = vs ∧ ∀ v r, (v, r) ∈ hits → visited v = some r := by
  induction vs generalizing visited with
  | nil => exact ⟨[], rfl, rfl, fun v r h => absurd h List.not_mem_nil⟩
  | cons v vs ih =>
    obtain ⟨hv, hvs⟩ := List.nodup_cons.mp hnodup
    obtain ⟨r, hr⟩ := Option.isSome_iff_exists.mp (hvisited v List.mem_cons_self)
    have hother : ∀ u ∈ vs, Function.update visited v none u = visited u := by
      intro u hu
      refine Function.update_of_ne ?_ _ _
      rintro rfl
      exact hv hu
    have hleft : ∀ u ∈ vs, (Function.update visited v none u).isSome := by
      intro u hu
      rw [hother u hu]
      exact hvisited u (List.mem_cons_of_mem _ hu)
    obtain ⟨hits, hdetach, hnodes, hrecords⟩ := ih hvs hleft
    refine ⟨(v, r) :: hits, ?_, by rw [List.map_cons, hnodes], ?_⟩
    · exact bind_eq_ok.mpr ⟨r, orRefuse_eq_ok.mpr hr, bind_eq_ok.mpr ⟨hits, hdetach, rfl⟩⟩
    · intro u r' hu
      rcases List.mem_cons.mp hu with heq | hu
      · obtain ⟨rfl, rfl⟩ := Prod.mk.inj heq
        exact hr
      · have hmem : u ∈ vs := hnodes ▸ List.mem_map_of_mem hu
        rw [← hother u hmem]
        exact hrecords u r' hu

theorem start_met (seed : ν) : S.Met G recordOf seed [seed] (.start seed (recordOf [])) where
  visited v := by
    by_cases hv : v = seed <;> simp [Search.start, hv]
  recorded v r hr := by
    change Function.update (fun _ => none) seed (some (recordOf [])) v = some r at hr
    by_cases hv : v = seed
    · subst hv
      rw [Function.update_self] at hr
      exact ⟨[], .nil, Graph.distance_zero_iff.mpr rfl, (Option.some.inj hr).symm⟩
    · rw [Function.update_of_ne hv] at hr
      cases hr
  room := by
    cases S.limit with
    | none => rfl
    | some n => exact List.take_nil

theorem run_spec (hS : S.Follows G edgesOf recordOf) (seed : ν) (maxHops : Int) :
    ∃ hits, S.run seed (recordOf []) maxHops = .ok hits ∧
      hits.map Prod.fst = atMost S.limit (searchOrder G.target edgesOf seed maxHops.toNat) ∧
      ∀ v r, (v, r) ∈ hits → ∃ es, G.Trail seed es v ∧ G.Distance seed v es.length ∧
        r = recordOf es := by
  obtain ⟨s, seen, hlevels, hdiscovered, hmet, hseen⟩ := levels_spec (k := 0) hS maxHops.toNat
    (start_met seed) rfl
  rw [Nat.zero_add] at hdiscovered
  have hnodup : s.discovered.Nodup := by
    rw [hdiscovered]
    exact searchOrder_nodup.1.sublist atMost_sublist
  obtain ⟨hits, hdetach, hnodes, hrecords⟩ := detach_spec (S := S) hnodup
    (fun v hv => (hmet.visited v).mpr (hseen v hv))
  refine ⟨hits, bind_eq_ok.mpr ⟨s, hlevels, hdetach⟩, hnodes.trans hdiscovered, ?_⟩
  intro v r hr
  exact hmet.recorded v r (hrecords v r hr)

end SearchSpec

end Pgokf.Lib
