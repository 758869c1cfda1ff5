import Mathlib.Data.Prod.Lex
import Pgokf.Lib.Batch

/-! # Keyset paging

Rows are read in the order of a key: the next page holds those that follow the last row read. -/

namespace Pgokf.Lib

universe u v

section Keyset

variable {α κ : Type*} [LinearOrder κ] (key : α → κ)

def ordered (rows : List α) : List α := rows.insertionSort fun a b => key a ≤ key b

def remaining (rows : List α) (after : Option κ) : List α :=
  rows.filter fun row => after.all fun k => decide (k < key row)

def page (limit : Nat) (rows : List α) (after : Option κ) : List α :=
  (ordered key (remaining key rows after)).take limit

variable {key} {rows : List α} {after : Option κ} {limit : Nat} {last : α}

variable {a : α}

theorem mem_ordered : a ∈ ordered key rows ↔ a ∈ rows := List.mem_insertionSort _

theorem ordered_perm : (ordered key rows).Perm rows := List.perm_insertionSort _ _

theorem mem_remaining_some {k : κ} : a ∈ remaining key rows (some k) ↔ a ∈ rows ∧ k < key a := by
  simp [remaining]

theorem remaining_none : remaining key rows none = rows := by
  simp [remaining]

theorem nodup_remaining (h : (rows.map key).Nodup) (after : Option κ) :
    ((remaining key rows after).map key).Nodup :=
  h.sublist (List.filter_sublist.map key)

theorem ordered_sorted (rows : List α) : (ordered key rows).Pairwise fun a b => key a ≤ key b := by
  have htotal : Std.Total fun a b => key a ≤ key b := ⟨fun a b => le_total (key a) (key b)⟩
  have htrans : IsTrans α fun a b => key a ≤ key b := ⟨fun _ _ _ => le_trans⟩
  exact List.pairwise_insertionSort _ rows

theorem ordered_strict (h : (rows.map key).Nodup) : (ordered key rows).Pairwise fun a b =>
    key a < key b := by
  have hne : (ordered key rows).Pairwise fun a b => key a ≠ key b :=
    List.pairwise_map.mp ((ordered_perm.map key).nodup_iff.mpr h)
  exact ((ordered_sorted rows).and hne).imp fun h => lt_of_le_of_ne h.1 h.2

theorem insertionSort_congr {r s : α → α → Prop} [DecidableRel r] [DecidableRel s]
    (h : ∀ a b, r a b ↔ s a b) (l : List α) : l.insertionSort r = l.insertionSort s := by
  obtain rfl : r = s := funext fun a => funext fun b => propext (h a b)
  congr

/-- A strictly ordered list is cut where its rows pass the last row of the first part. -/
theorem mem_second_part {first second : List α} (h : (first ++ second).Pairwise fun a b => key a < key b)
    (hlast : first.getLast? = some last) :
    a ∈ second ↔ a ∈ first ++ second ∧ key last < key a := by
  obtain ⟨init, rfl⟩ := List.getLast?_eq_some_iff.mp hlast
  obtain ⟨hfirst, -, hcross⟩ := List.pairwise_append.mp h
  constructor
  · intro ha
    exact ⟨List.mem_append_right _ ha, hcross last (by simp) a ha⟩
  · rintro ⟨ha, hlt⟩
    rcases List.mem_append.mp ha with ha | ha
    · rcases List.mem_append.mp ha with ha | ha
      · have hbefore := (List.pairwise_append.mp hfirst).2.2 a ha last (List.mem_singleton.mpr rfl)
        exact absurd hlt hbefore.asymm
      · obtain rfl := List.mem_singleton.mp ha
        exact absurd hlt (lt_irrefl _)
    · exact ha

theorem ordered_remaining_eq (h : (rows.map key).Nodup)
    (hlast : (page key limit rows after).getLast? = some last) :
    ordered key (remaining key rows after) =
      page key limit rows after ++ ordered key (remaining key rows (some (key last))) := by
  have hstrict := ordered_strict (nodup_remaining h after)
  have hcut : ordered key (remaining key rows after) =
      page key limit rows after ++ (ordered key (remaining key rows after)).drop limit :=
    (List.take_append_drop _ _).symm
  have hmem : ∀ a, a ∈ remaining key rows (some (key last)) ↔
      a ∈ (ordered key (remaining key rows after)).drop limit := by
    intro a
    rw [hcut] at hstrict
    rw [mem_second_part hstrict hlast, ← hcut, mem_ordered, mem_remaining_some]
    have hmemLast : last ∈ remaining key rows after :=
      mem_ordered.mp (List.mem_of_mem_take (List.mem_of_getLast? hlast))
    constructor
    · rintro ⟨ha, hlt⟩
      refine ⟨List.mem_filter.mpr ⟨ha, ?_⟩, hlt⟩
      have hafter := (List.mem_filter.mp hmemLast).2
      cases after with
      | none => rfl
      | some k => simpa using (of_decide_eq_true hafter).trans hlt
    · rintro ⟨ha, hlt⟩
      exact ⟨(List.mem_filter.mp ha).1, hlt⟩
  have hdrop : ((ordered key (remaining key rows after)).drop limit).Pairwise fun a b => key a < key b :=
    hstrict.sublist (List.drop_sublist _ _)
  have hnodup : (((ordered key (remaining key rows after)).drop limit).map key).Nodup :=
    List.pairwise_map.mpr (hdrop.imp ne_of_lt)
  have hsame : ordered key (remaining key rows (some (key last))) =
      ordered key ((ordered key (remaining key rows after)).drop limit) :=
    insertionSort_key_eq (nodup_remaining h _) hnodup hmem
  have hsorted : ordered key ((ordered key (remaining key rows after)).drop limit) =
      (ordered key (remaining key rows after)).drop limit :=
    (hdrop.imp le_of_lt).insertionSort_eq
  rw [hsame, hsorted]
  exact hcut

theorem page_sorted : (page key limit rows after).Pairwise fun a b => key a ≤ key b :=
  (ordered_sorted _).sublist (List.take_sublist _ _)

theorem page_map {β : Type*} (g : α → β) {key' : β → κ} (h : ∀ a, key' (g a) = key a) (rows : List α)
    (after : Option κ) : page key' limit (rows.map g) after = (page key limit rows after).map g := by
  have hremaining : remaining key' (rows.map g) after = (remaining key rows after).map g := by
    rw [remaining, List.filter_map, remaining]
    simp only [Function.comp_def, h]
  have hordered : ordered key' ((remaining key rows after).map g) =
    (ordered key (remaining key rows after)).map g :=
    (List.map_insertionSort _ _ g _ fun a _ b _ => by rw [h a, h b]).symm
  rw [page, page, hremaining, hordered, List.map_take]

/-- Read until a page is empty; `none` when the fuel ends first. -/
def scroll {γ ε : Type*} (ask : γ → Except ε (List α)) (next : α → γ) : Nat → γ →
    Except ε (Option (List α))
  | 0, _ => .ok none
  | fuel + 1, cursor => do
    let rows ← ask cursor
    match rows.getLast? with
    | none => pure (some [])
    | some last => do
      let rest ← scroll ask next fuel (next last)
      pure (rest.map (rows ++ ·))

variable {fuel : Nat}

/-- Paging ends and gives every row once, in order. -/
theorem scroll_eq_ordered {γ ε : Type*} {ask : γ → Except ε (List α)} {next : α → γ}
    (h : (rows.map key).Nodup) (hlimit : 1 ≤ limit)
    (hnext : ∀ row ∈ rows, ask (next row) = .ok (page key limit rows (some (key row))))
    {cursor : γ} (hask : ask cursor = .ok (page key limit rows after))
    (hfuel : (remaining key rows after).length < fuel) :
    scroll ask next fuel cursor = .ok (some (ordered key (remaining key rows after))) := by
  induction fuel generalizing cursor after with
  | zero => omega
  | succ fuel ih =>
    rw [scroll, hask]
    cases hlast : (page key limit rows after).getLast? with
    | none =>
      have hempty : page key limit rows after = [] := List.getLast?_eq_none_iff.mp hlast
      have hnone : ordered key (remaining key rows after) = [] := by
        rcases List.take_eq_nil_iff.mp hempty with hzero | hnil
        · omega
        · exact hnil
      simp only [bind, Except.bind, hlast, hnone]
      rfl
    | some last =>
      have heq := ordered_remaining_eq h hlast
      have hmem : last ∈ rows :=
        (List.mem_filter.mp (mem_ordered.mp (List.mem_of_mem_take (List.mem_of_getLast? hlast)))).1
      have hpos : 0 < (page key limit rows after).length :=
        List.length_pos_of_mem (List.mem_of_getLast? hlast)
      have hlength := congrArg List.length heq
      rw [List.length_append, ordered_perm.length_eq, ordered_perm.length_eq] at hlength
      have hrest := ih (hnext last hmem) (by omega)
      simp only [bind, Except.bind, hlast, hrest, pure, Except.pure, Option.map_some, ← heq]

/- Take a step for every row, a page at a time, until a page is short. -/
def foldPages {m : Type u → Type v} [Monad m] {σ : Type u} (key : α → κ) (step : σ → α → m σ)
    (limit : Nat) (rows : List α) :
    Nat → Option κ → σ → m (Option σ)
  | 0, _, _ => pure none
  | fuel + 1, after, s => do
    let batch := page key limit rows after
    if batch.isEmpty then pure (some s)
    else do
      let s ← batch.foldlM step s
      if batch.length < limit then pure (some s)
      else foldPages key step limit rows fuel (batch.getLast?.map key) s

theorem foldPages_eq {m : Type u → Type v} [Monad m] [LawfulMonad m] {σ : Type u} {step : σ → α → m σ}
    (h : (rows.map key).Nodup) (hlimit : 1 ≤ limit)
    (hfuel : (remaining key rows after).length < fuel) (s : σ) :
    foldPages key step limit rows fuel after s =
      some <$> (ordered key (remaining key rows after)).foldlM step s := by
  induction fuel generalizing after s with
  | zero => omega
  | succ fuel ih =>
    have hlength : (ordered key (remaining key rows after)).length = (remaining key rows after).length :=
      ordered_perm.length_eq
    have hpage : (page key limit rows after).length = min limit (remaining key rows after).length := by
      rw [page, List.length_take, hlength]
    rw [foldPages]
    by_cases hshort : (page key limit rows after).length < limit
    · -- A short page is all that remains.
      have hall : page key limit rows after = ordered key (remaining key rows after) :=
        List.take_of_length_le (by omega)
      rw [← hall]
      split
      next hempty =>
        rw [List.isEmpty_iff.mp hempty, List.foldlM_nil, map_pure]
      next =>
        exact (map_eq_pure_bind _ _).symm
    · have hne : page key limit rows after ≠ [] := by
        intro hnil
        rw [hnil, List.length_nil] at hshort
        omega
      obtain ⟨last, hlast⟩ : ∃ last, (page key limit rows after).getLast? = some last :=
        ⟨_, List.getLast?_eq_some_getLast hne⟩
      have heq := ordered_remaining_eq h hlast
      have hcount := congrArg List.length heq
      rw [List.length_append, hlength, ordered_perm.length_eq] at hcount
      rw [if_neg (by simpa using hne), heq, List.foldlM_append, map_bind]
      refine bind_congr fun s => ?_
      rw [if_neg hshort, hlast, Option.map_some]
      exact ih (by omega) s

end Keyset

end Pgokf.Lib
