import Mathlib.Data.List.Nodup
import Mathlib.Data.List.Sort
import Mathlib.Order.Defs.LinearOrder

/-!
# Machinery/Ranks — the places of an element in a sorted list, by counting

    a   b   b   d           b stands at 1 and 2:    1 are smaller, 3 are not greater
    0   1   2   3           c would stand at 3, but 3 are smaller and 3 not greater

In a sorted list an element stands from its rank on, the number of smaller elements, up to the number
of those that are not greater.  Without repetitions it stands at its rank.
-/

namespace AgentProcs

section Rank

variable {α : Type*} [LinearOrder α]

/-- How many elements are smaller. -/
def rank (x : α) (xs : List α) : ℕ := xs.countP (· < x)

/-- How many elements are not greater. -/
def upperRank (x : α) (xs : List α) : ℕ := xs.countP (· ≤ x)

variable {x : α} {xs : List α} {i : ℕ}

theorem rank_cons_of_lt {a : α} (h : a < x) : rank x (a :: xs) = rank x xs + 1 :=
  List.countP_cons_of_pos (decide_eq_true h)

theorem upperRank_cons_of_le {a : α} (h : a ≤ x) : upperRank x (a :: xs) = upperRank x xs + 1 :=
  List.countP_cons_of_pos (decide_eq_true h)

theorem rank_eq_zero (h : ∀ y ∈ xs, x ≤ y) : rank x xs = 0 :=
  List.countP_eq_zero.mpr fun y hy => by simpa using h y hy

theorem upperRank_eq_zero (h : ∀ y ∈ xs, x < y) : upperRank x xs = 0 :=
  List.countP_eq_zero.mpr fun y hy => by simpa using h y hy

/-- **The places of an element** in a sorted list. -/
theorem getElem?_eq_some_iff_rank (h : xs.Pairwise (· ≤ ·)) :
    xs[i]? = some x ↔ rank x xs ≤ i ∧ i < upperRank x xs := by
  induction xs generalizing i with
  | nil => simp [upperRank]
  | cons a xs ih =>
    obtain ⟨ha, hxs⟩ := List.pairwise_cons.mp h
    obtain hlt | rfl | hgt := lt_trichotomy a x
    · rw [rank_cons_of_lt hlt, upperRank_cons_of_le hlt.le]
      cases i with
      | zero => simpa using hlt.ne
      | succ i =>
        rw [List.getElem?_cons_succ, ih hxs, Nat.add_le_add_iff_right, Nat.add_lt_add_iff_right]
    · rw [rank_eq_zero (by simpa using ha), upperRank_cons_of_le le_rfl]
      cases i with
      | zero => simp
      | succ i =>
        rw [List.getElem?_cons_succ, ih hxs, rank_eq_zero ha, Nat.add_lt_add_iff_right]
        exact and_congr_left fun _ => by simp
    · have hall : ∀ y ∈ a :: xs, x < y :=
        List.forall_mem_cons.mpr ⟨hgt, fun y hy => hgt.trans_le (ha y hy)⟩
      rw [upperRank_eq_zero hall]
      refine iff_of_false (fun heq => ?_) fun hrank => Nat.not_lt_zero _ hrank.2
      exact lt_irrefl x (hall x (List.mem_of_getElem? heq))

/-- **Without repetitions** the place is the rank. -/
theorem getElem?_eq_some_iff_eq_rank (h : xs.Pairwise (· < ·)) (hx : x ∈ xs) :
    xs[i]? = some x ↔ i = rank x xs := by
  have hplaces : ∀ {i}, xs[i]? = some x ↔ rank x xs ≤ i ∧ i < upperRank x xs :=
    getElem?_eq_some_iff_rank (h.imp le_of_lt)
  have hrank : xs[rank x xs]? = some x := by
    obtain ⟨j, hj⟩ := List.mem_iff_getElem?.mp hx
    obtain ⟨hle, hlt⟩ := hplaces.mp hj
    exact hplaces.mpr ⟨le_rfl, hle.trans_lt hlt⟩
  refine ⟨fun hi => ?_, ?_⟩
  · obtain ⟨hlength, -⟩ := List.getElem?_eq_some_iff.mp hi
    exact (List.getElem?_inj hlength (h.imp ne_of_lt)).mp (hi.trans hrank.symm)
  · rintro rfl
    exact hrank

end Rank

end AgentProcs
