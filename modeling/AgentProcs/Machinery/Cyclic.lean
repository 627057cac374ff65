import Mathlib.Data.List.Basic

/-!
# Machinery/Cyclic — a search that starts in the middle of a range and goes once around

    lo ⋯ start ⋯ lo + size - 1          start, start + 1, ⋯, lo + size - 1, lo, ⋯, start - 1
         0 1 2 ⋯                         lag of each: how far it lies behind the start

Places of the range and their lags determine each other, so the first hit of the search is the hit
with the least lag.
-/

namespace AgentProcs

variable {lo size start p q i : ℕ} {free : ℕ → Bool}

/-- The `i`-th place of the search. -/
def cyclic (lo size start i : ℕ) : ℕ := lo + ((start - lo) + i) % size

/-- How far a place lies behind the start, going around. -/
def lag (lo size start p : ℕ) : ℕ := ((p - lo) + (size - (start - lo))) % size

/-- **The first free place** of the range, going around from the start. -/
structure FirstFree (lo size start : ℕ) (free : ℕ → Bool) (p : ℕ) : Prop where
  mem : lo ≤ p ∧ p < lo + size
  hit : free p = true
  least : ∀ q, lo ≤ q → q < lo + size → free q = true → lag lo size start p ≤ lag lo size start q

theorem cyclic_mem (hsize : 0 < size) : lo ≤ cyclic lo size start i ∧
    cyclic lo size start i < lo + size :=
  ⟨Nat.le_add_right _ _, Nat.add_lt_add_left (Nat.mod_lt _ hsize) _⟩

theorem lag_lt (hsize : 0 < size) : lag lo size start p < size := Nat.mod_lt _ hsize

/-- The place with a given lag. -/
theorem lag_cyclic (hstart : start < lo + size) (hi : i < size) :
    lag lo size start (cyclic lo size start i) = i := by
  have hoff : start - lo < size := by omega
  have hround : start - lo + i + (size - (start - lo)) = i + size := by omega
  rw [lag, cyclic, Nat.add_sub_cancel_left, Nat.mod_add_mod, hround, Nat.add_mod_right,
    Nat.mod_eq_of_lt hi]

/-- The lag of a given place. -/
theorem cyclic_lag (hstart : start < lo + size) (hlo : lo ≤ p) (hp : p < lo + size) :
    cyclic lo size start (lag lo size start p) = p := by
  have hround : start - lo + (p - lo + (size - (start - lo))) = p - lo + size := by omega
  rw [cyclic, lag, Nat.add_mod_mod, hround, Nat.add_mod_right, Nat.mod_eq_of_lt (by omega)]
  omega

/-- **A search finds the first free place**, going around from the start. -/
theorem find?_cyclic_eq_some (hlo : lo ≤ start) (hstart : start < lo + size) :
    ((List.range size).map (cyclic lo size start)).find? free = some p ↔
      FirstFree lo size start free p := by
  have hsize : 0 < size := by omega
  rw [List.find?_map, Option.map_eq_some_iff]
  simp only [List.find?_range_eq_some, Function.comp_apply, List.mem_range]
  constructor
  · rintro ⟨i, ⟨hfree, hi, hbefore⟩, rfl⟩
    refine ⟨cyclic_mem hsize, hfree, fun q hq hq' hqfree => ?_⟩
    rw [lag_cyclic hstart hi]
    by_contra hlt
    have hnot := hbefore _ (Nat.lt_of_not_le hlt)
    rw [cyclic_lag hstart hq hq', hqfree] at hnot
    exact absurd hnot (by simp)
  · rintro ⟨⟨hp, hp'⟩, hfree, hleast⟩
    refine ⟨lag lo size start p, ⟨?_, lag_lt hsize, fun j hj => ?_⟩, cyclic_lag hstart hp hp'⟩
    · rwa [cyclic_lag hstart hp hp']
    · have hplace : lag lo size start (cyclic lo size start j) = j :=
        lag_cyclic hstart (Nat.lt_trans hj (lag_lt hsize))
      by_contra hnot
      have hle := hleast _ (cyclic_mem hsize).1 (cyclic_mem hsize).2
        (by simpa using hnot)
      omega

/-- **A search comes back with nothing** exactly if no place of the range is free. -/
theorem find?_cyclic_eq_none (hstart : start < lo + size) :
    ((List.range size).map (cyclic lo size start)).find? free = none ↔
      ∀ q, lo ≤ q → q < lo + size → free q = false := by
  rw [List.find?_eq_none]
  simp only [List.mem_map, List.mem_range, forall_exists_index, and_imp]
  constructor
  · intro hnone q hq hq'
    have hsize : 0 < size := by omega
    exact Bool.not_eq_true _ ▸ hnone q _ (lag_lt hsize) (cyclic_lag hstart hq hq')
  · rintro hnone _ i hi rfl hfree
    have hmem : lo ≤ cyclic lo size start i ∧ cyclic lo size start i < lo + size :=
      cyclic_mem (Nat.zero_lt_of_lt hi)
    exact absurd hfree (by simp [hnone _ hmem.1 hmem.2])

end AgentProcs
