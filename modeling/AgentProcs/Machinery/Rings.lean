import Mathlib.Data.List.DropRight

/-!
# Machinery/Rings — a queue that drops its oldest element when it is full

    capacity 3      │ a b c │   ──push d──▸   │ b c d │

A ring of capacity `m` holds the last `m` elements that were pushed.  With no capacity at all nothing
is ever dropped: there is nothing to drop when the first element comes, and later the ring is not at
its capacity but above it.
-/

namespace AgentProcs

section Ring

variable {α : Type*}

/-- Push onto a ring of capacity `m`. -/
def ringPush (m : ℕ) (x : α) (xs : List α) : List α := (if xs.length = m then xs.tail else xs) ++ [x]

variable {m : ℕ} {x : α} {xs : List α}

theorem ringPush_of_lt (h : xs.length < m) : ringPush m x xs = xs ++ [x] := by
  rw [ringPush, if_neg h.ne]

/-- A push adds its element, and may drop the oldest. -/
theorem exists_ringPush (m : ℕ) (x : α) (xs : List α) :
    ∃ lost, ringPush m x xs = xs.drop lost ++ [x] := by
  rw [ringPush]
  split_ifs
  · exact ⟨1, by rw [List.drop_one]⟩
  · exact ⟨0, rfl⟩

/-- The last `m`, or all of them. -/
theorem rtake_min_length (m : ℕ) (xs : List α) : xs.rtake (min m xs.length) = xs.rtake m := by
  rw [List.rtake, List.rtake]
  congr 1
  omega

/-- **The law of the ring**: a push moves on from the last `m` to the last `m`. -/
theorem ringPush_rtake (hm : 1 ≤ m) : ringPush m x (xs.rtake m) = (xs ++ [x]).rtake m := by
  obtain ⟨k, rfl⟩ : ∃ k, m = k + 1 := ⟨m - 1, by omega⟩
  rw [List.rtake_concat_succ, ringPush]
  congr 1
  rw [List.rtake, List.rtake, List.length_drop]
  split_ifs with hfull
  · rw [List.tail_drop]
    congr 1
    omega
  · congr 1
    omega

end Ring

end AgentProcs
