import Mathlib.Data.Nat.Digits.Defs

/-!
# Machinery/FixedWidth — numbers and records that take a fixed number of bytes

    toLe w n     the w lowest digits of n to the base 256, the lowest first
    records      e₀ │ e₁ │ e₂ │ ⋯          entry i is what stands in [w·i, w·(i + 1))
                        ╵ cut               the cut falls into e₂: two entries are whole

A file of entries of one width is cut into chunks of that width, and the chunks of a cut file are
the entries that end before the cut.
-/

namespace AgentProcs

/-! ## Little-endian numbers -/

/-- The `w` bytes of a number, the lowest first. -/
def toLe : ℕ → ℕ → List UInt8
  | 0, _ => []
  | w + 1, n => UInt8.ofNat n :: toLe w (n / 256)

/-- The number that the bytes stand for, the lowest first. -/
def fromLe (bytes : List UInt8) : ℕ := Nat.ofDigits 256 (bytes.map UInt8.toNat)

@[simp] theorem length_toLe : ∀ w n, (toLe w n).length = w
  | 0, _ => rfl
  | w + 1, n => by rw [toLe, List.length_cons, length_toLe]

theorem fromLe_cons (b : UInt8) (bytes : List UInt8) :
    fromLe (b :: bytes) = b.toNat + 256 * fromLe bytes := by
  rw [fromLe, List.map_cons, Nat.ofDigits_cons]
  rfl

/-- **What is read back is the number**, as far as its bytes reach. -/
theorem fromLe_toLe : ∀ w n, fromLe (toLe w n) = n % 256 ^ w
  | 0, n => by rw [pow_zero, Nat.mod_one]; rfl
  | w + 1, n => by
    have hlow : (UInt8.ofNat n).toNat = n % 256 := UInt8.toNat_ofNat'
    rw [toLe, fromLe_cons, fromLe_toLe, hlow, pow_succ', Nat.mod_mul]

theorem fromLe_toLe_of_lt {w n : ℕ} (h : n < 256 ^ w) : fromLe (toLe w n) = n := by
  rw [fromLe_toLe, Nat.mod_eq_of_lt h]

/-! ## Chunks -/

section Chunks

variable {α β : Type*}

/-- The first `m` chunks of width `w`. -/
def chunks (w : ℕ) : ℕ → List α → List (List α)
  | 0, _ => []
  | m + 1, l => l.take w :: chunks w m (l.drop w)

@[simp] theorem length_chunks (w : ℕ) : ∀ (m : ℕ) (l : List α), (chunks w m l).length = m
  | 0, _ => rfl
  | m + 1, l => by rw [chunks, List.length_cons, length_chunks]

theorem getElem?_chunks (w : ℕ) : ∀ (m : ℕ) (l : List α) (i : ℕ),
    (chunks w m l)[i]? = if i < m then some ((l.drop (w * i)).take w) else none
  | 0, _, _ => rfl
  | m + 1, l, 0 => rfl
  | m + 1, l, i + 1 => by
    rw [chunks, List.getElem?_cons_succ, getElem?_chunks, List.drop_drop]
    simp only [Nat.add_lt_add_iff_right, Nat.mul_succ, Nat.add_comm]

/-- A window on the chunks is the chunks of a window. -/
theorem chunks_window {w m s n : ℕ} {l : List α} (h : s + n ≤ m) :
    ((chunks w m l).drop s).take n = chunks w n ((l.drop (w * s)).take (w * n)) := by
  refine List.ext_getElem? fun i => ?_
  rw [List.getElem?_take, List.getElem?_drop, getElem?_chunks, getElem?_chunks]
  by_cases hi : i < n
  · have hroom : w * i + w ≤ w * n := by
      rw [← Nat.mul_succ]
      exact Nat.mul_le_mul_left w hi
    rw [if_pos hi, if_pos (by omega), if_pos hi, List.drop_take, List.take_take, List.drop_drop,
      ← Nat.mul_add, Nat.min_eq_left (by omega)]
  · rw [if_neg hi, if_neg hi]

variable {enc : α → List β} {w : ℕ} (henc : ∀ x, (enc x).length = w)
include henc

theorem length_flatMap_fixed (xs : List α) : (xs.flatMap enc).length = w * xs.length := by
  induction xs with
  | nil => rfl
  | cons x xs ih => rw [List.flatMap_cons, List.length_append, henc, ih, List.length_cons,
      Nat.mul_succ, Nat.add_comm]

/-- **What stands at an entry's place is the entry.** -/
theorem entry_flatMap {xs : List α} {i : ℕ} (h : i < xs.length) (rest : List β) :
    ((xs.flatMap enc ++ rest).drop (w * i)).take w = enc xs[i] := by
  induction xs generalizing i with
  | nil => exact absurd h (Nat.not_lt_zero i)
  | cons x xs ih =>
    rw [List.flatMap_cons, List.append_assoc]
    cases i with
    | zero => exact List.take_left' (henc x)
    | succ i =>
      rw [Nat.mul_succ, Nat.add_comm, ← List.drop_drop, List.drop_left' (henc x)]
      exact ih (Nat.lt_of_succ_lt_succ h)

/-- **The chunks before a cut are the entries that end before it.** -/
theorem chunks_cut {xs : List α} {k m : ℕ} (hk : w * m ≤ k) (hm : m ≤ xs.length) :
    chunks w m ((xs.flatMap enc).take k) = (xs.take m).map enc := by
  refine List.ext_getElem? fun i => ?_
  rw [getElem?_chunks, List.getElem?_map, List.getElem?_take]
  by_cases hi : i < m
  · have hroom : w * i + w ≤ w * m := by
      rw [← Nat.mul_succ]
      exact Nat.mul_le_mul_left w hi
    have hentry := entry_flatMap henc (Nat.lt_of_lt_of_le hi hm) []
    rw [List.append_nil] at hentry
    rw [if_pos hi, if_pos hi, List.drop_take, List.take_take, Nat.min_eq_left (by omega), hentry,
      List.getElem?_eq_getElem (Nat.lt_of_lt_of_le hi hm)]
    rfl
  · rw [if_neg hi, if_neg hi]
    rfl

end Chunks

end AgentProcs
