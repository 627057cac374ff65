import Mathlib.Data.List.Basic

/-!
# Machinery/Increments — an index of matches, brought up to date with a list that changes

    before   a  b* c  d*            places of the matches 1 3,  up to 4
    now      a  b* c  d* e  f*      1 3 kept, and from 4 on: 5

Bringing an index up to date looks only at what lies beyond the place reached before.  That gives the
index of the new list if and only if what was looked at before still matches at the same places.
-/

namespace AgentProcs

variable {α : Type*} {p : α → Bool}

/-- The places of the matches from `start` on. -/
def matchesFrom (p : α → Bool) (start : ℕ) (xs : List α) : List ℕ := (xs.drop start).findIdxs p start

/-- The index of a list: where its matches are, and how long it is. -/
def indexOf (p : α → Bool) (xs : List α) : List ℕ × ℕ := (xs.findIdxs p, xs.length)

/-- Bring an index up to date with a list, if there is more of it. -/
def catchUp (p : α → Bool) (now : List α) (index : List ℕ × ℕ) : List ℕ × ℕ :=
  if now.length ≤ index.2 then index else (index.1 ++ matchesFrom p index.2 now, now.length)

section Matches

variable {start count i : ℕ} {xs ys : List α}

theorem matchesFrom_of_length_le (h : xs.length ≤ start) : matchesFrom p start xs = [] := by
  rw [matchesFrom, List.drop_of_length_le h, List.findIdxs_nil]

/-- **One chunk at a time**: the matches of a window, and those beyond it. -/
theorem matchesFrom_add (start count : ℕ) (xs : List α) : matchesFrom p start xs =
    ((xs.drop start).take count).findIdxs p start ++ matchesFrom p (start + count) xs := by
  rcases Nat.le_total (xs.drop start).length count with hle | hle
  · have hnone : matchesFrom p (start + count) xs = [] := matchesFrom_of_length_le (by
      rw [List.length_drop] at hle
      omega)
    rw [List.take_of_length_le hle, hnone, List.append_nil, matchesFrom]
  · have hlen : ((xs.drop start).take count).length = count := List.length_take_of_le hle
    calc matchesFrom p start xs
        = ((xs.drop start).take count ++ (xs.drop start).drop count).findIdxs p start := by
          rw [List.take_append_drop, matchesFrom]
      _ = _ := by rw [List.findIdxs_append, hlen, List.drop_drop, matchesFrom]

/-- **The matches are the places that match**, in order. -/
theorem findIdxs_eq_filter (xs : List α) (start : ℕ) : xs.findIdxs p start =
    (List.range' start xs.length).filter fun i => (xs[i - start]?).any p := by
  induction xs generalizing start with
  | nil => rfl
  | cons x xs ih =>
    have hrest : (List.range' (start + 1) xs.length).filter (fun i => (xs[i - (start + 1)]?).any p) =
        (List.range' (start + 1) xs.length).filter fun i => ((x :: xs)[i - start]?).any p :=
      List.filter_congr fun i hi => by
        obtain ⟨k, hk⟩ : ∃ k, i - start = k + 1 := ⟨i - start - 1, by
          have := (List.mem_range'_1.mp hi).1
          omega⟩
        rw [hk, List.getElem?_cons_succ, Nat.sub_add_eq, hk, Nat.add_sub_cancel]
    rw [List.findIdxs_cons, ih, hrest, List.length_cons, List.range'_succ, List.filter_cons,
      Nat.sub_self]
    rfl

theorem matchesFrom_eq_filter (start : ℕ) (xs : List α) : matchesFrom p start xs =
    (List.range' start (xs.length - start)).filter fun i => (xs[i]?).any p := by
  rw [matchesFrom, findIdxs_eq_filter, List.length_drop]
  refine List.filter_congr fun i hi => ?_
  rw [List.getElem?_drop, Nat.add_sub_cancel' (List.mem_range'_1.mp hi).1]

/-- The matches tell which places match, and nothing else. -/
theorem findIdxs_eq_iff (h : xs.length = ys.length) :
    xs.findIdxs p = ys.findIdxs p ↔ xs.map p = ys.map p := by
  refine ⟨fun heq => ?_, fun heq => ?_⟩
  · refine List.ext_getElem (by simp [h]) fun i hi hi' => ?_
    rw [List.length_map] at hi hi'
    have hmem : i ∈ xs.findIdxs p ↔ i ∈ ys.findIdxs p := by rw [heq]
    rw [List.mem_findIdxs_iff_pos_getElem hi, List.mem_findIdxs_iff_pos_getElem hi'] at hmem
    rw [List.getElem_map, List.getElem_map]
    exact Bool.eq_iff_iff.mpr hmem
  · have hid : ∀ zs : List α, zs.findIdxs p = (zs.map p).findIdxs id := fun zs => by
      rw [List.findIdxs_map, Function.id_comp]
    rw [hid, hid, heq]

end Matches

/-! ## Catching up -/

section CatchUp

variable {before now : List α}

/-- **An index catches up if and only if** what it was made from still matches at the same places. -/
theorem catchUp_indexOf_iff :
    catchUp p now (indexOf p before) = indexOf p now ↔ before.map p <+: now.map p := by
  rw [catchUp, indexOf, indexOf]
  split_ifs with hle
  · -- nothing new is seen: the two must be equally long, and match alike
    rw [Prod.mk.injEq]
    refine ⟨fun ⟨hmatches, hlen⟩ => ?_, fun hinit => ?_⟩
    · exact (findIdxs_eq_iff hlen).mp hmatches ▸ List.prefix_refl _
    · have hlen : before.length = now.length := by
        have := hinit.length_le
        rw [List.length_map, List.length_map] at this
        omega
      exact ⟨(findIdxs_eq_iff hlen).mpr (hinit.eq_of_length (by simp [hlen])), hlen⟩
  · have hlen : before.length = (now.take before.length).length :=
      (List.length_take_of_le (Nat.le_of_not_le hle)).symm
    have hsplit : now.findIdxs p =
        (now.take before.length).findIdxs p ++ matchesFrom p before.length now := by
      have hadd := matchesFrom_add (p := p) 0 before.length now
      rwa [Nat.zero_add] at hadd
    rw [Prod.mk.injEq, and_iff_left rfl, hsplit, List.append_cancel_right_eq, findIdxs_eq_iff hlen,
      List.prefix_iff_eq_take, List.length_map, List.map_take]

end CatchUp

end AgentProcs
