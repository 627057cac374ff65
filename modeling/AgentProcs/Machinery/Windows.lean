import Mathlib.Data.List.Basic

/-!
# Machinery/Windows — a window on the end of a history

    history    x₀ x₁ ⋯ │ ⋯ height ⋯ │ ⋯ offset ⋯ │
                       └── window ──┘
    stitched   older ⋯ │ newer ⋯⋯⋯⋯⋯⋯⋯⋯⋯⋯⋯⋯⋯⋯⋯⋯⋯ │     as long as the longer of the two

A window is placed by its distance from the end, so it stays where it is when the history loses its
beginning, and moves when the history grows.  Two records of one history are stitched by counting:
the newer takes the place of as many of the older.
-/

namespace AgentProcs

section Window

variable {α : Type*} (offset height : ℕ) (xs ys : List α)

/-- The `height` elements before the last `offset`. -/
def window : List α := (xs.take (xs.length - offset)).drop (xs.length - offset - height)

@[simp] theorem length_window :
    (window offset height xs).length = min height (xs.length - offset) := by
  rw [window, List.length_drop, List.length_take]
  omega

theorem getElem?_window (i : ℕ) : (window offset height xs)[i]? =
    if i < min height (xs.length - offset) then xs[xs.length - offset - height + i]? else none := by
  rw [window, List.getElem?_drop, List.getElem?_take]
  split_ifs <;> first | rfl | omega

variable {offset height xs ys}

theorem window_map {β : Type*} (f : α → β) :
    window offset height (xs.map f) = (window offset height xs).map f := by
  rw [window, window, List.length_map, ← List.map_take, ← List.map_drop]

/-- As the elements from a place on. -/
theorem window_eq {start stop : ℕ} (hstop : stop = xs.length - offset)
    (hstart : start = stop - height) :
    window offset height xs = (xs.drop start).take (stop - start) := by
  rw [window, List.drop_take, hstart, hstop]

theorem window_eq_nil (h : height = 0 ∨ xs.length ≤ offset) : window offset height xs = [] := by
  refine List.length_eq_zero_iff.mp ?_
  rw [length_window]
  omega

/-- What is lost before the window does not move it. -/
theorem window_drop {lost : ℕ} (h : lost ≤ xs.length - offset - height) :
    window offset height (xs.drop lost) = window offset height xs := by
  refine List.ext_getElem? fun i => ?_
  rw [getElem?_window, getElem?_window, List.length_drop, List.getElem?_drop]
  split_ifs with hi hi' hi'
  · congr 1
    omega
  · omega
  · omega
  · rfl

/-- **When growth leaves the window alone**: if nothing is added, nothing is ever shown, or what
stands `ys.length` further on reads the same. -/
theorem window_append_iff : window offset height (xs ++ ys) = window offset height xs ↔
    ys = [] ∨ height = 0 ∨ xs.length + ys.length ≤ offset ∨
      offset + height ≤ xs.length ∧ ∀ i < height,
        (xs ++ ys)[xs.length - offset - height + i + ys.length]? =
          xs[xs.length - offset - height + i]? := by
  constructor
  · intro heq
    have hlength := congrArg List.length heq
    rw [length_window, length_window, List.length_append] at hlength
    by_cases hys : ys = []
    · exact .inl hys
    have hpos := List.length_pos_iff.mpr hys
    by_cases hshown : height = 0 ∨ xs.length + ys.length ≤ offset
    · exact .inr (hshown.imp_right .inl)
    have hfull : offset + height ≤ xs.length := by omega
    refine .inr (.inr (.inr ⟨hfull, fun i hi => ?_⟩))
    have hplace := congrArg (·[i]?) heq
    simp only [getElem?_window, List.length_append] at hplace
    rw [if_pos (by omega), if_pos (by omega)] at hplace
    rw [← hplace]
    congr 1
    omega
  · rintro (rfl | rfl | hnone | ⟨hfull, hsame⟩)
    · rw [List.append_nil]
    · rw [window_eq_nil (.inl rfl), window_eq_nil (.inl rfl)]
    · rw [window_eq_nil (.inr (by rwa [List.length_append])), window_eq_nil (.inr (by omega))]
    · refine List.ext_getElem? fun i => ?_
      rw [getElem?_window, getElem?_window, List.length_append]
      split_ifs with hi hi' hi'
      · rw [← hsame i (by omega)]
        congr 1
        omega
      · omega
      · omega
      · rfl

theorem window_append_right (h : offset + height ≤ ys.length) :
    window offset height (xs ++ ys) = window offset height ys := by
  have hlost : window offset height ((xs ++ ys).drop xs.length) = window offset height (xs ++ ys) :=
    window_drop (by rw [List.length_append]; omega)
  rw [← hlost, List.drop_left]

/-- **What a window shows is kept** while a history becomes another and gains these elements: only
what stands before the window may change. -/
def Retains (offset height : ℕ) (xs added xs' : List α) : Prop :=
  ∃ lost kept gained, xs = lost ++ kept ∧ xs' = gained ++ (kept ++ added) ∧
    (lost = [] ∧ gained = [] ∨ offset + height ≤ kept.length)

theorem retains_append (offset height : ℕ) (xs added : List α) :
    Retains offset height xs added (xs ++ added) :=
  ⟨[], xs, [], rfl, rfl, .inl ⟨rfl, rfl⟩⟩

/-- **When a window stays**, what it shows being kept. -/
theorem Retains.window_eq_iff {added xs' : List α} (h : Retains offset height xs added xs') :
    window offset height xs' = window offset height xs ↔
      added = [] ∨ height = 0 ∨ xs.length + added.length ≤ offset ∨
        offset + height ≤ xs.length ∧ ∀ i < height,
          (xs ++ added)[xs.length - offset - height + i + added.length]? =
            xs[xs.length - offset - height + i]? := by
  obtain ⟨lost, kept, gained, rfl, rfl, hkept⟩ := h
  have hgrown : window offset height (gained ++ (kept ++ added)) =
      window offset height (lost ++ kept ++ added) := by
    obtain ⟨rfl, rfl⟩ | hfull := hkept
    · rfl
    · have hfull' : offset + height ≤ (kept ++ added).length := by
        rw [List.length_append]
        omega
      rw [window_append_right hfull', List.append_assoc, window_append_right hfull']
  rw [hgrown, window_append_iff]

end Window

section Stitched

variable {α : Type*} {older newer : List α}

/-- Two records of one history, stitched by counting. -/
def stitched (older newer : List α) : List α := older.take (older.length - newer.length) ++ newer

@[simp] theorem length_stitched : (stitched older newer).length = max older.length newer.length := by
  rw [stitched, List.length_append, List.length_take]
  omega

/-- **A suffix adds nothing.** -/
theorem stitched_of_suffix (h : newer <:+ older) : stitched older newer = older := by
  obtain ⟨before, rfl⟩ := h
  rw [stitched, List.length_append, Nat.add_sub_cancel, List.take_left]

/-- **A longer record stands alone.** -/
theorem stitched_of_length_le (h : older.length ≤ newer.length) : stitched older newer = newer := by
  rw [stitched, Nat.sub_eq_zero_of_le h, List.take_zero, List.nil_append]

/-- From the boundary on, everything is newer. -/
theorem drop_stitched {n : ℕ} (h : older.length - newer.length ≤ n) :
    (stitched older newer).drop n = newer.drop (n - (older.length - newer.length)) := by
  rw [stitched, List.drop_append, List.length_take, List.drop_of_length_le (by simp; omega),
    List.nil_append, Nat.min_eq_left (Nat.sub_le _ _)]

/-- Before the boundary, everything is older. -/
theorem take_stitched {n : ℕ} (h : n ≤ older.length - newer.length) :
    (stitched older newer).take n = older.take n := by
  rw [stitched, List.take_append_of_le_length (by rw [List.length_take]; omega), List.take_take,
    Nat.min_eq_left h]

/-- Across the boundary, what is older comes first. -/
theorem drop_take_stitched {start stop : ℕ} (hstart : start ≤ older.length - newer.length)
    (hstop : older.length - newer.length ≤ stop) :
    ((stitched older newer).drop start).take (stop - start) =
      (older.drop start).take (older.length - newer.length - start) ++
        newer.take (stop - (older.length - newer.length)) := by
  have hlength : ((older.take (older.length - newer.length)).drop start).length =
      older.length - newer.length - start := by
    rw [List.length_drop, List.length_take, Nat.min_eq_left (Nat.sub_le _ _)]
  rw [stitched, List.drop_append_of_le_length (by rw [List.length_take]; omega), List.take_append,
    List.take_of_length_le (by omega), hlength, List.drop_take]
  congr 2
  omega

/-- **Growing on both sides**: as many are appended to the older record as to the newer, which loses
its oldest elements.  What a window shows is kept if the newer record was the end of the older, if it
loses nothing, or if it loses only what stands before the window. -/
theorem retains_stitched {offset height lost : ℕ} {added : List α}
    (h : newer <:+ older ∨ lost = 0 ∨ older.length - newer.length + lost ≤
      (stitched older newer).length - offset - height) :
    Retains offset height (stitched older newer) added
      (stitched (older ++ added) ((newer ++ added).drop lost)) := by
  by_cases hsuffix : newer <:+ older
  · have hsuffix' : (newer ++ added).drop lost <:+ older ++ added :=
      (List.drop_suffix _ _).trans (List.suffix_append_self_iff.mpr hsuffix)
    rw [stitched_of_suffix hsuffix, stitched_of_suffix hsuffix']
    exact retains_append ..
  obtain rfl | hlost := Nat.eq_zero_or_pos lost
  · have hgrown : stitched (older ++ added) (newer ++ added) = stitched older newer ++ added := by
      rw [stitched, stitched, List.length_append, List.length_append, Nat.add_sub_add_right,
        List.take_append_of_le_length (Nat.sub_le _ _), List.append_assoc]
    rw [List.drop_zero, hgrown]
    exact retains_append ..
  have hbefore := (h.resolve_left hsuffix).resolve_left (Nat.ne_of_gt hlost)
  rw [length_stitched] at hbefore
  refine ⟨older.take (older.length - newer.length) ++ newer.take lost, newer.drop lost, _, ?_,
    congrArg (_ ++ ·) (List.drop_append_of_le_length (by omega)), .inr ?_⟩
  · rw [stitched, List.append_assoc, List.take_append_drop]
  · rw [List.length_drop]
    omega

end Stitched

end AgentProcs
