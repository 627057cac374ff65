import AgentProcs.Machinery.Lines

/-!
# Machinery/BufferedLines — lines read through a buffer over a limited source

    source ──▸ limit ──▸ buffer ──▸ readLine

A reader fills a buffer from a source that delivers what it likes at a time, and pretends that the
source has ended once `limit` items have been taken.  A line read through it is the first line of
what is pending, cut after what is buffered and `limit` more, and nothing behind it is lost.
-/

namespace AgentProcs

/-- A buffered reader over a limited source. -/
structure LimitedReader (α ρ : Type*) where
  /-- Read ahead, and not yet consumed. -/
  buffered : ρ → List α
  /-- What the source has yet to deliver before it ends. -/
  incoming : ρ → List α
  /-- How much of it may still be taken. -/
  limit : ρ → ℕ
  capacity : ℕ
  fillBuf : ρ → ρ
  consume : ρ → ℕ → ρ
  setLimit : ρ → ℕ → ρ
  fillBuf_of_buffered : ∀ {r}, buffered r ≠ [] → fillBuf r = r
  /-- Into an empty buffer goes any part of the source, and none only at the end or the limit. -/
  fillBuf_reads : ∀ {r}, buffered r = [] → ∃ k,
    k ≤ limit r ∧ k ≤ capacity ∧ k ≤ (incoming r).length ∧
    (k = 0 → limit r = 0 ∨ incoming r = []) ∧
    buffered (fillBuf r) = (incoming r).take k ∧ incoming (fillBuf r) = (incoming r).drop k ∧
    limit (fillBuf r) = limit r - k
  buffered_consume : ∀ r n, buffered (consume r n) = (buffered r).drop n
  incoming_consume : ∀ r n, incoming (consume r n) = incoming r
  limit_consume : ∀ r n, limit (consume r n) = limit r
  buffered_setLimit : ∀ r n, buffered (setLimit r n) = buffered r
  incoming_setLimit : ∀ r n, incoming (setLimit r n) = incoming r
  limit_setLimit : ∀ r n, limit (setLimit r n) = n

namespace LimitedReader

attribute [simp] buffered_consume incoming_consume limit_consume
  buffered_setLimit incoming_setLimit limit_setLimit

variable {α ρ : Type*} [DecidableEq α] (R : LimitedReader α ρ) {nl : α} {r : ρ}

/-- Everything that has not been consumed. -/
def pending (r : ρ) : List α := R.buffered r ++ R.incoming r

/-- What can be read before the limit. -/
def window (r : ρ) : List α := R.buffered r ++ (R.incoming r).take (R.limit r)

omit [DecidableEq α] in
theorem window_eq_take (r : ρ) :
    R.window r = (R.pending r).take ((R.buffered r).length + R.limit r) := by
  rw [window, pending, List.take_length_add_append]

omit [DecidableEq α] in
@[simp] theorem pending_setLimit (r : ρ) (n : ℕ) : R.pending (R.setLimit r n) = R.pending r := by
  simp [pending]

/-! ## Filling the buffer -/

section Fill

omit [DecidableEq α]

theorem pending_fillBuf (r : ρ) : R.pending (R.fillBuf r) = R.pending r := by
  by_cases h : R.buffered r = []
  · obtain ⟨k, -, -, -, -, hb, hi, -⟩ := R.fillBuf_reads h
    simp [pending, h, hb, hi]
  · rw [R.fillBuf_of_buffered h]

theorem window_fillBuf (r : ρ) : R.window (R.fillBuf r) = R.window r := by
  by_cases h : R.buffered r = []
  · obtain ⟨k, hk, -, -, -, hb, hi, hl⟩ := R.fillBuf_reads h
    rw [window, window, hb, hi, hl, h, List.nil_append, ← List.take_add, Nat.add_sub_cancel' hk]
  · rw [R.fillBuf_of_buffered h]

/-- An empty buffer after filling is the end. -/
theorem window_of_fillBuf (h : R.buffered (R.fillBuf r) = []) : R.window r = [] := by
  by_cases hr : R.buffered r = []
  · obtain ⟨k, -, -, hk, hend, hb, -, -⟩ := R.fillBuf_reads hr
    have hzero : k = 0 ∨ R.incoming r = [] := List.take_eq_nil_iff.mp (hb.symm.trans h)
    have hstop : R.limit r = 0 ∨ R.incoming r = [] := hzero.elim hend .inr
    rw [window, hr, List.nil_append]
    exact List.take_eq_nil_iff.mpr hstop
  · exact absurd (R.fillBuf_of_buffered hr ▸ h) hr

theorem buffered_fillBuf_le (h : (R.buffered r).length ≤ R.capacity) :
    (R.buffered (R.fillBuf r)).length ≤ R.capacity := by
  by_cases hr : R.buffered r = []
  · obtain ⟨k, -, hk, -, -, hb, -, -⟩ := R.fillBuf_reads hr
    rw [hb]
    exact Nat.le_trans (List.length_take_le _ _) hk
  · rwa [R.fillBuf_of_buffered hr]

theorem pending_consume_buffered (h : R.buffered r ≠ []) :
    (R.pending (R.consume r (R.buffered r).length)).length < (R.pending r).length := by
  simpa [pending] using List.length_pos_iff.mpr h

end Fill

/-! ## Reading a line -/

/-- Up to and with the next `nl`, filling the buffer as long as it holds none; at the end, whatever
is left. -/
def readLine (nl : α) (r : ρ) : List α × ρ :=
  if R.buffered (R.fillBuf r) = [] then ([], R.fillBuf r)
  else if nl ∈ R.buffered (R.fillBuf r) then
    ((takeLine nl (R.buffered (R.fillBuf r))).1,
      R.consume (R.fillBuf r) (takeLine nl (R.buffered (R.fillBuf r))).1.length)
  else
    let rest := readLine nl (R.consume (R.fillBuf r) (R.buffered (R.fillBuf r)).length)
    (R.buffered (R.fillBuf r) ++ rest.1, rest.2)
termination_by (R.pending r).length
decreasing_by
  rw [← R.pending_fillBuf r]
  exact R.pending_consume_buffered ‹_›

/-- **A line read** is the first line of the window. -/
theorem readLine_window (nl : α) (r : ρ) : (R.readLine nl r).1 = (takeLine nl (R.window r)).1 := by
  fun_induction R.readLine nl r with
  | case1 r h => rw [R.window_of_fillBuf h, takeLine_nil]
  | case2 r _ hmem => rw [← R.window_fillBuf r, window, takeLine_append_of_mem hmem]
  | case3 r _ hmem rest ih =>
    have hrest : R.window (R.consume (R.fillBuf r) (R.buffered (R.fillBuf r)).length)
        = (R.incoming (R.fillBuf r)).take (R.limit (R.fillBuf r)) := by simp [window]
    rw [← R.window_fillBuf r, window, takeLine_append_of_notMem hmem, ← hrest, ← ih]

/-- **Nothing is lost**: the line, and what is pending behind it. -/
theorem readLine_pending (nl : α) (r : ρ) :
    (R.readLine nl r).1 ++ R.pending (R.readLine nl r).2 = R.pending r := by
  fun_induction R.readLine nl r with
  | case1 r _ => rw [List.nil_append, R.pending_fillBuf]
  | case2 r _ _ =>
    rw [pending, R.buffered_consume, R.incoming_consume, drop_takeLine, ← List.append_assoc,
      takeLine_append]
    exact R.pending_fillBuf r
  | case3 r _ _ rest ih =>
    rw [List.append_assoc, ih, ← R.pending_fillBuf r]
    simp [pending]

/-- The buffer never holds more than it can. -/
theorem readLine_buffered_le (h : (R.buffered r).length ≤ R.capacity) :
    (R.buffered (R.readLine nl r).2).length ≤ R.capacity := by
  fun_induction R.readLine nl r with
  | case1 r _ => exact R.buffered_fillBuf_le h
  | case2 r _ _ =>
    rw [R.buffered_consume, List.length_drop]
    exact Nat.le_trans (Nat.sub_le _ _) (R.buffered_fillBuf_le h)
  | case3 r _ _ rest ih => exact ih (by simp)

end LimitedReader

/-! ## A source that delivers all it has -/

/-- What is buffered, what is still to come, and how much of it may be taken. -/
structure EagerReader (α : Type*) where
  ahead : List α
  rest : List α
  left : ℕ

/-- The reader over a source from which a read takes as much as fits. -/
def LimitedReader.eager (α : Type*) (capacity : ℕ) (hpos : 0 < capacity) :
    LimitedReader α (EagerReader α) where
  buffered := EagerReader.ahead
  incoming := EagerReader.rest
  limit := EagerReader.left
  capacity := capacity
  fillBuf r :=
    let k := min (min r.left capacity) r.rest.length
    if r.ahead = [] then ⟨r.rest.take k, r.rest.drop k, r.left - k⟩ else r
  consume r n := { r with ahead := r.ahead.drop n }
  setLimit r n := { r with left := n }
  fillBuf_of_buffered h := if_neg h
  fillBuf_reads {r} h := by
    refine ⟨min (min r.left capacity) r.rest.length, by omega, by omega, by omega, ?_, ?_⟩
    · intro hzero
      have hcases : r.left = 0 ∨ r.rest.length = 0 := by omega
      exact hcases.imp_right List.length_eq_zero_iff.mp
    · simp [h]
  buffered_consume _ _ := rfl
  incoming_consume _ _ := rfl
  limit_consume _ _ := rfl
  buffered_setLimit _ _ := rfl
  incoming_setLimit _ _ := rfl
  limit_setLimit _ _ := rfl

end AgentProcs
