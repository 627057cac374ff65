import AgentProcs.Machinery.Rings
import AgentProcs.Tui.App

/-!
# Tui/RingBuffer — the hot buffer is the last lines pushed, counted as they come and go

    push (out, d)    out a   err b   out c   ⟶   err b   out c   out d       capacity 3
    stdout_count             2               − 1 + 1            2
    stderr_count             1                                  1

The counters are never recounted: a push adds one for the line that comes and takes one for the line
that goes.  They stay right because the line that goes is one they have counted, so that nothing is
ever taken from zero.
-/

namespace AgentProcs

namespace OutputBuffer

/-- A buffer after these pushes. -/
def filled (maxLines : ℕ) (pushed : List (LineSource × String)) : OutputBuffer :=
  pushed.foldl (fun b l => b.push l.1 l.2) (.new maxLines)

theorem filled_concat (maxLines : ℕ) (pushed : List (LineSource × String))
    (l : LineSource × String) :
    filled maxLines (pushed ++ [l]) = (filled maxLines pushed).push l.1 l.2 := List.foldl_concat ..

/-! ## The lines -/

section Lines

@[simp] theorem lines_evict (b : OutputBuffer) : b.evict.lines = b.lines.tail := by
  rw [evict]
  split <;> simp [*]

@[simp] theorem maxLines_evict (b : OutputBuffer) : b.evict.maxLines = b.maxLines := by
  rw [evict]
  split <;> rfl

/-- **The buffer is a ring.** -/
theorem lines_push (source : LineSource) (line : String) (b : OutputBuffer) :
    (b.push source line).lines = ringPush b.maxLines (source, line) b.lines := by
  rw [ringPush, ← lines_evict, ← apply_ite OutputBuffer.lines]
  simp only [push]
  cases source <;> rfl

theorem maxLines_push (b : OutputBuffer) (source : LineSource) (line : String) :
    (b.push source line).maxLines = b.maxLines := by
  have hkept : (if b.lines.length = b.maxLines then b.evict else b).maxLines = b.maxLines := by
    rw [apply_ite OutputBuffer.maxLines, maxLines_evict, ite_self]
  simp only [push]
  cases source <;> exact hkept

theorem maxLines_filled (m : ℕ) (pushed : List (LineSource × String)) :
    (filled m pushed).maxLines = m := by
  induction pushed using List.reverseRecOn with
  | nil => rfl
  | append_singleton pushed l ih => rw [filled_concat, maxLines_push, ih]

/-- **The last lines**: a buffer with some capacity holds that many of the pushes. -/
theorem lines_filled {m : ℕ} (hm : 1 ≤ m) (pushed : List (LineSource × String)) :
    (filled m pushed).lines = pushed.rtake m := by
  induction pushed using List.reverseRecOn with
  | nil => exact (List.rtake_nil m).symm
  | append_singleton pushed l ih =>
    rw [filled_concat, lines_push, maxLines_filled, ih, ringPush_rtake hm]

end Lines

/-! ## The counters -/

section Counted

/-- Both counters are right. -/
structure Counted (b : OutputBuffer) : Prop where
  stdout : b.stdoutCount = b.stdoutLines.length
  stderr : b.stderrCount = b.stderrLines.length

theorem counted_new (maxLines : ℕ) : (new maxLines).Counted := ⟨rfl, rfl⟩

theorem Counted.evict {b : OutputBuffer} (h : b.Counted) : b.evict.Counted := by
  obtain ⟨lines, maxLines, stdoutCount, stderrCount⟩ := b
  obtain ⟨hout, herr⟩ := h
  match lines with
  | [] => exact ⟨hout, herr⟩
  | (.stdout, line) :: lines =>
    simp only [stdoutLines, stderrLines, OutputBuffer.evict] at hout herr ⊢
    exact ⟨by simp [hout, stdoutLines], by simpa [stderrLines] using herr⟩
  | (.stderr, line) :: lines =>
    simp only [stdoutLines, stderrLines, OutputBuffer.evict] at hout herr ⊢
    exact ⟨by simpa [stdoutLines] using hout, by simp [herr, stderrLines]⟩

theorem Counted.push {b : OutputBuffer} (h : b.Counted) (source : LineSource) (line : String) :
    (b.push source line).Counted := by
  have hkept : (if b.lines.length = b.maxLines then b.evict else b).Counted := by
    split_ifs
    · exact h.evict
    · exact h
  simp only [OutputBuffer.push]
  generalize (if b.lines.length = b.maxLines then b.evict else b) = kept at hkept ⊢
  obtain ⟨hout, herr⟩ := hkept
  cases source
  · exact ⟨by simp [stdoutLines, hout], by simpa [stderrLines] using herr⟩
  · exact ⟨by simpa [stdoutLines] using hout, by simp [stderrLines, herr]⟩

/-- **The counters are right** after any pushes. -/
theorem counted_filled (maxLines : ℕ) (pushed : List (LineSource × String)) :
    (filled maxLines pushed).Counted := by
  induction pushed using List.reverseRecOn with
  | nil => exact counted_new maxLines
  | append_singleton pushed l ih =>
    rw [filled_concat]
    exact ih.push l.1 l.2

/-- Every line is of one stream or the other. -/
theorem Counted.total {b : OutputBuffer} (h : b.Counted) : b.stdoutCount + b.stderrCount = b.len := by
  have hsplit := List.length_eq_length_filter_add (l := b.lines) (·.1 = .stdout)
  have hother : b.lines.filter (fun l => !decide (l.1 = .stdout)) = b.lines.filter (·.1 = .stderr) :=
    List.filter_congr fun l _ => by cases l.1 <;> rfl
  rw [h.stdout, h.stderr, stdoutLines, stderrLines, List.length_map, List.length_map, len, hsplit,
    hother]

end Counted

/-! ## Nothing is taken from zero -/

section Checked

/-- `evict`, with its subtractions checked: `-= 1` panics at zero, or wraps in a release build. -/
def evictChecked (b : OutputBuffer) : Except ReadError OutputBuffer :=
  match b.lines with
  | [] => .ok b
  | (.stdout, _) :: lines => do
    let stdoutCount ← checkedSub b.stdoutCount 1
    return { b with lines, stdoutCount }
  | (.stderr, _) :: lines => do
    let stderrCount ← checkedSub b.stderrCount 1
    return { b with lines, stderrCount }

/-- `push`, with the subtractions of the eviction checked. -/
def pushChecked (source : LineSource) (line : String) (b : OutputBuffer) :
    Except ReadError OutputBuffer := do
  let kept ← (if b.lines.length = b.maxLines then b.evictChecked else .ok b)
  match source with
  | .stdout =>
    return { kept with
      lines := kept.lines ++ [(.stdout, line)], stdoutCount := kept.stdoutCount + 1 }
  | .stderr =>
    return { kept with
      lines := kept.lines ++ [(.stderr, line)], stderrCount := kept.stderrCount + 1 }

variable {b : OutputBuffer}

/-- **The line that goes has been counted.** -/
theorem Counted.evictChecked (h : b.Counted) : b.evictChecked = .ok b.evict := by
  obtain ⟨lines, maxLines, stdoutCount, stderrCount⟩ := b
  obtain ⟨hout, herr⟩ := h
  match lines with
  | [] => rfl
  | (.stdout, line) :: lines =>
    have hpos : 1 ≤ stdoutCount := by
      simp only [stdoutLines] at hout
      simp [hout]
    simp only [OutputBuffer.evictChecked, checkedSub_of_le hpos]
    rfl
  | (.stderr, line) :: lines =>
    have hpos : 1 ≤ stderrCount := by
      simp only [stderrLines] at herr
      simp [herr]
    simp only [OutputBuffer.evictChecked, checkedSub_of_le hpos]
    rfl

theorem Counted.pushChecked (h : b.Counted) (source : LineSource) (line : String) :
    b.pushChecked source line = .ok (b.push source line) := by
  have hkept : (if b.lines.length = b.maxLines then b.evictChecked else .ok b) =
      Except.ok (if b.lines.length = b.maxLines then b.evict else b) := by
    rw [h.evictChecked]
    split_ifs <;> rfl
  rw [OutputBuffer.pushChecked, hkept]
  cases source <;> rfl

/-- **No push takes from zero**, whatever was pushed before. -/
theorem foldlM_pushChecked (m : ℕ) (pushed : List (LineSource × String)) :
    pushed.foldlM (fun b l => b.pushChecked l.1 l.2) (new m) = .ok (filled m pushed) := by
  induction pushed using List.reverseRecOn with
  | nil => rfl
  | append_singleton pushed l ih =>
    rw [List.foldlM_append, ih, filled_concat]
    simp only [List.foldlM_cons, List.foldlM_nil, bind_pure]
    exact (counted_filled m pushed).pushChecked l.1 l.2

end Checked

/-! ## What a buffer holds -/

section HoldsLast

/-- **The last pushes**, as many as there is room for, with the two views of them and their counts. -/
structure HoldsLast (m : ℕ) (pushed : List (LineSource × String)) (b : OutputBuffer) : Prop where
  allLines : b.allLines = pushed.rtake (min m pushed.length)
  stdoutLines : b.stdoutLines =
    ((pushed.rtake (min m pushed.length)).filter (·.1 = .stdout)).map (·.2)
  stderrLines : b.stderrLines =
    ((pushed.rtake (min m pushed.length)).filter (·.1 = .stderr)).map (·.2)
  stdoutCount : b.stdoutCount = b.stdoutLines.length
  stderrCount : b.stderrCount = b.stderrLines.length
  total : b.stdoutCount + b.stderrCount = b.len

theorem holdsLast_filled {m : ℕ} (hm : 1 ≤ m) (pushed : List (LineSource × String)) :
    (filled m pushed).HoldsLast m pushed := by
  have hlines : (filled m pushed).lines = pushed.rtake (min m pushed.length) := by
    rw [rtake_min_length, lines_filled hm]
  have hcounted := counted_filled m pushed
  exact ⟨hlines, by rw [stdoutLines, hlines], by rw [stderrLines, hlines], hcounted.stdout,
    hcounted.stderr, hcounted.total⟩

/-- **The ring buffer**: any pushes go through without taking a counter below zero, and leave the
last of them. -/
theorem pushes_holdsLast {m : ℕ} (hm : 1 ≤ m) (pushed : List (LineSource × String)) :
    pushed.foldlM (fun b l => b.pushChecked l.1 l.2) (new m) = .ok (filled m pushed) ∧
      (filled m pushed).HoldsLast m pushed :=
  ⟨foldlM_pushChecked m pushed, holdsLast_filled hm pushed⟩

/-- Six lines through a buffer of five: the first goes, and its counter goes down with it. -/
theorem pushes_holdsLast_six :
    (filled 5 [(.stdout, "a"), (.stderr, "b"), (.stdout, "c"), (.stdout, "d"), (.stderr, "e"),
      (.stderr, "f")]).HoldsLast 5 [(.stdout, "a"), (.stderr, "b"), (.stdout, "c"), (.stdout, "d"),
        (.stderr, "e"), (.stderr, "f")] :=
  (pushes_holdsLast (by decide) _).2

example : (filled 5 [(.stdout, "a"), (.stderr, "b"), (.stdout, "c"), (.stdout, "d"), (.stderr, "e"),
    (.stderr, "f")]).stdoutCount = 2 := rfl

end HoldsLast

end OutputBuffer

end AgentProcs
