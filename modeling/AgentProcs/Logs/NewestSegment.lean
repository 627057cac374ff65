import AgentProcs.Logs.IndexLag

/-!
# Logs/NewestSegment — which lines of an incarnation are in its current log file

    printed      e₀ e₁ e₂ │ e₃ e₄ e₅ │ e₆ e₇        a rotation where a line would not fit
    current file                       e₆ e₇

The current file holds what the incarnation at work has printed since its last size rotation, and
nothing at all between a rotation and the line it was for.
-/

namespace AgentProcs

/-- How much of a file these lines fill. -/
def bytesOf (es : List Entry) : ℕ := (es.map fun e => lineBytes e.line).sum

/-- The lines since the last one that did not fit. -/
def sinceRotation (maxBytes : ℕ) (es : List Entry) : List Entry :=
  es.foldl (fun cur e =>
    if 0 < maxBytes ∧ maxBytes < bytesOf cur + lineBytes e.line then [e] else cur ++ [e]) []

/-- The lines in the current file of a stream. -/
def ProcessLogs.newest (maxBytes : ℕ) (s : Stream) (p : ProcessLogs) : List Entry :=
  if p.pending s = none then sinceRotation maxBytes (p.lines s) else []

section Bytes

variable {maxBytes : ℕ} {es : List Entry} {e : Entry}

@[simp] theorem bytesOf_nil : bytesOf [] = 0 := rfl

@[simp] theorem bytesOf_append (es fs : List Entry) :
    bytesOf (es ++ fs) = bytesOf es + bytesOf fs := by
  simp [bytesOf]

@[simp] theorem bytesOf_singleton (e : Entry) : bytesOf [e] = lineBytes e.line := by simp [bytesOf]

theorem length_le_bytesOf (es : List Entry) : es.length ≤ bytesOf es := by
  induction es with
  | nil => exact Nat.zero_le _
  | cons e es ih =>
    rw [← List.singleton_append, bytesOf_append, bytesOf_singleton, lineBytes, List.length_append,
      List.length_singleton]
    omega

theorem length_text (s : Segment) : s.text.length = bytesOf s.entries := by
  rw [Segment.text, bytesOf, List.length_flatMap]
  exact congrArg List.sum (List.map_congr_left fun e _ => e.length_bytes)

theorem sinceRotation_concat : sinceRotation maxBytes (es ++ [e]) =
    if 0 < maxBytes ∧ maxBytes < bytesOf (sinceRotation maxBytes es) + lineBytes e.line then [e]
    else sinceRotation maxBytes es ++ [e] := by
  rw [sinceRotation, List.foldl_append]
  rfl

theorem sinceRotation_suffix (maxBytes : ℕ) (es : List Entry) :
    sinceRotation maxBytes es <:+ es := by
  induction es using List.reverseRecOn with
  | nil => exact List.suffix_refl _
  | append_singleton es e ih =>
    rw [sinceRotation_concat]
    split_ifs
    · exact List.suffix_append _ _
    · obtain ⟨before, hbefore⟩ := ih
      exact ⟨before, by rw [← List.append_assoc, hbefore]⟩

/-- Every line fills something, so two ends that fill the same are one. -/
theorem eq_of_suffix_of_bytesOf {fs gs : List Entry} (hf : fs <:+ es) (hg : gs <:+ es)
    (h : bytesOf fs = bytesOf gs) : fs = gs := by
  wlog hle : fs.length ≤ gs.length generalizing fs gs
  · exact (this hg hf h.symm (Nat.le_of_not_le hle)).symm
  obtain ⟨more, rfl⟩ := List.suffix_of_suffix_length_le hf hg hle
  have hmore : more.length ≤ 0 := by
    have := length_le_bytesOf more
    rw [bytesOf_append] at h
    omega
  rw [List.length_eq_zero_iff.mp (Nat.le_zero.mp hmore), List.nil_append]

end Bytes

/-! ## The writer's count -/

section Count

variable {name : String} {maxBytes maxRotatedFiles : ℕ} {p p' : ProcessLogs} {s : Stream}

/-- **The writer counts** what is in the current file. -/
structure Counted (maxBytes : ℕ) (s : Stream) (p : ProcessLogs) : Prop where
  bytes : (p.state s).bytesWritten = bytesOf (p.newest maxBytes s)
  full : ∀ line, p.pending s = some line → 0 < maxBytes ∧
    maxBytes < bytesOf (sinceRotation maxBytes (p.lines s)) + lineBytes line

namespace Counted

theorem congr (h : Counted maxBytes s p)
    (hstate : (p'.state s).bytesWritten = (p.state s).bytesWritten)
    (hpending : p'.pending s = p.pending s) (hlines : p'.lines s = p.lines s) :
    Counted maxBytes s p' where
  bytes := by rw [hstate, ProcessLogs.newest, hpending, hlines]; exact h.bytes
  full := by rw [hpending, hlines]; exact h.full

theorem opened (disk : Disk) (sent : List OutputLine) {i : ℕ} {written : Stream → List Printed}
    (hpast : ∀ s, ∀ x ∈ written s, x.incarnation < i) :
    Counted maxBytes s (.opened name disk sent i written) := by
  have hlines : ProcessLogs.lines s (.opened name disk sent i written) = [] := by
    rw [ProcessLogs.lines, List.map_eq_nil_iff, List.filter_eq_nil_iff]
    exact fun x hx heq => (hpast s x hx).ne (of_decide_eq_true heq)
  constructor
  · rw [ProcessLogs.newest, hlines]
    cases s <;> rfl
  · rintro _ ⟨⟩

/-- The line of a call, into a file it fits or that is empty. -/
theorem emit {k : ℕ} {cur : Segment}
    (hhead : Head (logPathOf name s) (p.state s) p.shared.disk k cur) {line : String}
    (hbytes : bytesOf (sinceRotation maxBytes (p.lines s ++ [⟨line, p.shared.seq⟩])) =
      (p.state s).bytesWritten + lineBytes line)
    (hpending : p.pending s = none) :
    Counted maxBytes s (p.emit (.of name s maxBytes maxRotatedFiles) s line) := by
  have hopened : Head (LogContext.of name s maxBytes maxRotatedFiles).logPath _ _ _ _ := hhead
  obtain ⟨k', hhead', -⟩ := hopened.emit line
  refine ⟨?_, fun l hl => ?_⟩
  · rw [ProcessLogs.newest, ProcessLogs.emit_pending, if_pos hpending, ProcessLogs.lines_emit_self,
      hbytes, ProcessLogs.emit_state_self, hhead'.bytes, hhead.bytes, Segment.text_put,
      List.length_append, Entry.length_bytes]
  · rw [ProcessLogs.emit_pending, hpending] at hl
    cases hl

/-- A rotation leaves the line it was for pending, and the new file empty. -/
theorem rotate {line : String} {st : LogWriteState} (hbytes : st.bytesWritten = 0)
    (hstate : p'.state s = st) (hpending : p'.pending s = some line)
    (hlines : p'.lines s = p.lines s) (hfull : 0 < maxBytes ∧
      maxBytes < bytesOf (sinceRotation maxBytes (p.lines s)) + lineBytes line) :
    Counted maxBytes s p' where
  bytes := by
    rw [hstate, hbytes, ProcessLogs.newest, hpending]
    rfl
  full l hl := by
    obtain rfl : line = l := Option.some.inj (hpending.symm.trans hl)
    rw [hlines]
    exact hfull

/-- **Every step keeps the count.** -/
theorem step (h : Counted maxBytes s p)
    (hsound : LogsSound False name maxBytes maxRotatedFiles p) {e : LogsEvent}
    (hstep : LogsStep name maxBytes maxRotatedFiles p e p') : Counted maxBytes s p' := by
  obtain ⟨k, cur, old, hlog⟩ := hsound.log s
  have hidle : p.pending s = none →
      (p.state s).bytesWritten = bytesOf (sinceRotation maxBytes (p.lines s)) := fun hnone => by
    rw [h.bytes, ProcessLogs.newest, if_pos hnone]
  cases hstep with
  | @write t line hnone hopen hfits =>
    by_cases hst : s = t
    · subst hst
      have hroom : ¬(0 < maxBytes ∧
          maxBytes < bytesOf (sinceRotation maxBytes (p.lines s)) + lineBytes line) :=
        hidle hnone ▸ hfits
      refine emit hlog.head ?_ hnone
      rw [sinceRotation_concat, if_neg hroom, bytesOf_append, bytesOf_singleton, hidle hnone]
    · exact h.congr (by rw [ProcessLogs.emit_state_of_ne hst]) rfl
        (by rw [ProcessLogs.lines, ProcessLogs.emit_written_of_ne hst]; rfl)
  | @rotate t line st shared hnone hopen hfull hreopen =>
    by_cases hst : s = t
    · subst hst
      have hopened : Head (LogContext.of name s maxBytes maxRotatedFiles).logPath _ _ _ _ := hlog.head
      obtain ⟨st', sh', heq, -, -, hhead, -⟩ := hopened.reopen
      obtain ⟨rfl, rfl⟩ : st' = st ∧ sh' = shared := by simpa using heq.symm.trans hreopen
      exact rotate hhead.bytes (Function.update_self ..) (Function.update_self ..) rfl
        (hidle hnone ▸ hfull)
    · exact h.congr (congrArg _ (Function.update_of_ne hst ..)) (Function.update_of_ne hst ..) rfl
  | @resume t line hline =>
    by_cases hst : s = t
    · subst hst
      have hzero : (p.state s).bytesWritten = 0 := by
        rw [h.bytes, ProcessLogs.newest, hline]
        rfl
      have hfull := h.full line hline
      refine emit (p := { p with pending := Function.update p.pending s none }) hlog.head ?_
        (Function.update_self ..)
      change bytesOf (sinceRotation maxBytes (p.lines s ++ [⟨line, p.shared.seq⟩])) = _
      rw [sinceRotation_concat, if_pos hfull, bytesOf_singleton, hzero, Nat.zero_add]
    · exact h.congr (congrArg _ (ProcessLogs.emit_state_of_ne hst)) (Function.update_of_ne hst ..)
        (by rw [ProcessLogs.lines, ProcessLogs.emit_written_of_ne hst]; rfl)
  | @finish t hnone hopen =>
    by_cases hst : s = t
    · subst hst
      exact h.congr (by rw [ProcessLogs.finish_state_self]; rfl) rfl rfl
    · exact h.congr (by rw [ProcessLogs.finish_state_of_ne hst]) rfl rfl
  | respawn hended =>
    exact opened _ _ fun t x hx => Nat.lt_succ_of_le (hsound.drawn.past t x hx)

end Counted

/-- **The current file** holds the newest lines. -/
theorem read_newest {directory : Disk → Prop}
    (h : (processLogs name maxBytes maxRotatedFiles directory).Reachable p) (s : Stream) :
    p.shared.disk.read (logPathOf name s) =
      some (.text ((p.newest maxBytes s).flatMap Entry.bytes)) := by
  have hsound : ∀ q, (processLogs name maxBytes maxRotatedFiles directory).Reachable q →
      LogsSound False name maxBytes maxRotatedFiles q := fun q hq =>
    LogsSound.of_reachable False.elim False.elim False.elim hq
  have hcounted : Counted maxBytes s p := by
    refine h.invariant ?_ fun q e q' hq hcount hstep => hcount.step (hsound q hq) hstep
    rintro q ⟨disk, -, rfl⟩
    exact .opened _ _ nofun
  obtain ⟨k, cur, old, hlog⟩ := (hsound p h).log s
  obtain ⟨before, hbefore⟩ := hlog.newest
  have hsuffix : p.newest maxBytes s <:+ p.lines s := by
    rw [ProcessLogs.newest]
    split_ifs
    · exact sinceRotation_suffix _ _
    · exact List.nil_suffix
  have hbytes : bytesOf cur.entries = bytesOf (p.newest maxBytes s) := by
    rw [← length_text, ← hlog.head.bytes, hcounted.bytes]
  rw [← eq_of_suffix_of_bytesOf ⟨before, hbefore.symm⟩ hsuffix hbytes]
  exact hlog.head.log

end Count

end AgentProcs
