import AgentProcs.Logs.NewestSegment
import AgentProcs.Machinery.StableSort
import AgentProcs.Tui.App

/-!
# Logs/Arrivals — the lines a run of the captures prints, as they are sent

    written stdout   a₀ a₁ │ a₂    a₃         current file  a₁
    written stderr   b₀    │    b₁
    arrived                │ a₂ b₁ a₃         in the order of the broadcast

A run extends both streams and the broadcast by the same lines.  What the current file of a stream
holds is the end of what the stream had written.
-/

namespace AgentProcs

@[simp] theorem LineSource.source_stream (source : LineSource) : source.stream.source = source := by
  cases source <;> rfl

@[simp] theorem Stream.stream_source (s : Stream) : s.source.stream = s := by
  cases s <;> rfl

/-! ## Along a run -/

/-- The line a transition prints. -/
def arrival (τ : Transition ProcessLogs LogsEvent) : Option (LineSource × Printed) :=
  match τ.ev with
  | .write s line => some (s.source, ⟨τ.src.incarnation, line, τ.src.shared.seq⟩)
  | .resume s => (τ.src.pending s).map fun line =>
      (s.source, ⟨τ.src.incarnation, line, τ.src.shared.seq⟩)
  | _ => none

/-- **The lines printed along a run**, in order. -/
def arrived (ts : List (Transition ProcessLogs LogsEvent)) : List (LineSource × Printed) :=
  ts.filterMap arrival

/-- The lines of one stream. -/
def ofStream (s : Stream) (lines : List (LineSource × Printed)) : List Printed :=
  (lines.filter (·.1 = s.source)).map (·.2)

/-- A line as it is broadcast. -/
def broadcastOf (name : String) (x : LineSource × Printed) : OutputLine :=
  ⟨name, x.1.stream, x.2.entry.line⟩

/-- The logs after some lines were printed. -/
structure Extends (name : String) (p : ProcessLogs) (lines : List (LineSource × Printed))
    (p' : ProcessLogs) : Prop where
  written : ∀ s, p'.written s = p.written s ++ ofStream s lines
  sent : p'.shared.sent = p.shared.sent ++ lines.map (broadcastOf name)

section Arrivals

variable {name : String} {maxBytes maxRotatedFiles : ℕ} {directory : Disk → Prop}
  {p p' p'' : ProcessLogs} {ts : List (Transition ProcessLogs LogsEvent)}
  {lines more : List (LineSource × Printed)} {s : Stream}

@[simp] theorem ofStream_nil : ofStream s [] = [] := rfl

@[simp] theorem ofStream_append :
    ofStream s (lines ++ more) = ofStream s lines ++ ofStream s more := by
  rw [ofStream, List.filter_append, List.map_append]
  rfl

namespace Extends

theorem of_same (hwritten : p'.written = p.written) (hsent : p'.shared.sent = p.shared.sent) :
    Extends name p [] p' where
  written s := by rw [hwritten, ofStream_nil, List.append_nil]
  sent := by rw [hsent, List.map_nil, List.append_nil]

theorem trans (h : Extends name p lines p') (h' : Extends name p' more p'') :
    Extends name p (lines ++ more) p'' where
  written s := by rw [h'.written, h.written, ofStream_append, List.append_assoc]
  sent := by rw [h'.sent, h.sent, List.map_append, List.append_assoc]

/-- One line of one stream. -/
theorem emit {k : ℕ} {cur : Segment}
    (hhead : Head (logPathOf name s) (p.state s) p.shared.disk k cur) (line : String) :
    Extends name p [(s.source, ⟨p.incarnation, line, p.shared.seq⟩)]
      (p.emit (.of name s maxBytes maxRotatedFiles) s line) where
  written t := by
    by_cases hts : t = s
    · subst hts
      simp [ofStream]
    · have hne : s.source ≠ t.source := fun heq => by
        have hstream := congrArg LineSource.stream heq
        rw [Stream.stream_source, Stream.stream_source] at hstream
        exact hts hstream.symm
      rw [ProcessLogs.emit_written_of_ne hts]
      simp [ofStream, hne]
  sent := by
    have hopened : Head (LogContext.of name s maxBytes maxRotatedFiles).logPath _ _ _ _ := hhead
    obtain ⟨-, -, -, -, hsent, -⟩ := hopened.emit line
    rw [ProcessLogs.emit_shared, hsent, List.map_singleton, broadcastOf, Stream.stream_source]
    rfl

end Extends

theorem extends_step (hsound : LogsSound False name maxBytes maxRotatedFiles p) {e : LogsEvent}
    (hstep : LogsStep name maxBytes maxRotatedFiles p e p') :
    Extends name p (arrival ⟨p, e, p'⟩).toList p' := by
  cases hstep with
  | @write s line =>
    obtain ⟨k, cur, old, hlog⟩ := hsound.log s
    exact .emit hlog.head line
  | @rotate s line st shared hidle hopen hfull hreopen =>
    obtain ⟨k, cur, old, hlog⟩ := hsound.log s
    have hopened : Head (LogContext.of name s maxBytes maxRotatedFiles).logPath _ _ _ _ := hlog.head
    obtain ⟨st', sh', heq, -, hsent, -⟩ := hopened.reopen
    obtain ⟨rfl, rfl⟩ : st' = st ∧ sh' = shared := by simpa using heq.symm.trans hreopen
    exact .of_same rfl hsent
  | @resume s line hline =>
    obtain ⟨k, cur, old, hlog⟩ := hsound.log s
    have hone : ∀ q, (arrival ⟨p, .resume s, q⟩).toList =
        [(s.source, ⟨p.incarnation, line, p.shared.seq⟩)] := fun q => by
      simp only [arrival, hline, Option.map_some, Option.toList_some]
    -- the pending line is taken first, which prints nothing
    have hcalm : Extends name p [] { p with pending := Function.update p.pending s none } :=
      .of_same rfl rfl
    rw [hone]
    exact hcalm.trans (.emit (p := { p with pending := Function.update p.pending s none }) hlog.head
      line)
  | finish => exact .of_same rfl rfl
  | respawn => exact .of_same rfl rfl

/-- **A run extends** the streams and the broadcast by the lines it prints. -/
theorem extends_run (h : (processLogs name maxBytes maxRotatedFiles directory).Reachable p)
    (hrun : (processLogs name maxBytes maxRotatedFiles directory).Run p ts p') :
    Extends name p (arrived ts) p' := by
  induction hrun with
  | refl => exact .of_same rfl rfl
  | @snoc ts q q' e hrun hstep ih =>
    have hsound : LogsSound False name maxBytes maxRotatedFiles q :=
      LogsSound.of_reachable False.elim False.elim False.elim (h.run hrun)
    have hlast : arrived (ts ++ [⟨q, e, q'⟩]) = arrived ts ++ (arrival ⟨q, e, q'⟩).toList := by
      rw [arrived, List.filterMap_append, ← arrived, List.filterMap_cons, List.filterMap_nil]
      cases arrival ⟨q, e, q'⟩ <;> rfl
    rw [hlast]
    exact ih.trans (extends_step hsound hstep)

/-! ## The current file -/

/-- The lines in the current file of a stream. -/
def ProcessLogs.current (maxBytes : ℕ) (s : Stream) (p : ProcessLogs) : List Printed :=
  (p.newest maxBytes s).map fun e => ⟨p.incarnation, e⟩

theorem newest_suffix (maxBytes : ℕ) (s : Stream) (p : ProcessLogs) :
    p.newest maxBytes s <:+ p.lines s := by
  rw [ProcessLogs.newest]
  split_ifs
  · exact sinceRotation_suffix _ _
  · exact List.nil_suffix

/-- The lines of the incarnation at work are the last ones. -/
theorem filter_incarnation_suffix (h : Drawn p) (s : Stream) :
    (p.written s).filter (·.incarnation = p.incarnation) <:+ p.written s := by
  obtain ⟨hpast, -, hordered, -⟩ := h
  refine (suffix_iff_of_ordered (hordered s) fun x y hxy hyx => ?_).mpr ⟨fun x hx =>
    (List.mem_filter.mp hx).1, (hordered s).filter _, fun x hx hnot y hy => .inl ?_⟩
  · rcases hxy with hlt | ⟨heq, hlt⟩
    · rcases hyx with hlt' | ⟨heq', -⟩ <;> omega
    · rcases hyx with hlt' | ⟨-, hlt'⟩ <;> omega
  · have hother : x.incarnation ≠ p.incarnation := fun heq =>
      hnot (List.mem_filter.mpr ⟨hx, decide_eq_true heq⟩)
    have hy : y.incarnation = p.incarnation := of_decide_eq_true (List.mem_filter.mp hy).2
    exact hy ▸ lt_of_le_of_ne (hpast s x hx) hother

/-- **The current file holds the last lines written.** -/
theorem current_suffix (h : Drawn p) (maxBytes : ℕ) (s : Stream) :
    p.current maxBytes s <:+ p.written s := by
  refine List.IsSuffix.trans ?_ (filter_incarnation_suffix h s)
  have hlines : (p.lines s).map (fun e => (⟨p.incarnation, e⟩ : Printed)) =
      (p.written s).filter (·.incarnation = p.incarnation) := by
    rw [ProcessLogs.lines, List.map_map]
    refine (List.map_congr_left fun x hx => ?_).trans (List.map_id _)
    have hx : x.incarnation = p.incarnation := of_decide_eq_true (List.mem_filter.mp hx).2
    rw [Function.comp_apply, ← hx]
    rfl
  rw [← hlines]
  exact (newest_suffix maxBytes s p).map _

end Arrivals

end AgentProcs
