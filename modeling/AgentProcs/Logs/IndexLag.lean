import AgentProcs.Logs.Incarnations
import AgentProcs.Logs.ReadBack

/-!
# Logs/IndexLag — how far an index may lag behind its log

    log      l₀⏎l₁⏎ … lₖ₋₁⏎lₖ⏎ … lₙ₋₁⏎        n − 64 < k ≤ n
    index    r₀ r₁  … rₖ₋₁                       rᵢ points at the start of lᵢ

Two facts carry this along a run.  Each stream's newest segment is a `Head`, whatever else is in the
directory; and the counter is ahead of every number drawn by the incarnation at work, so a number
is never drawn twice.
-/

namespace AgentProcs

variable {name : String} {maxBytes maxRotatedFiles : ℕ} {directory : Disk → Prop}
  {p p' : ProcessLogs} {s : Stream}

/-! ## The counter -/

/-- Printed earlier on the same stream. -/
def Printed.Before (x y : Printed) : Prop :=
  x.incarnation < y.incarnation ∨
    x.incarnation = y.incarnation ∧ x.entry.seq < y.entry.seq

/-- **The numbers drawn so far.** -/
structure Drawn (p : ProcessLogs) : Prop where
  past : ∀ s, ∀ x ∈ p.written s, x.incarnation ≤ p.incarnation
  below : ∀ s, ∀ x ∈ p.written s, x.incarnation = p.incarnation → x.entry.seq < p.shared.seq
  ordered : ∀ s, (p.written s).Pairwise Printed.Before
  distinct : ∀ x ∈ p.written .stdout, ∀ y ∈ p.written .stderr, x.incarnation = y.incarnation →
    x.entry.seq ≠ y.entry.seq

namespace Drawn

theorem opened (disk : Disk) (sent : List OutputLine) {i : ℕ} {written : Stream → List Printed}
    (hpast : ∀ s, ∀ x ∈ written s, x.incarnation < i)
    (hordered : ∀ s, (written s).Pairwise Printed.Before)
    (hdistinct : ∀ x ∈ written .stdout, ∀ y ∈ written .stderr, x.incarnation = y.incarnation →
      x.entry.seq ≠ y.entry.seq) : Drawn (.opened name disk sent i written) where
  past s x hx := (hpast s x hx).le
  below s x hx heq := absurd heq (hpast s x hx).ne
  ordered := hordered
  distinct := hdistinct

/-- Nothing drawn. -/
theorem congr (h : Drawn p) (hinc : p'.incarnation = p.incarnation)
    (hwritten : p'.written = p.written) (hseq : p'.shared.seq = p.shared.seq) : Drawn p' where
  past := by rw [hinc, hwritten]; exact h.past
  below := by rw [hinc, hwritten, hseq]; exact h.below
  ordered := by rw [hwritten]; exact h.ordered
  distinct := by rw [hwritten]; exact h.distinct

/-- **A number drawn** is new. -/
theorem draw (h : Drawn p) {line : String} (hinc : p'.incarnation = p.incarnation)
    (hwritten : p'.written = Function.update p.written s
      (p.written s ++ [⟨p.incarnation, line, p.shared.seq⟩]))
    (hseq : p'.shared.seq = p.shared.seq + 1) : Drawn p' := by
  have hmem : ∀ t, ∀ x ∈ p'.written t,
      x ∈ p.written t ∨ t = s ∧ x = ⟨p.incarnation, line, p.shared.seq⟩ := by
    intro t x hx
    rw [hwritten, Function.update_apply] at hx
    split_ifs at hx with heq
    · subst heq
      exact (List.mem_append.mp hx).imp id fun hx => ⟨rfl, List.mem_singleton.mp hx⟩
    · exact .inl hx
  refine ⟨fun t x hx => ?_, fun t x hx heq => ?_, fun t => ?_, fun x hx y hy heq => ?_⟩
  · rw [hinc]
    rcases hmem t x hx with hx | ⟨-, rfl⟩
    · exact h.past t x hx
    · exact le_rfl
  · rw [hseq]
    rcases hmem t x hx with hx | ⟨-, rfl⟩
    · exact Nat.lt_succ_of_lt (h.below t x hx (heq.trans hinc))
    · exact Nat.lt_succ_self _
  · rw [hwritten, Function.update_apply]
    split_ifs with heq
    · subst heq
      refine List.pairwise_append.mpr ⟨h.ordered t, List.pairwise_singleton _ _, fun x hx y hy => ?_⟩
      obtain rfl := List.mem_singleton.mp hy
      exact (h.past t x hx).lt_or_eq.imp id fun heq => ⟨heq, h.below t x hx heq⟩
    · exact h.ordered t
  · rcases hmem .stdout x hx with hx | ⟨rfl, rfl⟩
    · rcases hmem .stderr y hy with hy | ⟨-, rfl⟩
      · exact h.distinct x hx y hy heq
      · exact (h.below .stdout x hx heq).ne
    · rcases hmem .stderr y hy with hy | ⟨hne, -⟩
      · exact (h.below .stderr y hy heq.symm).ne'
      · cases hne

end Drawn

/-! ## The files -/

/-- Where the reader looks for the first rotated segment. -/
def probePath (name : String) (s : Stream) : FileName :=
  withExtension (logPathOf name s) (s.extension ++ '.' :: (toString 1).toList)

/-- The directory holds no log of this process. -/
structure NoLogs (name : String) (disk : Disk) : Prop where
  logs : ∀ s i, disk.read (logName (logPathOf name s) i) = none
  indexes : ∀ s i, disk.read (idxName (logPathOf name s) i) = none
  probe : ∀ s, disk.read (probePath name s) = none

/-- **What one stream has written.**  In a clean directory the retained segments hold the end of all
that was ever written. -/
structure LogOf (clean : Prop) (name : String) (maxBytes maxRotatedFiles : ℕ) (p : ProcessLogs)
    (s : Stream) (k : ℕ) (cur : Segment) (old : List Segment) : Prop where
  head : Head (logPathOf name s) (p.state s) p.shared.disk k cur
  newest : ∃ before, p.lines s = before ++ cur.entries
  flushed : p.ended s = true → k = cur.entries.length
  stored : clean → Stored (logPathOf name s) k p.shared.disk (cur :: old)
  room : clean → old.length ≤ maxRotatedFiles
  kept : clean → entriesOf (cur :: old) <:+ (p.written s).map (·.entry)

/-- The invariant of `processLogs`. -/
structure LogsSound (clean : Prop) (name : String) (maxBytes maxRotatedFiles : ℕ)
    (p : ProcessLogs) : Prop where
  drawn : Drawn p
  log : ∀ s, ∃ k cur old, LogOf clean name maxBytes maxRotatedFiles p s k cur old
  idle : ∀ s, p.ended s = true → p.pending s = none
  named : clean → name ≠ "."

section Disk

variable {path : FileName} {disk disk' : Disk} {k n : ℕ} {cur : Segment} {old : List Segment}

theorem Untouched.rotateIfExists (path : FileName) (disk : Disk) :
    Untouched path disk (rotateIfExists path disk) := by
  rw [AgentProcs.rotateIfExists]
  split_ifs
  · exact .rotate _
  · exact .refl path disk

theorem Untouched.openAt (path : FileName) (seq : ℕ) (disk : Disk) :
    Untouched path disk (LogSink.openAt path seq disk).2 :=
  (Untouched.create (.inl ⟨0, rfl⟩) _).trans (.create (.inr ⟨0, rfl⟩) _)

theorem Kept.older (h : Kept path disk disk') (ho : Older path disk old) : Older path disk' old where
  logs i := (h.readLog (i + 1)).trans (ho.logs i)
  indexes i := (h.readIdx (i + 1)).trans (ho.indexes i)

/-- **A log rotated away** is the newest of the older segments. -/
theorem Stored.rotate (hx : Rotatable path) (hs : Stored path cur.entries.length disk (cur :: old))
    (hroom : old.length ≤ n) : Older path (rotateLogFiles path n disk) ((cur :: old).take n) where
  logs i := by
    have hlogs := Directory.rotateBoth_comp_left (d := disk.read) (n := n) (logName_injective hx)
      (logName_ne_idxName hx)
    rw [hs.logs, List.map_cons] at hlogs
    rw [read_rotateLogFiles hx]
    refine (congrFun hlogs (i + 1)).trans ?_
    rw [Directory.rotate_stack (by simpa using hroom), List.map_take, List.map_cons]
    rfl
  indexes i := by
    have hindexes := Directory.rotateBoth_comp_right (d := disk.read) (n := n)
      (idxName_injective hx) (logName_ne_idxName hx)
    rw [hs.indexes, indexContents, Segment.index_length le_rfl] at hindexes
    rw [read_rotateLogFiles hx]
    refine (congrFun hindexes (i + 1)).trans ?_
    rw [Directory.rotate_stack (by simpa using hroom), List.map_take, List.map_cons]
    rfl

end Disk

/-! ## One step -/

namespace LogOf

variable {clean : Prop} {k : ℕ} {cur : Segment} {old : List Segment} {t : Stream}

/-- A step of the other stream. -/
theorem other (h : LogOf clean name maxBytes maxRotatedFiles p s k cur old)
    (hstate : p'.state s = p.state s)
    (hcurrent : Current (logPathOf name s) p.shared.disk p'.shared.disk)
    (hkept : clean → Kept (logPathOf name s) p.shared.disk p'.shared.disk)
    (hended : p'.ended s = true → p.ended s = true) (hinc : p'.incarnation = p.incarnation)
    (hwritten : p'.written s = p.written s) :
    LogOf clean name maxBytes maxRotatedFiles p' s k cur old where
  head := by rw [hstate]; exact hcurrent.head h.head
  newest := by rw [ProcessLogs.lines, hwritten, hinc]; exact h.newest
  flushed hend := h.flushed (hended hend)
  stored hc := (hkept hc).stored (h.stored hc)
  room := h.room
  kept := by rw [hwritten]; exact h.kept

/-- **The line of this stream.** -/
theorem emit (h : LogOf clean name maxBytes maxRotatedFiles p s k cur old)
    (hnamed : clean → name ≠ ".") (hopen : p.ended s = false) (line : String) :
    ∃ k', LogOf clean name maxBytes maxRotatedFiles
      (p.emit (.of name s maxBytes maxRotatedFiles) s line) s k' (cur.put ⟨line, p.shared.seq⟩) old := by
  have hx (hc : clean) : Rotatable (LogContext.of name s maxBytes maxRotatedFiles).logPath :=
    rotatable_logPathOf (hnamed hc) s
  have hopened : Head (LogContext.of name s maxBytes maxRotatedFiles).logPath _ _ _ _ := h.head
  obtain ⟨k', hhead, hstored, -⟩ := hopened.emit line
  refine ⟨k', ?_, ?_, fun hend => ?_, fun hc => hstored (hx hc) old (h.stored hc), h.room,
    fun hc => ?_⟩
  · rw [ProcessLogs.emit_state_self]
    exact hhead
  · obtain ⟨before, hbefore⟩ := h.newest
    exact ⟨before, by rw [ProcessLogs.lines_emit_self, hbefore, List.append_assoc]; rfl⟩
  · exact absurd (hopen.symm.trans hend) Bool.false_ne_true
  · obtain ⟨gone, hgone⟩ := h.kept hc
    refine ⟨gone, ?_⟩
    rw [ProcessLogs.emit_written_self, List.map_append, ← hgone, entriesOf_cons, entriesOf_cons,
      Segment.entries_put]
    simp

/-- The first half of a call that rotates. -/
theorem rotate (h : LogOf clean name maxBytes maxRotatedFiles p s k cur old)
    (hnamed : clean → name ≠ ".") (hopen : p.ended s = false) {st : LogWriteState} {shared : Shared}
    (hreopen : (p.state s).reopen (.of name s maxBytes maxRotatedFiles) .ok p.shared =
      (true, st, shared))
    (hstate : p'.state s = st) (hshared : p'.shared = shared) (hended : p'.ended = p.ended)
    (hwritten : p'.written = p.written) :
    LogOf clean name maxBytes maxRotatedFiles p' s 0 ⟨p.shared.seq, []⟩
      ((cur :: old).take maxRotatedFiles) := by
  have hx (hc : clean) : Rotatable (LogContext.of name s maxBytes maxRotatedFiles).logPath :=
    rotatable_logPathOf (hnamed hc) s
  have hopened : Head (LogContext.of name s maxBytes maxRotatedFiles).logPath _ _ _ _ := h.head
  obtain ⟨st', sh', heq, -, -, hhead, hstored, -⟩ := hopened.reopen
  obtain ⟨rfl, rfl⟩ : st' = st ∧ sh' = shared := by simpa using heq.symm.trans hreopen
  refine ⟨by rw [hstate, hshared]; exact hhead, ⟨p'.lines s, by simp⟩, fun hend => ?_,
    fun hc => by rw [hshared]; exact hstored (hx hc) old (h.stored hc) (h.room hc),
    fun _ => by simp, fun hc => ?_⟩
  · rw [hended, hopen] at hend
    cases hend
  · rw [hwritten]
    refine List.IsSuffix.trans ?_ (h.kept hc)
    have hsuffix := Shelf.history_rotate_suffix (s := (cur :: old).map Segment.entries)
      (n := maxRotatedFiles)
    rwa [Shelf.rotate, ← List.map_take] at hsuffix

/-- The end of the capture. -/
theorem finish (h : LogOf clean name maxBytes maxRotatedFiles p s k cur old)
    (hnamed : clean → name ≠ ".") :
    LogOf clean name maxBytes maxRotatedFiles (p.finish s) s cur.entries.length cur old where
  head := by
    rw [ProcessLogs.finish_state_self]
    exact Head.flushIdx h.head
  newest := h.newest
  flushed _ := rfl
  stored hc := (h.stored hc).flush (rotatable_logPathOf (hnamed hc) s) h.head.index h.head.buffer
  room := h.room
  kept := h.kept

/-- **A log opened** over the segments kept. -/
theorem opened {disk : Disk} {sent : List OutputLine} {i : ℕ} {written : Stream → List Printed}
    (hnamed : clean → name ≠ ".") (hpast : ∀ s, ∀ x ∈ written s, x.incarnation < i)
    (holder : clean → Older (logPathOf name s) disk old)
    (hroom : clean → old.length ≤ maxRotatedFiles)
    (hkept : clean → entriesOf old <:+ (written s).map (·.entry)) :
    LogOf clean name maxBytes maxRotatedFiles (.opened name disk sent i written) s 0 ⟨0, []⟩ old := by
  have hx (hc : clean) : Rotatable (LogContext.of name s maxBytes maxRotatedFiles).logPath :=
    rotatable_logPathOf (hnamed hc) s
  have hlines : ProcessLogs.lines s (.opened name disk sent i written) = [] := by
    rw [ProcessLogs.lines, List.map_eq_nil_iff, List.filter_eq_nil_iff]
    intro x hx
    exact fun heq => (hpast s x hx).ne (of_decide_eq_true heq)
  have hafter : ∀ hc : clean, entriesOf (⟨0, []⟩ :: old) <:+ (written s).map (·.entry) := fun hc => by
    rw [entriesOf_cons, List.append_nil]
    exact hkept hc
  cases s with
  | stdout =>
    -- opened first: what is opened next is the other stream's
    have hother : Untouched (logPathOf name .stderr) _ _ := Untouched.openAt _ 0
      (LogSink.openAt (logPathOf name .stdout) 0 disk).2
    refine ⟨(hother.current (by decide)).head (Head.created _ disk 0), ⟨[], hlines⟩, fun _ => rfl,
      fun hc => ?_, hroom, hafter⟩
    exact (hother.kept (hnamed hc) (by decide)).stored
      (Older.openAt (hx hc) (holder hc) (hroom hc) 0).stored
  | stderr =>
    have hother : Untouched (logPathOf name .stdout) _ _ := Untouched.openAt _ 0 disk
    refine ⟨Head.created _ _ 0, ⟨[], hlines⟩, fun _ => rfl, fun hc => ?_, hroom, hafter⟩
    exact (Older.openAt (hx hc) ((hother.kept (hnamed hc) (by decide)).older (holder hc))
      (hroom hc) 0).stored

end LogOf

namespace LogsSound

variable {clean : Prop}

/-- A step of one stream leaves the other as it is. -/
theorem of_stream (h : LogsSound clean name maxBytes maxRotatedFiles p) (hdrawn : Drawn p')
    (hlog : ∃ k cur old, LogOf clean name maxBytes maxRotatedFiles p' s k cur old)
    (hstate : ∀ t, t ≠ s → p'.state t = p.state t)
    (hdisk : Untouched (logPathOf name s) p.shared.disk p'.shared.disk)
    (hended : ∀ t, t ≠ s → p'.ended t = p.ended t) (hinc : p'.incarnation = p.incarnation)
    (hwritten : ∀ t, t ≠ s → p'.written t = p.written t)
    (hidle : ∀ t, p'.ended t = true → p'.pending t = none) :
    LogsSound clean name maxBytes maxRotatedFiles p' where
  drawn := hdrawn
  log t := by
    by_cases hts : t = s
    · rw [hts]
      exact hlog
    · obtain ⟨k, cur, old, ht⟩ := h.log t
      exact ⟨k, cur, old, ht.other (hstate t hts) (hdisk.current hts)
        (fun hc => hdisk.kept (h.named hc) hts) (fun hend => (hended t hts).symm.trans hend) hinc
        (hwritten t hts)⟩
  idle := hidle
  named := h.named

/-- **A line written**, at once or after a rotation. -/
theorem emit (h : LogsSound clean name maxBytes maxRotatedFiles p) (hopen : p.ended s = false)
    (line : String) : LogsSound clean name maxBytes maxRotatedFiles
      (p.emit (.of name s maxBytes maxRotatedFiles) s line) := by
  obtain ⟨k, cur, old, hlog⟩ := h.log s
  obtain ⟨k', hlog'⟩ := hlog.emit h.named hopen line
  have hopened : Head (LogContext.of name s maxBytes maxRotatedFiles).logPath _ _ _ _ := hlog.head
  obtain ⟨-, -, -, hseq, -, huntouched⟩ := hopened.emit line
  exact h.of_stream (h.drawn.draw rfl ProcessLogs.emit_written hseq) ⟨k', _, old, hlog'⟩
    (fun t ht => ProcessLogs.emit_state_of_ne ht) huntouched (fun t _ => rfl) rfl
    (fun t ht => ProcessLogs.emit_written_of_ne ht) h.idle

/-- A capture with a line in hand has not ended. -/
theorem ended_of_pending (h : LogsSound clean name maxBytes maxRotatedFiles p) {line : String}
    (hline : p.pending s = some line) : p.ended s = false := by
  by_contra hend
  have hnone := h.idle s (by simpa using hend)
  rw [hline] at hnone
  cases hnone

/-- Nothing depends on the line in hand. -/
theorem calm (h : LogsSound clean name maxBytes maxRotatedFiles p) (s : Stream) :
    LogsSound clean name maxBytes maxRotatedFiles
      { p with pending := Function.update p.pending s none } where
  drawn := h.drawn.congr rfl rfl rfl
  log t := by
    obtain ⟨k, cur, old, hlog⟩ := h.log t
    exact ⟨k, cur, old, hlog.head, hlog.newest, hlog.flushed, hlog.stored, hlog.room, hlog.kept⟩
  idle t hend := by
    simp only [Function.update_apply]
    split_ifs
    · rfl
    · exact h.idle t hend
  named := h.named

/-- **Both logs rotated and opened again.** -/
theorem respawn (h : LogsSound clean name maxBytes maxRotatedFiles p)
    (hn : clean → maxRotatedFiles = DEFAULT_MAX_ROTATED_FILES) (hended : ∀ s, p.ended s = true) :
    LogsSound clean name maxBytes maxRotatedFiles (p.respawn name) := by
  have hpast : ∀ s, ∀ x ∈ p.written s, x.incarnation < p.incarnation + 1 := fun s x hx =>
    Nat.lt_succ_of_le (h.drawn.past s x hx)
  have hrotated : ∀ s, ∃ old, (clean → Older (logPathOf name s) (rotateIfExists
      (logPathOf name .stderr) (rotateIfExists (logPathOf name .stdout) p.shared.disk)) old) ∧
      (clean → old.length ≤ maxRotatedFiles) ∧
      (clean → entriesOf old <:+ (p.written s).map (·.entry)) := by
    intro s
    obtain ⟨k, cur, old, hlog⟩ := h.log s
    obtain rfl := hlog.flushed (hended s)
    obtain ⟨i, -, hdir⟩ := hlog.head.file
    refine ⟨(cur :: old).take maxRotatedFiles, fun hc => ?_, fun _ => by simp, fun hc => ?_⟩
    · have hrotate : ∀ disk, Kept (logPathOf name s) p.shared.disk disk →
          Older (logPathOf name s) (rotateIfExists (logPathOf name s) disk)
            ((cur :: old).take maxRotatedFiles) := fun disk hkeep => by
        have hexists : disk.dir (logPathOf name s) = some i := (hkeep.dirLog 0).trans hdir
        rw [rotateIfExists, if_pos (by rw [hexists]; rfl), ← hn hc]
        exact (hkeep.stored (hlog.stored hc)).rotate (rotatable_logPathOf (h.named hc) s)
          (hlog.room hc)
      cases s with
      | stdout =>
        exact (Untouched.kept (h.named hc) (by decide) (.rotateIfExists _ _)).older
          (hrotate _ ⟨fun _ => rfl, fun _ => rfl, fun _ => rfl, fun _ => rfl⟩)
      | stderr => exact hrotate _ (Untouched.kept (h.named hc) (by decide) (.rotateIfExists _ _))
    · refine List.IsSuffix.trans ?_ (hlog.kept hc)
      have hsuffix := Shelf.history_rotate_suffix (s := (cur :: old).map Segment.entries)
        (n := maxRotatedFiles)
      rwa [Shelf.rotate, Shelf.history_cons, List.append_nil, ← List.map_take] at hsuffix
  refine ⟨.opened _ _ hpast h.drawn.ordered h.drawn.distinct, fun s => ?_, fun s hend => rfl,
    h.named⟩
  obtain ⟨old, holder, hroom, hkept⟩ := hrotated s
  exact ⟨0, _, old, .opened h.named hpast holder hroom hkept⟩

/-- **Every step keeps the logs sound.** -/
theorem step (h : LogsSound clean name maxBytes maxRotatedFiles p)
    (hn : clean → maxRotatedFiles = DEFAULT_MAX_ROTATED_FILES) {e : LogsEvent}
    (hstep : LogsStep name maxBytes maxRotatedFiles p e p') :
    LogsSound clean name maxBytes maxRotatedFiles p' := by
  cases hstep with
  | write hidle hopen hfits => exact h.emit hopen _
  | @rotate s line st shared hidle hopen hfull hreopen =>
    obtain ⟨k, cur, old, hlog⟩ := h.log s
    have hopened : Head (LogContext.of name s maxBytes maxRotatedFiles).logPath _ _ _ _ := hlog.head
    obtain ⟨st', sh', heq, hseq, -, -, -, huntouched⟩ := hopened.reopen
    obtain ⟨rfl, rfl⟩ : st' = st ∧ sh' = shared := by simpa using heq.symm.trans hreopen
    refine h.of_stream (h.drawn.congr rfl rfl hseq) ⟨_, _, _, hlog.rotate h.named hopen hreopen
      (Function.update_self ..) rfl rfl rfl⟩ (fun t ht => Function.update_of_ne ht ..) huntouched
      (fun t _ => rfl) rfl (fun t _ => rfl) fun t hend => ?_
    have hts : t ≠ s := by
      rintro rfl
      exact absurd (hopen.symm.trans hend) Bool.false_ne_true
    exact (Function.update_of_ne hts ..).trans (h.idle t hend)
  | @resume s line hline => exact (h.calm s).emit (h.ended_of_pending hline) line
  | @finish s hidle hopen =>
    obtain ⟨k, cur, old, hlog⟩ := h.log s
    refine h.of_stream (h.drawn.congr rfl rfl rfl) ⟨_, _, _, hlog.finish h.named⟩
      (fun t ht => ProcessLogs.finish_state_of_ne ht)
      (Head.untouched_flushIdx hlog.head)
      (fun t ht => ProcessLogs.finish_ended_of_ne ht) rfl (fun t _ => rfl) fun t hend => ?_
    by_cases hts : t = s
    · rw [hts]
      exact hidle
    · exact h.idle t ((ProcessLogs.finish_ended_of_ne hts).symm.trans hend)
  | respawn hended => exact h.respawn hn hended

/-- **No other file is touched.** -/
theorem foreign (h : LogsSound clean name maxBytes maxRotatedFiles p) {e : LogsEvent}
    (hstep : LogsStep name maxBytes maxRotatedFiles p e p') {f : FileName}
    (hlog : ∀ s i, f ≠ logName (logPathOf name s) i)
    (hidx : ∀ s i, f ≠ idxName (logPathOf name s) i) :
    p'.shared.disk.dir f = p.shared.disk.dir f := by
  have hemit : ∀ s line, p.shared.disk.dir f =
      ((p.state s).emit (.of name s maxBytes maxRotatedFiles) line p.shared).2.disk.dir f := by
    intro s line
    obtain ⟨k, cur, old, hs⟩ := h.log s
    have hopened : Head (LogContext.of name s maxBytes maxRotatedFiles).logPath _ _ _ _ := hs.head
    obtain ⟨-, -, -, -, -, huntouched⟩ := hopened.emit line
    exact (huntouched.dir f (hlog s) (hidx s)).symm
  cases hstep with
  | write => exact (hemit _ _).symm
  | @rotate s line st shared hidle hopen hfull hreopen =>
    obtain ⟨k, cur, old, hs⟩ := h.log s
    have hopened : Head (LogContext.of name s maxBytes maxRotatedFiles).logPath _ _ _ _ := hs.head
    obtain ⟨st', sh', heq, -, -, -, -, huntouched⟩ := hopened.reopen
    obtain ⟨rfl, rfl⟩ : st' = st ∧ sh' = shared := by simpa using heq.symm.trans hreopen
    exact huntouched.dir f (hlog s) (hidx s)
  | resume => exact (hemit _ _).symm
  | @finish s =>
    obtain ⟨k, cur, old, hs⟩ := h.log s
    exact hs.head.untouched_flushIdx.dir f (hlog s) (hidx s)
  | respawn =>
    calc (p.respawn name).shared.disk.dir f
        = _ := (Untouched.openAt _ _ _).dir f (hlog .stderr) (hidx .stderr)
      _ = _ := (Untouched.openAt _ _ _).dir f (hlog .stdout) (hidx .stdout)
      _ = _ := (Untouched.rotateIfExists _ _).dir f (hlog .stderr) (hidx .stderr)
      _ = _ := (Untouched.rotateIfExists _ _).dir f (hlog .stdout) (hidx .stdout)

/-- **Every reachable state is sound.** -/
theorem of_reachable (hn : clean → maxRotatedFiles = DEFAULT_MAX_ROTATED_FILES)
    (hnamed : clean → name ≠ ".")
    (hclean : clean → ∀ disk, directory disk → NoLogs name disk)
    (h : (processLogs name maxBytes maxRotatedFiles directory).Reachable p) :
    LogsSound clean name maxBytes maxRotatedFiles p := by
  refine h.invariant ?_ fun p e p' _ hp hstep => hp.step hn hstep
  rintro p ⟨disk, hdisk, rfl⟩
  have hnone : ∀ s, ∀ x ∈ (fun _ : Stream => ([] : List Printed)) s, x.incarnation < 0 := nofun
  refine ⟨.opened disk [] hnone (fun _ => .nil) nofun, fun s => ⟨0, ⟨0, []⟩, [], ?_⟩,
    fun s _ => rfl, hnamed⟩
  refine .opened hnamed hnone (fun hc => ⟨fun i => ?_, fun i => ?_⟩) (fun _ => Nat.zero_le _)
    fun _ => ?_
  · exact (hclean hc disk hdisk).logs s (i + 1)
  · exact (hclean hc disk hdisk).indexes s (i + 1)
  · exact List.nil_suffix

end LogsSound

/-! ## The index and its log -/

section KeepsUp

variable {es : List Entry}

theorem getElem?_recordsFrom (offset i : ℕ) (es : List Entry) : (recordsFrom offset es)[i]? =
    es[i]?.map fun e => ⟨offset + ((es.take i).flatMap Entry.bytes).length, e.seq⟩ := by
  induction es generalizing offset i with
  | nil => rfl
  | cons e es ih =>
    cases i with
    | zero => simp [recordsFrom]
    | succ i => simp [recordsFrom, ih, Nat.add_assoc]

theorem map_seq_recordsFrom (offset : ℕ) (es : List Entry) :
    (recordsFrom offset es).map (·.seq) = es.map (·.seq) := by
  induction es generalizing offset with
  | nil => rfl
  | cons e es ih => rw [recordsFrom, List.map_cons, List.map_cons, ih]

/-- A file of whole lines has one newline each. -/
theorem count_newline (h : ∀ e ∈ es, NewlineFree e.line) :
    (es.flatMap Entry.bytes).count NEWLINE = es.length := by
  induction es with
  | nil => rfl
  | cons e es ih =>
    obtain ⟨he, hes⟩ := List.forall_mem_cons.mp h
    have hone : e.bytes.count NEWLINE = 1 := by
      rw [Entry.bytes, List.count_append, List.count_eq_zero_of_not_mem he, List.count_singleton_self]
    rw [List.flatMap_cons, List.count_append, ih hes, hone, List.length_cons, Nat.add_comm]

/-- The byte where line `i` starts. -/
def lineStart (bytes : List UInt8) (i : ℕ) : ℕ :=
  ((splitLines NEWLINE bytes).take i).flatten.length

/-- **The index of a stream keeps up with its log.** -/
structure KeepsUp (name : String) (p : ProcessLogs) (s : Stream) : Prop where
  files : ∃ bytes seqBase records,
    p.shared.disk.read (logPathOf name s) = some (.text bytes) ∧
    p.shared.disk.read (idxPathFor (logPathOf name s)) = some (.index seqBase records) ∧
    records.length ≤ bytes.count NEWLINE ∧ bytes.count NEWLINE < records.length + 64 ∧
    (∀ i r, records[i]? = some r → r.byteOffset = lineStart bytes i) ∧
    records.map (·.seq) <:+: (p.lines s).map (·.seq) ∧
    (p.state s).bytesWritten = bytes.length
  increasing : ((p.lines s).map (·.seq)).Pairwise (· < ·)

/-- An open log whose lines hold no newline keeps up. -/
theorem Head.keepsUp {path : FileName} {st : LogWriteState} {disk : Disk} {k : ℕ} {cur : Segment}
    (h : Head path st disk k cur) (hfree : ∀ e ∈ cur.entries, NewlineFree e.line) :
    ∃ bytes seqBase records, disk.read path = some (.text bytes) ∧
      disk.read (idxPathFor path) = some (.index seqBase records) ∧
      records.length ≤ bytes.count NEWLINE ∧ bytes.count NEWLINE < records.length + 64 ∧
      (∀ i r, records[i]? = some r → r.byteOffset = lineStart bytes i) ∧
      records.map (·.seq) <+: cur.entries.map (·.seq) ∧ st.bytesWritten = bytes.length := by
  have hwritten := h.written
  have hlag := h.lag
  have hlag_lt := h.lag_lt
  have hcount : cur.text.count NEWLINE = cur.entries.length := count_newline hfree
  have hlen : (cur.records.take k).length = k := by
    rw [List.length_take, Segment.length_records, Nat.min_eq_left hwritten]
  refine ⟨cur.text, cur.seqBase, cur.records.take k, h.log, h.records, ?_, ?_, fun i r hr => ?_, ?_,
    h.bytes⟩
  · rw [hlen, hcount]
    exact hwritten
  · rw [hlen, hcount]
    omega
  · have hr' : cur.records[i]? = some r := by
      rw [List.getElem?_take] at hr
      split_ifs at hr
      exact hr
    rw [Segment.records, getElem?_recordsFrom] at hr'
    obtain ⟨e, -, rfl⟩ := Option.map_eq_some_iff.mp hr'
    rw [lineStart, splitLines_text hfree, Nat.zero_add, List.flatMap_def, List.map_take]
  · rw [List.map_take, Segment.records, map_seq_recordsFrom]
    exact List.take_prefix _ _

/-- **An index never runs ahead of its log and lags by fewer than 64 lines**, in any directory and
with any rotations, and no number is drawn twice. -/
theorem keepsUp_of_reachable (name : String) (maxBytes maxRotatedFiles : ℕ) (p : ProcessLogs)
    (h : (processLogs name maxBytes maxRotatedFiles fun _ => True).Reachable p)
    (hfree : ∀ s, ∀ e ∈ p.lines s, NewlineFree e.line) :
    (∀ s, KeepsUp name p s) ∧
      ∀ e ∈ p.lines .stdout, ∀ f ∈ p.lines .stderr, e.seq ≠ f.seq := by
  have hsound : LogsSound False name maxBytes maxRotatedFiles p :=
    LogsSound.of_reachable False.elim False.elim False.elim h
  have hlines : ∀ s, ∀ e ∈ p.lines s, ∃ x ∈ p.written s, x.incarnation = p.incarnation ∧
      x.entry = e := by
    intro s e he
    obtain ⟨x, hx, rfl⟩ := List.mem_map.mp he
    obtain ⟨hx, hinc⟩ := List.mem_filter.mp hx
    exact ⟨x, hx, of_decide_eq_true hinc, rfl⟩
  refine ⟨fun s => ⟨?_, ?_⟩, fun e he f hf => ?_⟩
  · obtain ⟨k, cur, old, hlog⟩ := hsound.log s
    obtain ⟨before, hbefore⟩ := hlog.newest
    obtain ⟨bytes, seqBase, records, hlogFile, hidxFile, hle, hlt, hstart, hseq, hbytes⟩ :=
      hlog.head.keepsUp fun e he => hfree s e (hbefore ▸ List.mem_append_right before he)
    refine ⟨bytes, seqBase, records, hlogFile, hidxFile, hle, hlt, hstart, ?_, hbytes⟩
    rw [hbefore, List.map_append]
    exact hseq.isInfix.trans (List.suffix_append _ _).isInfix
  · rw [ProcessLogs.lines, List.pairwise_map, List.pairwise_map]
    refine ((hsound.drawn.ordered s).filter _).imp_of_mem fun {x y} hx hy hxy => ?_
    have hx : x.incarnation = p.incarnation := of_decide_eq_true (List.mem_filter.mp hx).2
    have hy : y.incarnation = p.incarnation := of_decide_eq_true (List.mem_filter.mp hy).2
    rcases hxy with hlt | ⟨-, hlt⟩
    · exact absurd (hx.trans hy.symm) hlt.ne
    · exact hlt
  · obtain ⟨x, hx, hxi, rfl⟩ := hlines .stdout e he
    obtain ⟨y, hy, hyi, rfl⟩ := hlines .stderr f hf
    exact hsound.drawn.distinct x hx y hy (hxi.trans hyi.symm)

/-- `a` and `b` on standard output, `x` on standard error in between; `b` is the first line of a
file of its own. -/
theorem keepsUp_of_reachable_line : ∃ p, (processLogs "web" 3 1 fun _ => True).Reachable p ∧
    p.lines .stdout = [⟨"a", 0⟩, ⟨"b", 2⟩] ∧ p.lines .stderr = [⟨"x", 1⟩] ∧
    ∀ s, KeepsUp "web" p s := by
  have hinit : (processLogs "web" 3 1 fun _ => True).Reachable
      (.opened "web" (.empty (.text [])) [] 0 fun _ => []) := .init ⟨_, trivial, rfl⟩
  have ha := hinit.step (@LogsStep.write "web" 3 1 _ .stdout "a" rfl rfl (by decide +kernel))
  have hx := ha.step (@LogsStep.write "web" 3 1 _ .stderr "x" rfl rfl (by decide +kernel))
  have hrotate := hx.step
    (@LogsStep.rotate "web" 3 1 _ .stdout "b" _ _ rfl rfl (by decide +kernel) rfl)
  have hb := hrotate.step (@LogsStep.resume "web" 3 1 _ .stdout "b" rfl)
  refine ⟨_, hb, rfl, rfl, (keepsUp_of_reachable _ _ _ _ hb fun s e he => ?_).1⟩
  cases s with
  | stdout =>
    rcases List.mem_cons.mp he with rfl | he
    · decide +kernel
    · obtain rfl := List.mem_singleton.mp he
      decide +kernel
  | stderr =>
    obtain rfl := List.mem_singleton.mp he
    decide +kernel

end KeepsUp

end AgentProcs
