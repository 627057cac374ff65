import AgentProcs.Logs.Segments

/-!
# Logs/Writing — the writer refines the segments

    Writing … k cur old   ──writeLine──▸   Writing … k' cur' old',   cur' :: old' = logStep … (cur :: old)

Each operation of the writer is one lemma about `Stored`: a line appended to the newest log file, the
buffer flushed to its index, a rotation with the two creations after it.  `writeLine` composes them.
-/

namespace AgentProcs

variable {path : FileName} {k n : ℕ} {disk : Disk} {cur : Segment} {old : List Segment} {e : Entry}

namespace Stored

/-- Append a line to the newest log file. -/
theorem appendLine (hx : Rotatable path) (hs : Stored path k disk (cur :: old)) {h : ℕ}
    (hfile : disk.dir path = some h) (hk : k ≤ cur.entries.length) :
    Stored path k (disk.modify h (Content.appendBytes e.bytes)) (cur.put e :: old) where
  logs := by
    have hnew : disk.read path = some (.text cur.text) := congrFun hs.logs 0
    rw [FileSystem.read_modify hfile, hnew, update_log_comp_logName _ _ hx, hs.logs, List.map_cons,
      List.map_cons, Segment.text_put]
    exact Directory.update_stack_zero _ _ _
  indexes := by
    rw [FileSystem.read_modify hfile, update_log_comp_idxName _ _ hx, hs.indexes, indexContents,
      indexContents, Segment.index_put hk]

/-- Write the buffered records to the newest index. -/
theorem flush (hx : Rotatable path) (hs : Stored path k disk (cur :: old)) {w : IndexWriter}
    (hfile : disk.dir (idxPathFor path) = some w.file) (hw : w.buffer = cur.records.drop k) :
    Stored path cur.entries.length (w.flush disk).2 (cur :: old) where
  logs := by
    rw [IndexWriter.flush, FileSystem.read_modify hfile, update_idx_comp_logName _ _ hx, hs.logs]
  indexes := by
    have hnew : disk.read (idxPathFor path) = some (cur.index k) := congrFun hs.indexes 0
    rw [IndexWriter.flush, FileSystem.read_modify hfile, hnew, Option.map_some, hw,
      Segment.appendRecords_drop,
      update_idx_comp_idxName _ _ hx, hs.indexes]
    exact Directory.update_stack_zero _ _ _

/-- **A rotation and the creations after it** start a new segment. -/
theorem reopen (hx : Rotatable path) (hs : Stored path k disk (cur :: old))
    (hk : cur.entries.length ≤ k) (hroom : old.length ≤ n) (b : ℕ) :
    Stored path 0 (((rotateLogFiles path n disk).create path (.text [])).2.create (idxPathFor path)
      (.index b [])).2 (⟨b, []⟩ :: (cur :: old).take n) where
  logs := by
    rw [FileSystem.read_create, FileSystem.read_create, update_idx_comp_logName _ _ hx,
      update_log_comp_logName _ _ hx, read_rotateLogFiles hx,
      Directory.rotateBoth_comp_left (logName_injective hx) (logName_ne_idxName hx), hs.logs,
      List.map_cons, Directory.update_rotate_stack (by simpa using hroom), List.map_cons,
      List.map_take]
    rfl
  indexes := by
    rw [FileSystem.read_create, FileSystem.read_create, update_idx_comp_idxName _ _ hx,
      update_log_comp_idxName _ _ hx, read_rotateLogFiles hx,
      Directory.rotateBoth_comp_right (idxName_injective hx) (logName_ne_idxName hx), hs.indexes,
      indexContents, Segment.index_length hk, Directory.update_rotate_stack (by simpa using hroom),
      indexContents, List.map_take]
    rfl

end Stored

/-! ## The newest segment -/

namespace Head

variable {ctx : LogContext} {st : LogWriteState} {sh : Shared}

/-- Flushing does not touch the log file, -/
theorem read_flush_log {w : IndexWriter} (hfile : disk.dir (idxPathFor path) = some w.file) :
    (w.flush disk).2.read path = disk.read path := by
  rw [IndexWriter.flush, FileSystem.read_modify hfile, Function.update_of_ne (ne_idxPathFor path)]

/-- and completes the index. -/
theorem read_flush_idx {w : IndexWriter} (hfile : disk.dir (idxPathFor path) = some w.file)
    (hread : disk.read (idxPathFor path) = some (cur.index k))
    (hw : w.buffer = cur.records.drop k) :
    (w.flush disk).2.read (idxPathFor path) = some (cur.index cur.entries.length) := by
  rw [IndexWriter.flush, FileSystem.read_modify hfile, Function.update_self, hread,
    Option.map_some, hw, Segment.appendRecords_drop]

/-- After a flush nothing is buffered. -/
theorem flushIdx (hw : Head path st sh.disk k cur) :
    Head path (st.flushIdx sh).1 (st.flushIdx sh).2.disk cur.entries.length cur where
  log := (read_flush_log hw.index).trans hw.log
  records := read_flush_idx hw.index hw.records hw.buffer
  file := hw.file
  index := hw.index
  written := le_rfl
  buffer := (List.drop_of_length_le (by simp)).symm
  bytes := hw.bytes
  lag := Nat.le_add_right _ _
  lag_lt := hw.lag_lt

theorem untouched_flushIdx (hw : Head path st sh.disk k cur) :
    Untouched path sh.disk (st.flushIdx sh).2.disk :=
  .modify hw.index (.inr ⟨0, rfl⟩) _

/-- **A line emitted** by an open capture is the newest segment's next; the older segments stay. -/
theorem emit (hw : Head ctx.logPath st sh.disk k cur) (line : String) :
    ∃ k', Head ctx.logPath (st.emit ctx line sh).1 (st.emit ctx line sh).2.disk k'
        (cur.put ⟨line, sh.seq⟩) ∧
      (Rotatable ctx.logPath → ∀ old, Stored ctx.logPath k sh.disk (cur :: old) →
        Stored ctx.logPath k' (st.emit ctx line sh).2.disk (cur.put ⟨line, sh.seq⟩ :: old)) ∧
      (st.emit ctx line sh).2.seq = sh.seq + 1 ∧
      (st.emit ctx line sh).2.sent = sh.sent ++ [⟨ctx.processName, ctx.stream, line⟩] ∧
      Untouched ctx.logPath sh.disk (st.emit ctx line sh).2.disk := by
  obtain ⟨h, hfile, hdir⟩ := hw.file
  have hlen : cur.records.length = cur.entries.length := Segment.length_records
  have hne : idxPathFor ctx.logPath ≠ ctx.logPath := (ne_idxPathFor _).symm
  -- the state before the flush that every sixty-fourth line triggers
  set st' : LogWriteState :=
    ⟨some h, st.idxWriter.append ⟨st.bytesWritten, sh.seq⟩, st.bytesWritten + lineBytes line,
      st.linesSinceIdxFlush + 1⟩ with hst'
  set sh' : Shared :=
    ⟨sh.disk.modify h (Content.appendBytes (utf8 line ++ [NEWLINE])), sh.seq + 1,
      sh.sent ++ [⟨ctx.processName, ctx.stream, line⟩]⟩ with hsh'
  have hlog : sh'.disk.read ctx.logPath = some (.text (cur.put ⟨line, sh.seq⟩).text) := by
    rw [hsh', FileSystem.read_modify hdir, Function.update_self, hw.log, Segment.text_put]
    rfl
  have hrecords : sh'.disk.read (idxPathFor ctx.logPath) =
      some ((cur.put ⟨line, sh.seq⟩).index k) := by
    rw [hsh', FileSystem.read_modify hdir, Function.update_of_ne hne, hw.records,
      Segment.index_put hw.written]
  have hput : Rotatable ctx.logPath → ∀ old, Stored ctx.logPath k sh.disk (cur :: old) →
      Stored ctx.logPath k sh'.disk (cur.put ⟨line, sh.seq⟩ :: old) := fun hx old hs =>
    hs.appendLine (e := ⟨line, sh.seq⟩) hx hdir hw.written
  have huntouched : Untouched ctx.logPath sh.disk sh'.disk := .modify hdir (.inl ⟨0, rfl⟩) _
  have hindex : sh'.disk.dir (idxPathFor ctx.logPath) = some st'.idxWriter.file := hw.index
  have hbuffer : st'.idxWriter.buffer = (cur.put ⟨line, sh.seq⟩).records.drop k := by
    rw [Segment.records_put, List.drop_append_of_le_length (hlen ▸ hw.written), ← hw.buffer,
      ← hw.bytes]
    rfl
  have hbytes : st'.bytesWritten = (cur.put ⟨line, sh.seq⟩).text.length := by
    rw [Segment.text_put, List.length_append, Entry.length_bytes, ← hw.bytes]
  have hemit : st.emit ctx line sh = if 64 ≤ st'.linesSinceIdxFlush then
      ({ (st'.flushIdx sh').1 with linesSinceIdxFlush := 0 }, (st'.flushIdx sh').2)
      else (st', sh') := by
    rw [LogWriteState.emit, hfile]
  rw [hemit]
  split_ifs with hflush
  · refine ⟨(cur.put ⟨line, sh.seq⟩).entries.length, ?_, fun hx old hs => ?_, rfl, rfl, ?_⟩
    · exact {
        log := (read_flush_log hindex).trans hlog
        records := read_flush_idx hindex hrecords hbuffer
        file := ⟨h, rfl, hdir⟩
        index := hindex
        written := le_rfl
        buffer := (List.drop_of_length_le (by simp)).symm
        bytes := hbytes
        lag := le_rfl
        lag_lt := by simp }
    · exact (hput hx old hs).flush hx hindex hbuffer
    · exact huntouched.trans (.modify hindex (.inr ⟨0, rfl⟩) _)
  · have hwritten := hw.written
    have hlag := hw.lag
    refine ⟨k, ?_, hput, rfl, rfl, huntouched⟩
    exact {
      log := hlog
      records := hrecords
      file := ⟨h, rfl, hdir⟩
      index := hindex
      written := by simp; omega
      buffer := hbuffer
      bytes := hbytes
      lag := by simp [hst']; omega
      lag_lt := by simp only [hst'] at hflush ⊢; omega }

/-- A log and an index created, in this order, are an open capture with an empty segment. -/
theorem created (path : FileName) (disk : Disk) (b : ℕ) :
    Head path ⟨some (disk.create path (.text [])).1,
        ⟨((disk.create path (.text [])).2.create (idxPathFor path) (.index b [])).1, []⟩, 0, 0⟩
      ((disk.create path (.text [])).2.create (idxPathFor path) (.index b [])).2 0 ⟨b, []⟩ := by
  have hne := ne_idxPathFor path
  exact {
    log := by
      rw [FileSystem.read_create, Function.update_of_ne hne, FileSystem.read_create,
        Function.update_self]
      rfl
    records := by
      rw [FileSystem.read_create, Function.update_self]
      rfl
    file := ⟨_, rfl, by
      rw [FileSystem.dir_create, Function.update_of_ne hne, FileSystem.dir_create,
        Function.update_self]⟩
    index := by rw [FileSystem.dir_create, Function.update_self]
    written := Nat.zero_le _
    buffer := rfl
    bytes := rfl
    lag := le_rfl
    lag_lt := by simp }

/-- **A rotation without failures** leaves an open capture with an empty segment. -/
theorem reopen (hw : Head ctx.logPath st sh.disk k cur) :
    ∃ st' sh', st.reopen ctx .ok sh = (true, st', sh') ∧ sh'.seq = sh.seq ∧ sh'.sent = sh.sent ∧
      Head ctx.logPath st' sh'.disk 0 ⟨sh.seq, []⟩ ∧
      (Rotatable ctx.logPath → ∀ old, Stored ctx.logPath k sh.disk (cur :: old) →
        old.length ≤ ctx.maxRotatedFiles → Stored ctx.logPath 0 sh'.disk
          (⟨sh.seq, []⟩ :: (cur :: old).take ctx.maxRotatedFiles)) ∧
      Untouched ctx.logPath sh.disk sh'.disk := by
  refine ⟨_, _, rfl, rfl, rfl, created _ _ sh.seq, fun hx old hs hroom => ?_, ?_⟩
  · exact (hs.flush hx hw.index hw.buffer).reopen hx le_rfl hroom sh.seq
  · exact ((hw.untouched_flushIdx.trans (.rotate _)).trans (.create (.inl ⟨0, rfl⟩) _)).trans
      (.create (.inr ⟨0, rfl⟩) _)

/-- **Without failures** the newest segment takes the line, or a new one does. -/
theorem writeLine (hw : Head ctx.logPath st sh.disk k cur) (line : String) :
    ∃ k', Head ctx.logPath (st.writeLine ctx .ok line sh).1 (st.writeLine ctx .ok line sh).2.disk k'
      (if st.Overflows ctx line then ⟨sh.seq, [⟨line, sh.seq⟩]⟩ else cur.put ⟨line, sh.seq⟩) := by
  rw [LogWriteState.writeLine]
  split_ifs with hfull
  · obtain ⟨st', sh', heq, hseq, -, hopen, -⟩ := hw.reopen
    rw [← hseq] at hopen
    obtain ⟨k', hhead, -⟩ := hopen.emit line
    rw [heq, ← hseq]
    exact ⟨k', hhead⟩
  · obtain ⟨k', hhead, -⟩ := hw.emit line
    exact ⟨k', hhead⟩

end Head

/-! ## The writer -/

namespace Writing

variable {ctx : LogContext} {st : LogWriteState} {sh : Shared}

theorem flushIdx (hx : Rotatable ctx.logPath) (hw : Writing ctx st sh.disk k cur old) :
    Writing ctx (st.flushIdx sh).1 (st.flushIdx sh).2.disk cur.entries.length cur old :=
  hw.head.flushIdx.writing (hw.stored.flush hx hw.index hw.buffer) hw.room

theorem emit (hx : Rotatable ctx.logPath) (hw : Writing ctx st sh.disk k cur old)
    (line : String) :
    ∃ k', Writing ctx (st.emit ctx line sh).1 (st.emit ctx line sh).2.disk k'
        (cur.put ⟨line, sh.seq⟩) old ∧
      (st.emit ctx line sh).2.seq = sh.seq + 1 ∧
      (st.emit ctx line sh).2.sent = sh.sent ++ [⟨ctx.processName, ctx.stream, line⟩] ∧
      Untouched ctx.logPath sh.disk (st.emit ctx line sh).2.disk := by
  obtain ⟨k', hhead, hstored, hseq, hsent, huntouched⟩ := hw.head.emit line
  exact ⟨k', hhead.writing (hstored hx old hw.stored) hw.room, hseq, hsent, huntouched⟩

theorem reopen (hx : Rotatable ctx.logPath) (hw : Writing ctx st sh.disk k cur old) :
    ∃ st' sh', st.reopen ctx .ok sh = (true, st', sh') ∧ sh'.seq = sh.seq ∧ sh'.sent = sh.sent ∧
      Writing ctx st' sh'.disk 0 ⟨sh.seq, []⟩ ((cur :: old).take ctx.maxRotatedFiles) ∧
      Untouched ctx.logPath sh.disk sh'.disk := by
  obtain ⟨st', sh', heq, hseq, hsent, hhead, hstored, huntouched⟩ := hw.head.reopen
  exact ⟨st', sh', heq, hseq, hsent, hhead.writing (hstored hx old hw.stored hw.room) (by simp),
    huntouched⟩

/-- **`writeLine` is `logStep`**: the line gets the next sequence number, is sent once, and no other
log's files change. -/
theorem writeLine (hx : Rotatable ctx.logPath) (hw : Writing ctx st sh.disk k cur old)
    (line : String) :
    ∃ k' cur' old', cur' :: old' = logStep ctx ⟨line, sh.seq⟩ (cur :: old) ∧
      Writing ctx (st.writeLine ctx .ok line sh).1 (st.writeLine ctx .ok line sh).2.disk k' cur'
        old' ∧
      (st.writeLine ctx .ok line sh).2.seq = sh.seq + 1 ∧
      (st.writeLine ctx .ok line sh).2.sent =
        sh.sent ++ [⟨ctx.processName, ctx.stream, line⟩] ∧
      Untouched ctx.logPath sh.disk (st.writeLine ctx .ok line sh).2.disk := by
  have hover : st.Overflows ctx line ↔ Overflows ctx line cur := by
    rw [LogWriteState.Overflows, Overflows, hw.bytes]
  rw [LogWriteState.writeLine, logStep]
  by_cases hfull : Overflows ctx line cur
  · rw [if_pos (hover.mpr hfull), if_pos hfull]
    obtain ⟨st', sh', heq, hseq, hsent, hopen, huntouched⟩ := hw.reopen hx
    rw [← hseq] at hopen
    rw [heq, ← hseq, ← hsent]
    obtain ⟨k', hw', hseq, hsent, huntouched'⟩ := hopen.emit hx line
    exact ⟨k', _, _, rfl, hw', hseq, hsent, huntouched.trans huntouched'⟩
  · rw [if_neg (mt hover.mp hfull), if_neg hfull]
    obtain ⟨k', hw', hseq, hsent, huntouched⟩ := hw.emit hx line
    exact ⟨k', _, _, rfl, hw', hseq, hsent, huntouched⟩

end Writing

end AgentProcs
