import AgentProcs.Logs.LogWriter

/-!
# Logs/Segments — what the files of a log mean

    directory   stdout, stdout.1, stdout.2, …  ═ Stored ═  segment, segment, segment, …   newest first
    writeLine            │                                        │ logStep
                         ▾                                        ▾
    directory           ⋯                      ═ Stored ═         ⋯

A segment is the list of lines in one log file, with the sequence number each got.  Its file holds
their text, its index their records; of the newest segment's records the last few may still be in
the writer's buffer.  `writeLine` without I/O failures is `logStep` on the list of segments, and no
other file changes.
-/

namespace AgentProcs

/-- A line, with the sequence number it got. -/
structure Entry where
  line : String
  seq : ℕ
  deriving DecidableEq, Repr

/-- The line in the log. -/
def Entry.bytes (e : Entry) : List UInt8 := utf8 e.line ++ [NEWLINE]

@[simp] theorem Entry.length_bytes (e : Entry) : e.bytes.length = lineBytes e.line := by
  simp [Entry.bytes, lineBytes]

/-- The records of consecutive lines, the first at `offset`. -/
def recordsFrom (offset : ℕ) : List Entry → List IndexRecord
  | [] => []
  | e :: es => ⟨offset, e.seq⟩ :: recordsFrom (offset + e.bytes.length) es

/-- One log file. -/
structure Segment where
  seqBase : ℕ
  entries : List Entry
  deriving DecidableEq, Repr

namespace Segment

/-- What the log file holds. -/
def text (s : Segment) : List UInt8 := s.entries.flatMap Entry.bytes

def records (s : Segment) : List IndexRecord := recordsFrom 0 s.entries

/-- What the index holds when `k` records have been written. -/
def index (k : ℕ) (s : Segment) : Content := .index s.seqBase (s.records.take k)

/-- What a finished index holds. -/
def fullIndex (s : Segment) : Content := .index s.seqBase s.records

def put (e : Entry) (s : Segment) : Segment := { s with entries := s.entries ++ [e] }

end Segment

/-- The lines of a log, oldest first. -/
def entriesOf (segs : List Segment) : List Entry := Shelf.history (segs.map Segment.entries)

/-- The indexes of a log, `k` records of the newest one written. -/
def indexContents (k : ℕ) : List Segment → List Content
  | [] => []
  | cur :: old => cur.index k :: old.map Segment.fullIndex

/-- **The directory holds this log**, `k` records of the newest index written. -/
structure Stored (path : FileName) (k : ℕ) (disk : Disk) (segs : List Segment) : Prop where
  logs : disk.read ∘ logName path = Directory.stack (segs.map fun s => .text s.text)
  indexes : disk.read ∘ idxName path = Directory.stack (indexContents k segs)

/-- Nothing but the files of this log has changed. -/
structure Untouched (path : FileName) (disk disk' : Disk) : Prop where
  dir : ∀ f, (∀ i, f ≠ logName path i) → (∀ i, f ≠ idxName path i) → disk'.dir f = disk.dir f
  read : ∀ f, (∀ i, f ≠ logName path i) → (∀ i, f ≠ idxName path i) → disk'.read f = disk.read f

/-- The current log and its index are as they were. -/
structure Current (path : FileName) (disk disk' : Disk) : Prop where
  dirLog : disk'.dir path = disk.dir path
  dirIdx : disk'.dir (idxPathFor path) = disk.dir (idxPathFor path)
  readLog : disk'.read path = disk.read path
  readIdx : disk'.read (idxPathFor path) = disk.read (idxPathFor path)

/-- The files of this log are as they were. -/
structure Kept (path : FileName) (disk disk' : Disk) : Prop where
  dirLog : ∀ i, disk'.dir (logName path i) = disk.dir (logName path i)
  dirIdx : ∀ i, disk'.dir (idxName path i) = disk.dir (idxName path i)
  readLog : ∀ i, disk'.read (logName path i) = disk.read (logName path i)
  readIdx : ∀ i, disk'.read (idxName path i) = disk.read (idxName path i)

/-- **A capture in the middle of its work.**  Of the newest segment's records, `k` are in the file
and the others in the writer's buffer. -/
structure Writing (ctx : LogContext) (st : LogWriteState) (disk : Disk) (k : ℕ) (cur : Segment)
    (old : List Segment) : Prop where
  stored : Stored ctx.logPath k disk (cur :: old)
  file : ∃ h, st.file = some h ∧ disk.dir ctx.logPath = some h
  index : disk.dir (idxPathFor ctx.logPath) = some st.idxWriter.file
  written : k ≤ cur.entries.length
  buffer : st.idxWriter.buffer = cur.records.drop k
  bytes : st.bytesWritten = cur.text.length
  lag : cur.entries.length ≤ k + st.linesSinceIdxFlush
  lag_lt : st.linesSinceIdxFlush < 64
  room : old.length ≤ ctx.maxRotatedFiles

/-- **The newest segment of a capture**, whatever other files there are. -/
structure Head (path : FileName) (st : LogWriteState) (disk : Disk) (k : ℕ) (cur : Segment) :
    Prop where
  log : disk.read path = some (.text cur.text)
  records : disk.read (idxPathFor path) = some (cur.index k)
  file : ∃ h, st.file = some h ∧ disk.dir path = some h
  index : disk.dir (idxPathFor path) = some st.idxWriter.file
  written : k ≤ cur.entries.length
  buffer : st.idxWriter.buffer = cur.records.drop k
  bytes : st.bytesWritten = cur.text.length
  lag : cur.entries.length ≤ k + st.linesSinceIdxFlush
  lag_lt : st.linesSinceIdxFlush < 64

theorem Writing.head {ctx : LogContext} {st : LogWriteState} {disk : Disk} {k : ℕ} {cur : Segment}
    {old : List Segment} (h : Writing ctx st disk k cur old) : Head ctx.logPath st disk k cur :=
  { h with log := congrFun h.stored.logs 0, records := congrFun h.stored.indexes 0 }

theorem Head.writing {ctx : LogContext} {st : LogWriteState} {disk : Disk} {k : ℕ} {cur : Segment}
    {old : List Segment} (h : Head ctx.logPath st disk k cur)
    (hs : Stored ctx.logPath k disk (cur :: old)) (hroom : old.length ≤ ctx.maxRotatedFiles) :
    Writing ctx st disk k cur old :=
  { h with stored := hs, room := hroom }

/-! ## What a line does to the segments -/

/-- The line would not fit into the newest segment. -/
def Overflows (ctx : LogContext) (line : String) (cur : Segment) : Prop :=
  0 < ctx.maxBytes ∧ ctx.maxBytes < cur.text.length + lineBytes line

instance (ctx : LogContext) (line : String) (cur : Segment) : Decidable (Overflows ctx line cur) :=
  inferInstanceAs (Decidable (_ ∧ _))

/-- Write a line: to the newest segment if it fits, else to a new one. -/
def logStep (ctx : LogContext) (e : Entry) : List Segment → List Segment
  | [] => []
  | cur :: old =>
    if Overflows ctx e.line cur then ⟨e.seq, [e]⟩ :: (cur :: old).take ctx.maxRotatedFiles
    else cur.put e :: old

/-! ## Records -/

theorem recordsFrom_append (offset : ℕ) (es fs : List Entry) : recordsFrom offset (es ++ fs) =
    recordsFrom offset es ++ recordsFrom (offset + (es.flatMap Entry.bytes).length) fs := by
  induction es generalizing offset with
  | nil => simp [recordsFrom]
  | cons e es ih => simp [recordsFrom, ih, Nat.add_assoc]

@[simp] theorem length_recordsFrom (offset : ℕ) (es : List Entry) :
    (recordsFrom offset es).length = es.length := by
  induction es generalizing offset with
  | nil => rfl
  | cons e es ih => simp [recordsFrom, ih]

namespace Segment

variable {s : Segment} {e : Entry} {k : ℕ}

@[simp] theorem length_records : s.records.length = s.entries.length := length_recordsFrom 0 _

@[simp] theorem text_put : (s.put e).text = s.text ++ e.bytes := by simp [put, text]

@[simp] theorem records_put : (s.put e).records = s.records ++ [⟨s.text.length, e.seq⟩] := by
  simp [put, records, recordsFrom_append, recordsFrom, text]

@[simp] theorem entries_put : (s.put e).entries = s.entries ++ [e] := rfl

theorem index_length (h : s.entries.length ≤ k) : s.index k = s.fullIndex := by
  rw [index, fullIndex, List.take_of_length_le (by simpa using h)]

/-- The records missing from the index complete it. -/
theorem appendRecords_drop :
    Content.appendRecords (s.records.drop k) (s.index k) = s.index s.entries.length := by
  rw [index_length le_rfl, index, fullIndex, Content.appendRecords, List.take_append_drop]

/-- A line whose record is still buffered does not show in the index. -/
theorem index_put (h : k ≤ s.entries.length) : (s.put e).index k = s.index k := by
  rw [index, index, records_put, List.take_append_of_le_length (by simpa using h)]
  rfl

end Segment

theorem entriesOf_cons (cur : Segment) (old : List Segment) :
    entriesOf (cur :: old) = entriesOf old ++ cur.entries := Shelf.history_cons

/-! ## Files that are not this log's -/

namespace Untouched

variable {path : FileName} {disk disk' disk'' : Disk} {f : FileName} {h : ℕ}

theorem refl (path : FileName) (disk : Disk) : Untouched path disk disk :=
  ⟨fun _ _ _ => rfl, fun _ _ _ => rfl⟩

theorem trans (h : Untouched path disk disk') (h' : Untouched path disk' disk'') :
    Untouched path disk disk'' where
  dir f hl hi := (h'.dir f hl hi).trans (h.dir f hl hi)
  read f hl hi := (h'.read f hl hi).trans (h.read f hl hi)

/-- Writing through one of the log's files. -/
theorem modify (hf : disk.dir f = some h) (hname : (∃ i, f = logName path i) ∨ ∃ i, f = idxName path i)
    (g : Content → Content) : Untouched path disk (disk.modify h g) where
  dir _ _ _ := rfl
  read f' hl hi := by
    have hne : f' ≠ f := by
      rintro rfl
      exact hname.elim (fun ⟨i, h⟩ => hl i h) fun ⟨i, h⟩ => hi i h
    rw [FileSystem.read_modify hf, Function.update_of_ne hne]

/-- Creating one of the log's files. -/
theorem create (hname : (∃ i, f = logName path i) ∨ ∃ i, f = idxName path i) (c : Content) :
    Untouched path disk (disk.create f c).2 := by
  have hne : ∀ f', (∀ i, f' ≠ logName path i) → (∀ i, f' ≠ idxName path i) → f' ≠ f := by
    rintro f' hl hi rfl
    exact hname.elim (fun ⟨i, h⟩ => hl i h) fun ⟨i, h⟩ => hi i h
  refine ⟨fun f' hl hi => ?_, fun f' hl hi => ?_⟩
  · rw [FileSystem.dir_create, Function.update_of_ne (hne f' hl hi)]
  · rw [FileSystem.read_create, Function.update_of_ne (hne f' hl hi)]

/-- Renaming one of the log's files to another. -/
theorem renameFile {g : FileName} (hf : (∃ i, f = logName path i) ∨ ∃ i, f = idxName path i)
    (hg : (∃ i, g = logName path i) ∨ ∃ i, g = idxName path i) :
    Untouched path disk (renameFile f g disk) := by
  have hne : ∀ f', (∀ i, f' ≠ logName path i) → (∀ i, f' ≠ idxName path i) → f' ≠ f ∧ f' ≠ g := by
    refine fun f' hl hi => ⟨?_, ?_⟩
    · rintro rfl
      exact hf.elim (fun ⟨i, h⟩ => hl i h) fun ⟨i, h⟩ => hi i h
    · rintro rfl
      exact hg.elim (fun ⟨i, h⟩ => hl i h) fun ⟨i, h⟩ => hi i h
  rw [AgentProcs.renameFile]
  split_ifs
  · exact .refl path disk
  · refine ⟨fun f' hl hi => ?_, fun f' hl hi => ?_⟩
    · rw [FileSystem.dir_rename, Directory.rename_apply, if_neg (hne f' hl hi).2,
        if_neg (hne f' hl hi).1, ite_self]
    · rw [FileSystem.read_rename, Directory.rename_apply, if_neg (hne f' hl hi).2,
        if_neg (hne f' hl hi).1, ite_self]

theorem renameSegment (i j : ℕ) :
    Untouched path disk (renameSegment (logName path i) (logName path j) disk) :=
  (renameFile (.inl ⟨i, rfl⟩) (.inl ⟨j, rfl⟩)).trans (renameFile (.inr ⟨i, rfl⟩) (.inr ⟨j, rfl⟩))

/-- Removing one of the log's files. -/
theorem remove (hf : (∃ i, f = logName path i) ∨ ∃ i, f = idxName path i) :
    Untouched path disk (disk.remove f) := by
  have hne : ∀ f', (∀ i, f' ≠ logName path i) → (∀ i, f' ≠ idxName path i) → f' ≠ f := by
    rintro f' hl hi rfl
    exact hf.elim (fun ⟨i, h⟩ => hl i h) fun ⟨i, h⟩ => hi i h
  refine ⟨fun f' hl hi => ?_, fun f' hl hi => ?_⟩
  · rw [FileSystem.dir_remove, Directory.remove, Function.update_of_ne (hne f' hl hi)]
  · rw [FileSystem.read_remove, Directory.remove, Function.update_of_ne (hne f' hl hi)]

theorem shiftSegments (m : ℕ) : Untouched path disk (shiftSegments path m disk) := by
  induction m generalizing disk with
  | zero => exact .refl path disk
  | succ m ih => exact (renameSegment (m + 1) (m + 2)).trans ih

/-- **A rotation**, of a process of any name. -/
theorem rotate (n : ℕ) : Untouched path disk (rotateLogFiles path n disk) :=
  (((shiftSegments (n - 1)).trans (renameSegment 0 1)).trans (remove (.inl ⟨n + 1, rfl⟩))).trans
    (remove (.inr ⟨n + 1, rfl⟩))

/-- **The other stream of a process** has a current log of its own, -/
theorem current {name : String} {s t : Stream} (hst : s ≠ t)
    (h : Untouched (logPathOf name t) disk disk') : Current (logPathOf name s) disk disk' := by
  have hlog := ne_of_current hst (.inl (rfl : logPathOf name s = _))
  have hidx := ne_of_current hst (.inr (rfl : idxPathFor (logPathOf name s) = _))
  exact ⟨h.dir _ hlog.1 hlog.2, h.dir _ hidx.1 hidx.2, h.read _ hlog.1 hlog.2,
    h.read _ hidx.1 hidx.2⟩

/-- and, unless the process is called `.`, files of its own. -/
theorem kept {name : String} (hdot : name ≠ ".") {s t : Stream} (hst : s ≠ t)
    (h : Untouched (logPathOf name t) disk disk') : Kept (logPathOf name s) disk disk' := by
  have hs := rotatable_logPathOf hdot s
  have ht := rotatable_logPathOf hdot t
  have hne : ∀ {f}, logPathOf name s <+: f →
      (∀ i, f ≠ logName (logPathOf name t) i) ∧ ∀ i, f ≠ idxName (logPathOf name t) i :=
    fun hf => ⟨fun i => ne_of_streams hst hf (prefix_logName ht i),
      fun i => ne_of_streams hst hf (prefix_idxName ht i)⟩
  exact {
    dirLog := fun i => h.dir _ (hne (prefix_logName hs i)).1 (hne (prefix_logName hs i)).2
    dirIdx := fun i => h.dir _ (hne (prefix_idxName hs i)).1 (hne (prefix_idxName hs i)).2
    readLog := fun i => h.read _ (hne (prefix_logName hs i)).1 (hne (prefix_logName hs i)).2
    readIdx := fun i => h.read _ (hne (prefix_idxName hs i)).1 (hne (prefix_idxName hs i)).2 }

end Untouched

/-- An open capture stays one. -/
theorem Current.head {path : FileName} {disk disk' : Disk} {st : LogWriteState} {k : ℕ}
    {cur : Segment} (h : Current path disk disk') (hw : Head path st disk k cur) :
    Head path st disk' k cur :=
  { hw with
    log := h.readLog.trans hw.log
    records := h.readIdx.trans hw.records
    file := by
      obtain ⟨i, hfile, hdir⟩ := hw.file
      exact ⟨i, hfile, h.dirLog.trans hdir⟩
    index := h.dirIdx.trans hw.index }

namespace Kept

variable {path : FileName} {disk disk' disk'' : Disk} {k : ℕ} {segs : List Segment}

theorem trans (h : Kept path disk disk') (h' : Kept path disk' disk'') : Kept path disk disk'' where
  dirLog i := (h'.dirLog i).trans (h.dirLog i)
  dirIdx i := (h'.dirIdx i).trans (h.dirIdx i)
  readLog i := (h'.readLog i).trans (h.readLog i)
  readIdx i := (h'.readIdx i).trans (h.readIdx i)

theorem stored (h : Kept path disk disk') (hs : Stored path k disk segs) :
    Stored path k disk' segs where
  logs := by rw [← hs.logs]; exact funext h.readLog
  indexes := by rw [← hs.indexes]; exact funext h.readIdx

theorem current (h : Kept path disk disk') : Current path disk disk' :=
  ⟨h.dirLog 0, h.dirIdx 0, h.readLog 0, h.readIdx 0⟩

end Kept

end AgentProcs
