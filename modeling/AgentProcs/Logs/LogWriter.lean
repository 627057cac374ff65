import AgentProcs.Logs.LogIndex
import AgentProcs.Protocol.Messages

/-!
# Logs/LogWriter — a line written, indexed and broadcast

    full?  ── flush the index, rotate, create log and index ──▸  append record, append line, send

`writeLine` is one call for one stream.  The two streams of an incarnation share the disk, the
sequence counter and the subscribers, and nothing else.  What a rotation may run into are the two
creations that follow it; each leaves through its own early return.
-/

namespace AgentProcs

/-- Default number of rotated log files to keep. -/
def DEFAULT_MAX_ROTATED_FILES : ℕ := 5

/-! ## Rotation -/

/-- The directory above takes no file's name. -/
def renameFile (source target : FileName) (disk : Disk) : Disk :=
  if target = PARENT_DIR then disk else disk.rename source target

/-- Rename a segment and its index. -/
def renameSegment (source target : FileName) (disk : Disk) : Disk :=
  renameFile (idxPathFor source) (idxPathFor target) (renameFile source target disk)

/-- `for i in (1..=m).rev()`: shift `.i` to `.(i+1)`. -/
def shiftSegments (logPath : FileName) : ℕ → Disk → Disk
  | 0, disk => disk
  | i + 1, disk =>
    shiftSegments logPath i
      (renameSegment (rotatedPath logPath (i + 1)) (rotatedPath logPath (i + 2)) disk)

/-- Cascade-rotate a log and its index. -/
def rotateLogFiles (logPath : FileName) (maxRotatedFiles : ℕ) (disk : Disk) : Disk :=
  let disk := shiftSegments logPath (maxRotatedFiles - 1) disk
  let disk := renameSegment logPath (rotatedPath logPath 1) disk
  let excess := rotatedPath logPath (maxRotatedFiles + 1)
  (disk.remove excess).remove (idxPathFor excess)

/-- Rotate if there is a log, as a respawn does. -/
def rotateIfExists (logPath : FileName) (disk : Disk) : Disk :=
  if (disk.dir logPath).isSome then rotateLogFiles logPath DEFAULT_MAX_ROTATED_FILES disk else disk

/-! ## Writing -/

/-- Set once for a capture. -/
structure LogContext where
  logPath : FileName
  processName : String
  stream : Stream
  maxBytes : ℕ
  maxRotatedFiles : ℕ
  deriving DecidableEq, Repr

/-- The extension of a stream's log. -/
def Stream.extension : Stream → FileName
  | .stdout => ['s', 't', 'd', 'o', 'u', 't']
  | .stderr => ['s', 't', 'd', 'e', 'r', 'r']

/-- The log of one stream of a process. -/
def logPathOf (name : String) (stream : Stream) : FileName := name.toList ++ '.' :: stream.extension

/-- What `spawn_incarnation` captures a stream with, up to the limits. -/
def LogContext.of (name : String) (stream : Stream) (maxBytes maxRotatedFiles : ℕ) : LogContext :=
  ⟨logPathOf name stream, name, stream, maxBytes, maxRotatedFiles⟩

/-- What a capture keeps from line to line. -/
structure LogWriteState where
  file : Option ℕ
  idxWriter : IndexWriter
  bytesWritten : ℕ
  linesSinceIdxFlush : ℕ
  deriving DecidableEq, Repr

/-- What the captures of one incarnation share. -/
structure Shared where
  disk : Disk
  seq : ℕ
  sent : List OutputLine

/-- Do the two creations after a rotation succeed? -/
structure Creations where
  log : Bool
  index : Bool
  deriving DecidableEq, Repr

/-- No I/O failure. -/
def Creations.ok : Creations := ⟨true, true⟩

/-- The length of a line in the log. -/
def lineBytes (line : String) : ℕ := line.utf8ByteSize + 1

/-- A log file and its index, opened before the child is spawned. -/
structure LogSink where
  file : ℕ
  idxWriter : IndexWriter

def LogSink.openAt (logPath : FileName) (seqBase : ℕ) (disk : Disk) : LogSink × Disk :=
  let created := disk.create logPath (.text [])
  let index := IndexWriter.create (idxPathFor logPath) seqBase created.2
  (⟨created.1, index.1⟩, index.2)

namespace LogWriteState

def start (sink : LogSink) : LogWriteState := ⟨some sink.file, sink.idxWriter, 0, 0⟩

/-- The line would not fit. -/
def Overflows (ctx : LogContext) (line : String) (st : LogWriteState) : Prop :=
  0 < ctx.maxBytes ∧ ctx.maxBytes < st.bytesWritten + lineBytes line

instance (ctx : LogContext) (line : String) (st : LogWriteState) :
    Decidable (st.Overflows ctx line) := inferInstanceAs (Decidable (_ ∧ _))

/-- Flush what the index writer holds. -/
def flushIdx (st : LogWriteState) (sh : Shared) : LogWriteState × Shared :=
  ({ st with idxWriter := (st.idxWriter.flush sh.disk).1 },
    { sh with disk := (st.idxWriter.flush sh.disk).2 })

/-- Rotate, and open a new segment.  A failed creation returns early: `false`. -/
def reopen (ctx : LogContext) (creates : Creations) (st : LogWriteState) (sh : Shared) :
    Bool × LogWriteState × Shared :=
  let (st, sh) := st.flushIdx sh
  let st := { st with file := none }
  let disk := rotateLogFiles ctx.logPath ctx.maxRotatedFiles sh.disk
  if creates.log then
    let (file, disk) := disk.create ctx.logPath (.text [])
    if creates.index then
      let (idxWriter, disk) := IndexWriter.create (idxPathFor ctx.logPath) sh.seq disk
      (true, ⟨some file, idxWriter, 0, 0⟩, { sh with disk })
    else (false, { st with file := some file }, { sh with disk })
  else (false, st, { sh with disk })

/-- Index, write and broadcast the line, unless the log is not open. -/
def emit (ctx : LogContext) (line : String) (st : LogWriteState) (sh : Shared) :
    LogWriteState × Shared :=
  match st.file with
  | none => (st, sh)
  | some file =>
    let idxWriter := st.idxWriter.append ⟨st.bytesWritten, sh.seq⟩
    let disk := sh.disk.modify file (Content.appendBytes (utf8 line ++ [NEWLINE]))
    let st := { st with
      idxWriter, bytesWritten := st.bytesWritten + lineBytes line
      linesSinceIdxFlush := st.linesSinceIdxFlush + 1 }
    let sh : Shared := ⟨disk, sh.seq + 1, sh.sent ++ [⟨ctx.processName, ctx.stream, line⟩]⟩
    if 64 ≤ st.linesSinceIdxFlush then
      let (st, sh) := st.flushIdx sh
      ({ st with linesSinceIdxFlush := 0 }, sh)
    else (st, sh)

/-- `write_line`. -/
def writeLine (ctx : LogContext) (creates : Creations) (line : String) (st : LogWriteState)
    (sh : Shared) : LogWriteState × Shared :=
  if st.Overflows ctx line then
    match st.reopen ctx creates sh with
    | (false, st, sh) => (st, sh)
    | (true, st, sh) => st.emit ctx line sh
  else st.emit ctx line sh

end LogWriteState

/-! ## The logs of a process -/

section LogPaths

theorem Stream.dot_notMem_extension (stream : Stream) : '.' ∉ stream.extension := by
  cases stream <;> decide

/-- A log of a process with a non-empty name has a stem and an extension. -/
theorem hasExtension_logPathOf {name : String} (h : name ≠ "") (hdot : name ≠ ".")
    (stream : Stream) : HasExtension (logPathOf name stream) := by
  cases hname : name.toList with
  | nil => exact absurd (String.toList_eq_nil_iff.mp hname) h
  | cons c stem =>
    refine ⟨c, stem, stream.extension, stream.dot_notMem_extension, fun hstem => hdot ?_,
      by rw [logPathOf, hname]⟩
    exact String.toList_inj.mp (hname.trans hstem)

/-- **A log can be rotated**, unless its process is called `.`. -/
theorem rotatable_logPathOf {name : String} (hdot : name ≠ ".") (stream : Stream) :
    Rotatable (logPathOf name stream) := by
  by_cases h : name = ""
  · subst h
    exact rotatable_of_noStem stream.dot_notMem_extension
  · exact (hasExtension_logPathOf h hdot stream).rotatable

/-- The names of a log's files begin with its path. -/
theorem prefix_logName {path : FileName} (h : Rotatable path) (i : ℕ) : path <+: logName path i := by
  obtain ⟨sep, -, -, heq⟩ := h.logName_eq
  exact ⟨_, (heq i).symm⟩

theorem prefix_idxName {path : FileName} (h : Rotatable path) (i : ℕ) : path <+: idxName path i :=
  (prefix_logName h i).trans (List.prefix_append _ _)

/-- **The two streams of a process share no file.** -/
theorem ne_of_streams {name : String} {s t : Stream} (hst : s ≠ t) {f g : FileName}
    (hf : logPathOf name s <+: f) (hg : logPathOf name t <+: g) : f ≠ g := by
  rintro rfl
  have hlen : (logPathOf name s).length = (logPathOf name t).length := by
    cases s <;> cases t <;> simp [logPathOf, Stream.extension]
  have heq := List.append_cancel_left ((List.prefix_of_prefix_length_le hf hg hlen.le).eq_of_length hlen)
  cases s <;> cases t <;> simp [Stream.extension] at heq hst

/-- **The other stream's current log** is none of the files of this one, whatever the process is
called. -/
theorem ne_of_current {name : String} {s t : Stream} (hst : s ≠ t) {f : FileName}
    (hf : f = logPathOf name s ∨ f = idxPathFor (logPathOf name s)) :
    (∀ i, f ≠ logName (logPathOf name t) i) ∧ ∀ i, f ≠ idxName (logPathOf name t) i := by
  by_cases hdot : name = "."
  · subst hdot
    -- rotated logs of this process are the directory above
    have hrotated : ∀ i, logName (logPathOf "." t) (i + 1) = PARENT_DIR := fun i =>
      withExtension_dot t.dot_notMem_extension _
    have hcurrent : f ≠ logPathOf "." t ∧ f ≠ idxPathFor (logPathOf "." t) ∧ f ≠ PARENT_DIR ∧
        f ≠ idxPathFor PARENT_DIR := by
      rcases hf with rfl | rfl <;> cases s <;> cases t <;> simp at hst <;> decide
    refine ⟨fun i => ?_, fun i => ?_⟩
    · cases i with
      | zero => exact hcurrent.1
      | succ i =>
        rw [hrotated]
        exact hcurrent.2.2.1
    · cases i with
      | zero => exact hcurrent.2.1
      | succ i =>
        rw [idxName, hrotated]
        exact hcurrent.2.2.2
  · have ht := rotatable_logPathOf hdot t
    have hprefix : logPathOf name s <+: f := by
      rcases hf with rfl | rfl
      · exact List.prefix_rfl
      · exact List.prefix_append _ _
    exact ⟨fun i => ne_of_streams hst hprefix (prefix_logName ht i),
      fun i => ne_of_streams hst hprefix (prefix_idxName ht i)⟩

end LogPaths

/-! ## What a rotation does to the directory -/

section Rotate

variable {path source target : FileName} {n : ℕ}

theorem renameFile_of_ne (h : target ≠ PARENT_DIR) (disk : Disk) :
    renameFile source target disk = disk.rename source target := if_neg h

theorem idxPathFor_ne_parent (f : FileName) : idxPathFor f ≠ PARENT_DIR := by
  intro h
  have hx : 'x' ∈ PARENT_DIR := h ▸ by simp [idxPathFor]
  exact absurd hx (by decide)

theorem renameSegment_eq (h : target ≠ PARENT_DIR) (disk : Disk) :
    renameSegment source target disk =
      (disk.rename source target).rename (idxPathFor source) (idxPathFor target) := by
  rw [renameSegment, renameFile_of_ne h, renameFile_of_ne (idxPathFor_ne_parent target)]

/-- A rotated segment is not the directory above. -/
theorem rotatedPath_ne_parent (h : Rotatable path) (i : ℕ) : rotatedPath path i ≠ PARENT_DIR := by
  obtain ⟨sep, -, -, heq⟩ := h
  intro hparent
  obtain ⟨c, hc⟩ := List.exists_mem_of_ne_nil (toString i).toList
    (toString_toList i ▸ Nat.toDigits_ne_nil)
  have hdigit : c.isDigit :=
    Nat.isDigit_of_mem_toDigits (by omega) (by omega) (toString_toList i ▸ hc)
  have hmem : c ∈ PARENT_DIR := by
    rw [← hparent, heq]
    exact List.mem_append_right _ (List.mem_append_right _ hc)
  obtain rfl : c = '.' := by simpa [PARENT_DIR] using hmem
  exact absurd hdigit (by decide)

theorem read_shiftSegments (h : Rotatable path) : ∀ (m : ℕ) (disk : Disk),
    (shiftSegments path m disk).read =
      Directory.shiftBoth (logName path) (idxName path) m disk.read
  | 0, _ => rfl
  | m + 1, disk => by
    rw [shiftSegments, read_shiftSegments h m, renameSegment_eq (rotatedPath_ne_parent h _),
      FileSystem.read_rename, FileSystem.read_rename]
    rfl

theorem dir_shiftSegments (h : Rotatable path) : ∀ (m : ℕ) (disk : Disk),
    (shiftSegments path m disk).dir =
      Directory.shiftBoth (logName path) (idxName path) m disk.dir
  | 0, _ => rfl
  | m + 1, disk => by
    rw [shiftSegments, dir_shiftSegments h m, renameSegment_eq (rotatedPath_ne_parent h _)]
    rfl

/-- **Rotation on names** is the rotation of a numbered family and its companions. -/
theorem read_rotateLogFiles (h : Rotatable path) (disk : Disk) : (rotateLogFiles path n disk).read =
    Directory.rotateBoth (logName path) (idxName path) n disk.read := by
  simp only [rotateLogFiles, renameSegment_eq (rotatedPath_ne_parent h _), FileSystem.read_remove,
    FileSystem.read_rename, read_shiftSegments h]
  rfl

theorem dir_rotateLogFiles (h : Rotatable path) (disk : Disk) : (rotateLogFiles path n disk).dir =
    Directory.rotateBoth (logName path) (idxName path) n disk.dir := by
  simp only [rotateLogFiles, renameSegment_eq (rotatedPath_ne_parent h _), FileSystem.dir_remove,
    FileSystem.dir_rename, dir_shiftSegments h]
  rfl

end Rotate

end AgentProcs
