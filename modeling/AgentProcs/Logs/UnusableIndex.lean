import AgentProcs.Logs.IndexBytes
import AgentProcs.Logs.Naming
import AgentProcs.Logs.Scan
import AgentProcs.Machinery.Traversals
import Mathlib.Algebra.Order.BigOperators.Group.List

/-!
# Logs/UnusableIndex — an index that does not open

    web.stdout       l₀⏎l₁⏎l₂⏎            counted by its index:  (length - 16) / 16
    web.stdout.idx   ????????????         read through its index: only if the header is right

Counting goes by the length of the index file, reading by its header.  An index that opens to nothing
is therefore still counted by its length, and the segments behind it are numbered by that count.  A
reader notices nothing exactly when the length happens to give the number of lines in the log.
-/

namespace AgentProcs

/-- The index file is there, and opening it finds no index. -/
def Unusable (disk : Disk) (name : FileName) : Prop :=
  (disk.read name).isSome ∧ IndexReader.openAt name disk = none

instance (disk : Disk) (name : FileName) : Decidable (Unusable disk name) :=
  inferInstanceAs (Decidable (_ ∧ _))

namespace IndexBytes

/-- **What does not open**: a file too small for a header, or with the wrong magic or version. -/
theorem openFile_eq_none_iff {file : List UInt8} : openFile file = none ↔
    file.length < HEADER_SIZE ∨ file.take 4 ≠ MAGIC ∨ fromLe ((file.drop 4).take 4) ≠ VERSION := by
  have hmagic : (file.take HEADER_SIZE).take 4 = file.take 4 := by
    rw [List.take_take]
    rfl
  have hversion : ((file.take HEADER_SIZE).drop 4).take 4 = (file.drop 4).take 4 := by
    rw [List.drop_take, List.take_take]
    rfl
  rw [openFile]
  split
  next hshort => exact ⟨fun _ => .inl hshort, fun _ => rfl⟩
  next hlong =>
    simp only [hmagic, hversion]
    split_ifs with hm hv
    · exact ⟨fun _ => .inr (.inl hm), fun _ => rfl⟩
    · exact ⟨fun _ => .inr (.inr hv), fun _ => rfl⟩
    · exact iff_of_false not_false fun h =>
        h.elim (absurd · hlong) (Or.elim · (absurd · hm) (absurd · hv))

/-- **A file of any bytes is unusable as an index** when it does not open. -/
theorem unusable_contentOf {path : FileName} {disk : Disk} {file : List UInt8}
    (h : disk.read path = some (contentOf file)) : Unusable disk path ↔ openFile file = none := by
  rw [Unusable, openAt_contentOf h, h, Option.map_eq_none_iff]
  exact and_iff_right rfl

end IndexBytes

/-! ## Without the unusable indexes -/

/-- The segments of both streams. -/
def segmentsOf (process : String) (disk : Disk) : List DiskSegment :=
  discoverSegments process .stdout disk ++ discoverSegments process .stderr disk

/-- The indexes of a process that do not open. -/
def unusableIndexes (process : String) (disk : Disk) : List FileName :=
  ((segmentsOf process disk).map (·.idxPath)).filter fun name => Unusable disk name

/-- The directory, had those files never been. -/
def withoutUnusable (process : String) (disk : Disk) : Disk :=
  (unusableIndexes process disk).foldl (fun d name => d.remove name) disk

/-- A question to a reader. -/
inductive ReaderQuery where
  | lineCount (source : LineSource)
  | lineCountBoth
  | readLines (source : LineSource) (start count : ℕ)
  | readInterleaved (start count : ℕ)
  | scanMatchingLines (filter : String) (mode : StreamMode)

/-- Its answer. -/
inductive ReaderReply where
  | count (n : ℕ)
  | lines (result : Except ReadError (List String))
  | tagged (result : Except ReadError (List (LineSource × String)))
  | places (ns : List ℕ)

/-- What a reader answers; each question first looks at the segments. -/
def ClockedReader.answer (disk : Disk) (r : ClockedReader) : ReaderQuery → ReaderReply
  | .lineCount source => .count ((r.look disk).reader.lineCount source)
  | .lineCountBoth => .count (r.look disk).reader.lineCountBoth
  | .readLines source start count => .lines ((r.look disk).reader.readLines disk source start count)
  | .readInterleaved start count => .tagged ((r.look disk).reader.readInterleaved disk start count)
  | .scanMatchingLines filter mode => .places (scanMatchingLines disk filter mode r).1

/-- A reader that has just looked at this directory. -/
def found (process : String) (disk : Disk) : DiskLogReader :=
  (DiskLogReader.new process).refresh 0 disk

/-- **Every question gets the same answer** in both directories, whatever the readers' clocks. -/
def Indistinguishable (process : String) (disk disk' : Disk) : Prop :=
  ∀ (q : ReaderQuery) (r r' : ClockedReader), r.Sees disk (found process disk) →
    r'.Sees disk' (found process disk') → r.answer disk q = r'.answer disk' q

/-! ## A new reader sees the directory -/

section Found

variable {process : String} {disk : Disk}

@[simp] theorem segments_found (source : LineSource) :
    (found process disk).segments source = discoverSegments process source disk := by
  have hstale : (DiskLogReader.new process).Stale 0 := nofun
  rw [found, DiskLogReader.refresh, if_pos hstale]
  cases source <;> rfl

/-- Looking again finds the same. -/
theorem segments_refresh_of_found {r : DiskLogReader} (hprocess : r.process = process)
    (hcache : r.cache = none ∨ ∀ s, r.segments s = discoverSegments process s disk) (now : ℕ) :
    (r.refresh now disk).process = process ∧
      ∀ s, (r.refresh now disk).segments s = discoverSegments process s disk := by
  rw [DiskLogReader.refresh]
  split_ifs with hstale
  · refine ⟨hprocess, fun s => ?_⟩
    cases s <;> exact congrArg (discoverSegments · _ disk) hprocess
  · refine ⟨hprocess, hcache.resolve_left fun hnone => hstale ?_⟩
    rw [DiskLogReader.Stale, hnone]
    rintro _ ⟨⟩

/-- **A new reader sees what is there**, at every look. -/
theorem sees_new (process : String) (disk : Disk) (clock : ℕ → ℕ) :
    (⟨.new process, clock⟩ : ClockedReader).Sees disk (found process disk) := by
  suffices h : ∀ n (r : ClockedReader), r.reader.process = process →
      (r.reader.cache = none ∨ ∀ s, r.reader.segments s = discoverSegments process s disk) → ∀ s,
      ((ClockedReader.look disk)^[n + 1] r).reader.segments s = discoverSegments process s disk from
    fun n s => (h n _ rfl (.inl rfl) s).trans (segments_found s).symm
  intro n
  induction n with
  | zero => exact fun r hp hc s => (segments_refresh_of_found hp hc (r.clock 0)).2 s
  | succ n ih =>
    intro r hp hc s
    obtain ⟨hp', hc'⟩ := segments_refresh_of_found hp hc (r.clock 0)
    exact ih (r.look disk) hp' (.inr hc') s

end Found

/-! ## What their absence changes -/

section Names

variable {f : FileName}

/-- A name of a log; no index has one. -/
def LogName (f : FileName) : Prop := f.getLast? ≠ some 'x'

theorem not_logName_idxPathFor : ¬LogName (idxPathFor f) := by
  intro h
  refine h ?_
  rw [idxPathFor, List.getLast?_append]
  rfl

theorem logName_logPathOf (process : String) (stream : Stream) :
    LogName (logPathOf process stream) := by
  rw [LogName, logPathOf, List.getLast?_append]
  cases stream <;> exact fun h => absurd (Option.some_inj.mp h) (by decide)

theorem logName_probe (base ext : FileName) (n : ℕ) :
    LogName (withExtension base (ext ++ '.' :: (toString n).toList)) := by
  have hne : (toString n).toList ≠ [] := by
    rw [toString_toList]
    exact Nat.toDigits_ne_nil
  have hdigit : ((toString n).toList.getLast hne).isDigit := by
    have hmem : (toString n).toList.getLast hne ∈ Nat.toDigits 10 n := by
      rw [← toString_toList]
      exact List.getLast_mem hne
    exact Nat.isDigit_of_mem_toDigits (by omega) (by omega) hmem
  rw [LogName, withExtension, setExtension]
  split_ifs with hparent hnone
  · rw [hparent]
    decide
  · simp at hnone
  · rw [List.getLast?_append, List.getLast?_cons, List.getLast?_append, List.getLast?_cons,
      List.getLast?_eq_getLast_of_ne_nil hne]
    intro h
    obtain hx : (toString n).toList.getLast hne = 'x' := Option.some_inj.mp h
    rw [hx] at hdigit
    exact absurd hdigit (by decide)

end Names

section Without

variable {process : String} {disk : Disk} {name : FileName} {seg : DiskSegment}

theorem mem_unusableIndexes : name ∈ unusableIndexes process disk ↔
    (∃ seg ∈ segmentsOf process disk, seg.idxPath = name) ∧ Unusable disk name := by
  rw [unusableIndexes, List.mem_filter, List.mem_map, decide_eq_true_iff]

theorem foldl_remove (names : List FileName) (disk : Disk) :
    (names.foldl (fun d name => d.remove name) disk).data = disk.data ∧
    (names.foldl (fun d name => d.remove name) disk).next = disk.next ∧
    ∀ m, (names.foldl (fun d name => d.remove name) disk).dir m =
      if m ∈ names then none else disk.dir m := by
  induction names generalizing disk with
  | nil => exact ⟨rfl, rfl, fun m => (if_neg List.not_mem_nil).symm⟩
  | cons name names ih =>
    obtain ⟨hdata, hnext, hdir⟩ := ih (disk.remove name)
    refine ⟨hdata, hnext, fun m => ?_⟩
    rw [List.foldl_cons, hdir, FileSystem.dir_remove, Directory.remove, Function.update_apply]
    by_cases hm : m ∈ names
    · rw [if_pos hm, if_pos (List.mem_cons_of_mem _ hm)]
    · by_cases heq : m = name
      · rw [if_neg hm, if_pos heq, if_pos (List.mem_cons.mpr (.inl heq))]
      · rw [if_neg hm, if_neg heq, if_neg (List.not_mem_cons_of_ne_of_not_mem heq hm)]

theorem next_withoutUnusable : (withoutUnusable process disk).next = disk.next :=
  (foldl_remove _ _).2.1

theorem dir_withoutUnusable (m : FileName) : (withoutUnusable process disk).dir m =
    if m ∈ unusableIndexes process disk then none else disk.dir m := (foldl_remove _ _).2.2 m

theorem read_withoutUnusable (m : FileName) : (withoutUnusable process disk).read m =
    if m ∈ unusableIndexes process disk then none else disk.read m := by
  have hdata : (withoutUnusable process disk).data = disk.data := (foldl_remove _ _).1
  rw [FileSystem.read, dir_withoutUnusable, hdata]
  split_ifs <;> rfl

theorem of_segmentAt (h : segmentAt name disk = some seg) : (disk.dir name).isSome ∧
    seg.logPath = name ∧ seg.idxPath = idxPathFor name ∧
    seg.lineCount = (IndexReader.lineCountFromMetadata (idxPathFor name) disk).getD
      ((countLinesInFile name disk).getD 0) := by
  rw [segmentAt] at h
  split_ifs at h with hdir
  obtain rfl := Option.some_inj.mp h
  exact ⟨hdir, rfl, rfl, rfl⟩

theorem of_mem_rotatedSegments {base ext : FileName} : ∀ {fuel n : ℕ},
    seg ∈ rotatedSegments base ext disk fuel n →
      LogName seg.logPath ∧ segmentAt seg.logPath disk = some seg
  | 0, _, h => absurd h List.not_mem_nil
  | fuel + 1, n, h => by
    rw [rotatedSegments] at h
    split at h
    · exact absurd h List.not_mem_nil
    next first hfirst =>
      obtain rfl | hmem := List.mem_cons.mp h
      · rw [(of_segmentAt hfirst).2.1]
        exact ⟨logName_probe base ext n, hfirst⟩
      · exact of_mem_rotatedSegments hmem

/-- What is found under a name is what there is under that name. -/
theorem of_mem_discoverSegments {source : LineSource} (h : seg ∈ discoverSegments process source disk) :
    LogName seg.logPath ∧ segmentAt seg.logPath disk = some seg := by
  obtain hrotated | hcurrent := List.mem_append.mp h
  · exact of_mem_rotatedSegments (List.mem_reverse.mp hrotated)
  · have hseg : segmentAt (logPathOf process source.stream) disk = some seg :=
      Option.mem_toList.mp hcurrent
    rw [(of_segmentAt hseg).2.1]
    exact ⟨logName_logPathOf process source.stream, hseg⟩

theorem of_mem_segmentsOf (h : seg ∈ segmentsOf process disk) :
    LogName seg.logPath ∧ segmentAt seg.logPath disk = some seg :=
  (List.mem_append.mp h).elim of_mem_discoverSegments of_mem_discoverSegments

theorem notMem_unusableIndexes (h : LogName name) : name ∉ unusableIndexes process disk := by
  intro hmem
  obtain ⟨⟨seg, hseg, rfl⟩, -⟩ := mem_unusableIndexes.mp hmem
  rw [(of_segmentAt (of_mem_segmentsOf hseg).2).2.2.1] at h
  exact not_logName_idxPathFor h

/-- Logs stay. -/
theorem read_withoutUnusable_of_logName (h : LogName name) :
    (withoutUnusable process disk).read name = disk.read name := by
  rw [read_withoutUnusable, if_neg (notMem_unusableIndexes h)]

/-- **Opening finds the same**: what is gone did not open. -/
theorem openAt_withoutUnusable (name : FileName) :
    IndexReader.openAt name (withoutUnusable process disk) = IndexReader.openAt name disk := by
  by_cases hmem : name ∈ unusableIndexes process disk
  · rw [(mem_unusableIndexes.mp hmem).2.2, IndexReader.openAt, read_withoutUnusable, if_pos hmem]
  · rw [IndexReader.openAt, IndexReader.openAt, read_withoutUnusable, if_neg hmem]

/-- A segment as it is counted without the unusable indexes. -/
def recount (process : String) (disk : Disk) (seg : DiskSegment) : DiskSegment :=
  if seg.idxPath ∈ unusableIndexes process disk then
    { seg with lineCount := (countLinesInFile seg.logPath disk).getD 0 }
  else seg

theorem segmentAt_withoutUnusable (h : LogName name) :
    segmentAt name (withoutUnusable process disk) =
      (segmentAt name disk).map (recount process disk) := by
  have hcount : countLinesInFile name (withoutUnusable process disk) = countLinesInFile name disk := by
    rw [countLinesInFile, countLinesInFile, read_withoutUnusable_of_logName h]
  rw [segmentAt, segmentAt, dir_withoutUnusable, if_neg (notMem_unusableIndexes h), hcount,
    IndexReader.lineCountFromMetadata, IndexReader.lineCountFromMetadata, read_withoutUnusable]
  by_cases hdir : (disk.dir name).isSome
  · rw [if_pos hdir, if_pos hdir, Option.map_some, recount]
    split_ifs <;> rfl
  · rw [if_neg hdir, if_neg hdir]
    rfl

theorem rotatedSegments_withoutUnusable (base ext : FileName) : ∀ fuel n : ℕ,
    rotatedSegments base ext (withoutUnusable process disk) fuel n =
      (rotatedSegments base ext disk fuel n).map (recount process disk)
  | 0, _ => rfl
  | fuel + 1, n => by
    rw [rotatedSegments, rotatedSegments, segmentAt_withoutUnusable (logName_probe base ext n)]
    cases segmentAt (withExtension base (ext ++ '.' :: (toString n).toList)) disk with
    | none => rfl
    | some seg =>
      simp only [Option.map_some, List.map_cons]
      rw [rotatedSegments_withoutUnusable base ext fuel (n + 1)]

/-- **Their absence changes the counts**, and nothing else. -/
theorem discoverSegments_withoutUnusable (source : LineSource) :
    discoverSegments process source (withoutUnusable process disk) =
      (discoverSegments process source disk).map (recount process disk) := by
  simp only [discoverSegments]
  rw [next_withoutUnusable, rotatedSegments_withoutUnusable,
    segmentAt_withoutUnusable (logName_logPathOf process source.stream), List.map_append,
    List.map_reverse]
  cases segmentAt (logPathOf process source.stream) disk <;> rfl

/-- **A segment is read the same.** -/
theorem readLinesFromSegment_withoutUnusable (h : LogName seg.logPath) (start count : ℕ) :
    readLinesFromSegment seg start count (withoutUnusable process disk) =
      readLinesFromSegment seg start count disk := by
  rw [readLinesFromSegment, readLinesFromSegment, openAt_withoutUnusable,
    read_withoutUnusable_of_logName h]

end Without

/-! ## Reading depends on what segments are read as -/

section Congr

variable {disk disk' : Disk} {segs : List DiskSegment}

theorem readWindow_congr {start count : ℕ} (h : ∀ seg ∈ segs, ∀ start count,
      readLinesFromSegment seg start count disk = readLinesFromSegment seg start count disk')
    (cumulative : ℕ) :
    readWindow start count disk cumulative segs = readWindow start count disk' cumulative segs := by
  induction segs generalizing cumulative with
  | nil => rfl
  | cons seg segs ih =>
    have hrest := ih fun x hx => h x (List.mem_cons_of_mem _ hx)
    simp only [readWindow, hrest, h seg List.mem_cons_self]

theorem readSingleLineFrom_congr {line : ℕ} (h : ∀ seg ∈ segs, ∀ start count,
      readLinesFromSegment seg start count disk = readLinesFromSegment seg start count disk')
    (cumulative : ℕ) :
    readSingleLineFrom disk line cumulative segs = readSingleLineFrom disk' line cumulative segs := by
  induction segs generalizing cumulative with
  | nil => rfl
  | cons seg segs ih =>
    have hrest := ih fun x hx => h x (List.mem_cons_of_mem _ hx)
    simp only [readSingleLineFrom, hrest, h seg List.mem_cons_self]

theorem mergeEntries_congr {source : LineSource}
    (h : ∀ name, IndexReader.openAt name disk = IndexReader.openAt name disk') (offset : ℕ) :
    mergeEntries source disk offset segs = mergeEntries source disk' offset segs := by
  induction segs generalizing offset with
  | nil => rfl
  | cons seg segs ih => simp only [mergeEntries, ih, h seg.idxPath]

/-- The two readers, each in its directory, read every segment the same. -/
structure ReadAlike (disk disk' : Disk) (x x' : DiskLogReader) : Prop where
  segments : ∀ source, x.segments source = x'.segments source
  opens : ∀ name, IndexReader.openAt name disk = IndexReader.openAt name disk'
  reads : ∀ source, ∀ seg ∈ x.segments source, ∀ start count,
    readLinesFromSegment seg start count disk = readLinesFromSegment seg start count disk'

namespace ReadAlike

variable {x x' : DiskLogReader} (h : ReadAlike disk disk' x x')
include h

theorem lineCount (source : LineSource) : x.lineCount source = x'.lineCount source := by
  rw [DiskLogReader.lineCount, DiskLogReader.lineCount, h.segments]

theorem lineCountBoth : x.lineCountBoth = x'.lineCountBoth := by
  rw [DiskLogReader.lineCountBoth, DiskLogReader.lineCountBoth, h.lineCount, h.lineCount]

theorem readLines (source : LineSource) (start count : ℕ) :
    x.readLines disk source start count = x'.readLines disk' source start count := by
  rw [DiskLogReader.readLines, DiskLogReader.readLines, readLinesFromSegments,
    readLinesFromSegments, readWindow_congr (h.reads source), h.segments]

theorem readInterleaved (start count : ℕ) :
    x.readInterleaved disk start count = x'.readInterleaved disk' start count := by
  have hmerged : x.buildMergedIndex disk = x'.buildMergedIndex disk' := by
    rw [DiskLogReader.buildMergedIndex, DiskLogReader.buildMergedIndex, mergedIndex, mergedIndex,
      h.segments, h.segments]
    simp only [mergeEntries_congr h.opens]
  have hline : ∀ source line, readSingleLineFrom disk line 0 (x.segments source) =
      readSingleLineFrom disk' line 0 (x'.segments source) := fun source line => by
    rw [readSingleLineFrom_congr (h.reads source), h.segments]
  rw [DiskLogReader.readInterleaved, DiskLogReader.readInterleaved, hmerged]
  simp only [hline]

end ReadAlike

end Congr

/-! ## Scanning depends on what is counted and read -/

namespace ClockedReader

section Scan

variable {disk disk' : Disk} {seen seen' : DiskLogReader} {r r' : ClockedReader} {filter : String}
  {count : DiskLogReader → ℕ}
  {read read' : ℕ → ℕ → DiskLogReader → Except ReadError (List String)}

theorem scanChunks_congr (hread : ∀ x x' : DiskLogReader, (∀ s, x.segments s = seen.segments s) →
      (∀ s, x'.segments s = seen'.segments s) → ∀ start count,
        read start count x = read' start count x')
    (total offset : ℕ) (h : r.Settled disk seen) : ∀ {r' : ClockedReader}, r'.Settled disk' seen' →
    (scanChunks disk filter read total offset r).1 =
      (scanChunks disk' filter read' total offset r').1 := by
  fun_induction scanChunks disk filter read total offset r
  case case1 offset r hlt count looked more ih =>
    intro r' h'
    have hlooked : looked.Settled disk seen := h.sees.look
    have hlooked' : (r'.look disk').Settled disk' seen' := h'.sees.look
    have hmore := ih hlooked hlooked'
    have hchunk := hread looked.reader (r'.look disk').reader hlooked.segments hlooked'.segments
      offset count
    rw [scanChunks, if_pos hlt]
    exact congrArg₂ (chunkMatches filter offset · ++ ·) hchunk hmore
  case case2 offset r hge =>
    intro r' h'
    rw [scanChunks, if_neg hge]

theorem scan_congr (hcount : ∀ x x' : DiskLogReader, (∀ s, x.segments s = seen.segments s) →
      (∀ s, x'.segments s = seen'.segments s) → count x = count x')
    (hread : ∀ x x' : DiskLogReader, (∀ s, x.segments s = seen.segments s) →
      (∀ s, x'.segments s = seen'.segments s) → ∀ start count,
        read start count x = read' start count x')
    (startFrom : ℕ) (h : r.Sees disk seen) (h' : r'.Sees disk' seen') :
    (scan disk filter count read startFrom r).1 =
      (scan disk' filter count read' startFrom r').1 := by
  have htotal : count (r.look disk).reader = count (r'.look disk').reader :=
    hcount _ _ h.look.segments h'.look.segments
  rw [scan, scan]
  simp only [htotal]
  split_ifs
  · rfl
  · exact scanChunks_congr hread _ _ h.look h'.look

end Scan

/-- **Readers that see the same segments**, and read them the same, answer the same. -/
theorem answer_congr {disk disk' : Disk} {seen seen' : DiskLogReader} {r r' : ClockedReader}
    (hread : ∀ x x' : DiskLogReader, (∀ s, x.segments s = seen.segments s) →
      (∀ s, x'.segments s = seen'.segments s) → ReadAlike disk disk' x x')
    (h : r.Sees disk seen) (h' : r'.Sees disk' seen') (q : ReaderQuery) :
    r.answer disk q = r'.answer disk' q := by
  have hlook := hread _ _ h.look.segments h'.look.segments
  cases q with
  | lineCount source => exact congrArg ReaderReply.count (hlook.lineCount source)
  | lineCountBoth => exact congrArg ReaderReply.count hlook.lineCountBoth
  | readLines source start count => exact congrArg ReaderReply.lines (hlook.readLines source start count)
  | readInterleaved start count => exact congrArg ReaderReply.tagged (hlook.readInterleaved start count)
  | scanMatchingLines filter mode =>
    refine congrArg ReaderReply.places ?_
    cases mode with
    | stdout =>
      exact scan_congr (fun x x' hx hx' => (hread x x' hx hx').lineCount .stdout)
        (fun x x' hx hx' => (hread x x' hx hx').readLines .stdout) 0 h h'
    | stderr =>
      exact scan_congr (fun x x' hx hx' => (hread x x' hx hx').lineCount .stderr)
        (fun x x' hx hx' => (hread x x' hx hx').readLines .stderr) 0 h h'
    | both =>
      exact scan_congr (fun x x' hx hx' => (hread x x' hx hx').lineCountBoth)
        (fun x x' hx hx' start count =>
          congrArg (Except.map _) ((hread x x' hx hx').readInterleaved start count)) 0 h h'

end ClockedReader

/-! ## Reading one line -/

section OneLine

variable {disk : Disk} {seg : DiskSegment} {segs : List DiskSegment} {line cumulative : ℕ}

/-- Reading in sequence gives as many lines as asked for, or fails. -/
theorem readSequence_ne_nil {n : ℕ} {bytes : List UInt8} : readSequence (n + 1) bytes ≠ .ok [] := by
  intro h
  rw [readSequence] at h
  cases hline : (utf8? (dropNewline (takeLine NEWLINE bytes).1)).elim (Except.error ReadError.io)
      Except.ok with
  | error e =>
    rw [hline] at h
    cases h
  | ok line =>
    rw [hline] at h
    cases hrest : readSequence n (takeLine NEWLINE bytes).2 with
    | error e => simp [hrest, bind, Except.bind] at h
    | ok rest => simp [hrest, bind, Except.bind, pure, Except.pure] at h

/-- A scan of lines that are there gives lines, or fails. -/
theorem mapM_decode_ne_nil {raw : List UInt8} {raws : List (List UInt8)} :
    (raw :: raws).mapM (fun raw => (decodeLine raw).elim (Except.error ReadError.io) Except.ok) ≠
      .ok [] := by
  intro h
  cases mapM_eq_ok_iff.mp h

/-- The log of a segment that is there. -/
theorem read_of_segmentAt (h : segmentAt seg.logPath disk = some seg) :
    ∃ log, disk.read seg.logPath = some log := by
  obtain ⟨inode, hinode⟩ := Option.isSome_iff_exists.mp (of_segmentAt h).1
  exact ⟨disk.data inode, by rw [FileSystem.read, hinode]; rfl⟩

/-- Without an index that opens, a segment is scanned. -/
theorem readLinesFromSegment_scan {log : Content} {start count : ℕ}
    (hopen : IndexReader.openAt seg.idxPath disk = none)
    (hlog : disk.read seg.logPath = some log) : readLinesFromSegment seg start count disk =
      (((splitLines NEWLINE log.bytes).drop start).take count).mapM fun raw =>
        (decodeLine raw).elim (.error .io) .ok := by
  rw [readLinesFromSegment]
  split_ifs with hcount
  · rw [hcount, List.take_zero]
    rfl
  · rw [hopen, hlog]

/-- **Every line counted is there to be read**, where no index is unusable. -/
theorem readLine_ne_nil (h : segmentAt seg.logPath disk = some seg)
    (husable : ¬Unusable disk seg.idxPath) (hline : line < seg.lineCount) :
    readLinesFromSegment seg line 1 disk ≠ .ok [] := by
  obtain ⟨log, hlog⟩ := read_of_segmentAt h
  obtain ⟨-, -, hidx, hcount⟩ := of_segmentAt h
  rw [← hidx] at hcount
  cases hread : disk.read seg.idxPath with
  | none =>
    have hopen : IndexReader.openAt seg.idxPath disk = none := by rw [IndexReader.openAt, hread]
    rw [IndexReader.lineCountFromMetadata, countLinesInFile, hread, hlog] at hcount
    have hlt : line < (splitLines NEWLINE log.bytes).length := hline.trans_eq hcount
    rw [readLinesFromSegment_scan hopen hlog, List.drop_eq_getElem_cons hlt, List.take_succ_cons]
    exact mapM_decode_ne_nil
  | some content =>
    cases content with
    | text bytes => exact absurd ⟨by rw [hread]; rfl, by rw [IndexReader.openAt, hread]⟩ husable
    | index seqBase records =>
      have hlt : line + 1 ≤ records.length := by
        rw [lineCountFromMetadata_index hread] at hcount
        exact hline.trans_eq hcount
      rw [readLinesFromSegment, if_neg Nat.one_ne_zero, openAt_index hread, hlog]
      have hrange : IndexReader.readRange line 1 ⟨records.length, seqBase, records⟩ =
          [records[line]] := by
        rw [window_index, List.drop_eq_getElem_cons hlt]
        rfl
      simp only [hrange]
      exact readSequence_ne_nil

/-- Behind the line there is nothing to read. -/
theorem readWindow_behind (hfit : line + 1 ≤ USIZE_MAX) (hbehind : line + 1 ≤ cumulative) :
    readWindow line 1 disk cumulative segs = .ok [] := by
  induction segs generalizing cumulative with
  | nil => rfl
  | cons seg segs ih =>
    rw [readWindow, windowEnd, if_pos hfit]
    change (if _ then _ else _) = _
    rw [if_pos (.inr hbehind)]
    exact ih (by omega)

/-- Segments before the line are passed over. -/
theorem readWindow_passed (hfit : line + 1 ≤ USIZE_MAX)
    (hpassed : cumulative + seg.lineCount ≤ line) : readWindow line 1 disk cumulative (seg :: segs) =
      readWindow line 1 disk (cumulative + seg.lineCount) segs := by
  rw [readWindow, windowEnd, if_pos hfit]
  change (if _ then _ else _) = _
  rw [if_pos (.inl hpassed)]

/-- The segment of the line is read for it. -/
theorem readWindow_here (hfit : line + 1 ≤ USIZE_MAX) (hle : cumulative ≤ line)
    (hlt : line < cumulative + seg.lineCount) : readWindow line 1 disk cumulative (seg :: segs) =
      readLinesFromSegment seg (line - cumulative) 1 disk := by
  have hstart : max line cumulative - cumulative = line - cumulative := by omega
  have hcount : min (line + 1) (cumulative + seg.lineCount) - cumulative - (line - cumulative) = 1 := by
    omega
  rw [readWindow, windowEnd, if_pos hfit]
  change (if _ then _ else _) = _
  rw [if_neg (by omega), hstart, hcount, readWindow_behind hfit (by omega)]
  cases readLinesFromSegment seg (line - cumulative) 1 disk with
  | error e => rfl
  | ok lines => exact congrArg Except.ok (List.append_nil lines)

/-- **A line of the stream is there to be read**, if the lines of its segments are. -/
theorem readWindow_ne_nil (hfit : line + 1 ≤ USIZE_MAX) (h : ∀ seg ∈ segs, ∀ k < seg.lineCount,
      readLinesFromSegment seg k 1 disk ≠ .ok [])
    (hle : cumulative ≤ line) (hlt : line < cumulative + (segs.map (·.lineCount)).sum) :
    readWindow line 1 disk cumulative segs ≠ .ok [] := by
  induction segs generalizing cumulative with
  | nil => exact absurd hlt (Nat.not_lt.mpr hle)
  | cons seg segs ih =>
    rw [List.map_cons, List.sum_cons] at hlt
    by_cases hpassed : cumulative + seg.lineCount ≤ line
    · rw [readWindow_passed hfit hpassed]
      exact ih (fun x hx => h x (List.mem_cons_of_mem _ hx)) hpassed (by omega)
    · rw [readWindow_here hfit hle (by omega)]
      exact h seg List.mem_cons_self _ (by omega)

/-- **A line that its segment does not have** is missing from the stream. -/
theorem exists_readWindow_eq_nil (hmem : seg ∈ segs) {k : ℕ} (hk : k < seg.lineCount)
    (hnil : readLinesFromSegment seg k 1 disk = .ok []) (cumulative : ℕ) :
    ∃ line, cumulative ≤ line ∧ line < cumulative + (segs.map (·.lineCount)).sum ∧
      (line + 1 ≤ USIZE_MAX → readWindow line 1 disk cumulative segs = .ok []) := by
  induction segs generalizing cumulative with
  | nil => exact absurd hmem List.not_mem_nil
  | cons first segs ih =>
    rw [List.map_cons, List.sum_cons]
    obtain rfl | hmem := List.mem_cons.mp hmem
    · refine ⟨cumulative + k, by omega, by omega, fun hfit => ?_⟩
      rw [readWindow_here hfit (by omega) (by omega), Nat.add_sub_cancel_left, hnil]
    · obtain ⟨line, hle, hlt, hread⟩ := ih hmem (cumulative + first.lineCount)
      refine ⟨line, by omega, by omega, fun hfit => ?_⟩
      rw [readWindow_passed hfit hle]
      exact hread hfit

end OneLine

/-! ## When nothing is noticed -/

section Noticed

variable {process : String} {disk : Disk} {seg : DiskSegment} {source : LineSource}

/-- **The length of an unusable index happens to give the number of lines** of its log. -/
def CountedByLength (process : String) (disk : Disk) : Prop :=
  ∀ seg ∈ segmentsOf process disk, Unusable disk seg.idxPath →
    IndexReader.lineCountFromMetadata seg.idxPath disk = countLinesInFile seg.logPath disk

theorem mem_segmentsOf (h : seg ∈ discoverSegments process source disk) :
    seg ∈ segmentsOf process disk := by
  cases source with
  | stdout => exact List.mem_append_left _ h
  | stderr => exact List.mem_append_right _ h

theorem recount_of_unusable (hmem : seg ∈ segmentsOf process disk)
    (h : Unusable disk seg.idxPath) : recount process disk seg =
      { seg with lineCount := (countLinesInFile seg.logPath disk).getD 0 } :=
  if_pos (mem_unusableIndexes.mpr ⟨⟨seg, hmem, rfl⟩, h⟩)

theorem recount_of_usable (h : ¬Unusable disk seg.idxPath) : recount process disk seg = seg :=
  if_neg fun hmem => h (mem_unusableIndexes.mp hmem).2

theorem recount_paths (process : String) (disk : Disk) (seg : DiskSegment) :
    (recount process disk seg).logPath = seg.logPath ∧ (recount process disk seg).idxPath = seg.idxPath := by
  rw [recount]
  split_ifs <;> exact ⟨rfl, rfl⟩

/-- The two counts of a segment with an unusable index. -/
theorem counts_of_unusable (hmem : seg ∈ segmentsOf process disk) (h : Unusable disk seg.idxPath) :
    IndexReader.lineCountFromMetadata seg.idxPath disk = some seg.lineCount ∧
      countLinesInFile seg.logPath disk = some (recount process disk seg).lineCount := by
  obtain ⟨log, hlog⟩ := read_of_segmentAt (of_mem_segmentsOf hmem).2
  obtain ⟨-, -, hidx, hcount⟩ := of_segmentAt (of_mem_segmentsOf hmem).2
  obtain ⟨index, hindex⟩ := Option.isSome_iff_exists.mp h.1
  rw [recount_of_unusable hmem h, hcount, ← hidx, IndexReader.lineCountFromMetadata, hindex,
    countLinesInFile, hlog]
  exact ⟨rfl, rfl⟩

/-- **The counts agree** exactly when no segment is recounted to another count. -/
theorem countedByLength_iff : CountedByLength process disk ↔
    ∀ seg ∈ segmentsOf process disk, (recount process disk seg).lineCount = seg.lineCount := by
  refine forall₂_congr fun seg hmem => ?_
  by_cases h : Unusable disk seg.idxPath
  · obtain ⟨hlength, hscan⟩ := counts_of_unusable hmem h
    rw [hlength, hscan, Option.some_inj, eq_comm]
    exact ⟨fun himp => himp h, fun heq _ => heq⟩
  · rw [recount_of_usable h]
    exact ⟨fun _ => rfl, fun _ hu => absurd hu h⟩

/-- Segments that are not recounted are found as they were. -/
theorem discoverSegments_of_countedByLength (h : CountedByLength process disk) (source : LineSource) :
    discoverSegments process source (withoutUnusable process disk) =
      discoverSegments process source disk := by
  rw [discoverSegments_withoutUnusable]
  refine (List.map_congr_left fun seg hmem => ?_).trans (List.map_id _)
  have hcount := countedByLength_iff.mp h seg (mem_segmentsOf hmem)
  obtain ⟨hlog, hidx⟩ := recount_paths process disk seg
  calc recount process disk seg
      = ⟨(recount process disk seg).logPath, (recount process disk seg).idxPath,
          (recount process disk seg).lineCount⟩ := rfl
    _ = seg := by rw [hlog, hidx, hcount]

/-- **If the lengths give the numbers of lines, nothing is noticed.** -/
theorem indistinguishable_of_countedByLength (h : CountedByLength process disk) :
    Indistinguishable process disk (withoutUnusable process disk) := by
  intro q r r' hr hr'
  refine ClockedReader.answer_congr (fun x x' hx hx' => ?_) hr hr' q
  refine ⟨fun s => ?_, fun name => (openAt_withoutUnusable name).symm, fun s seg hseg start count => ?_⟩
  · rw [hx, hx', segments_found, segments_found, discoverSegments_of_countedByLength h]
  · rw [hx, segments_found] at hseg
    exact (readLinesFromSegment_withoutUnusable (of_mem_discoverSegments hseg).1 start count).symm

/-- Without the unusable indexes, none is left. -/
theorem usable_withoutUnusable (h : seg ∈ discoverSegments process source (withoutUnusable process disk)) :
    ¬Unusable (withoutUnusable process disk) seg.idxPath := by
  rintro ⟨hthere, hopen⟩
  rw [discoverSegments_withoutUnusable] at h
  obtain ⟨seg', hmem, rfl⟩ := List.mem_map.mp h
  rw [(recount_paths process disk seg').2] at hthere hopen
  rw [openAt_withoutUnusable] at hopen
  rw [read_withoutUnusable] at hthere
  split_ifs at hthere with hgone
  · exact absurd hthere (by simp)
  · exact hgone (mem_unusableIndexes.mpr ⟨⟨seg', mem_segmentsOf hmem, rfl⟩, hthere, hopen⟩)

/-- Where fewer lines are scanned than the length gave, reading behind them finds nothing. -/
theorem readLine_eq_nil (hmem : seg ∈ segmentsOf process disk)
    (hfewer : (recount process disk seg).lineCount < seg.lineCount) :
    readLinesFromSegment seg (recount process disk seg).lineCount 1 disk = .ok [] := by
  have hunusable : Unusable disk seg.idxPath := by
    by_contra h
    rw [recount_of_usable h] at hfewer
    exact absurd hfewer (Nat.lt_irrefl _)
  obtain ⟨log, hlog⟩ := read_of_segmentAt (of_mem_segmentsOf hmem).2
  have hscan := (counts_of_unusable hmem hunusable).2
  rw [countLinesInFile, hlog, Option.map_some, Option.some_inj] at hscan
  rw [readLinesFromSegment_scan hunusable.2 hlog, ← hscan, List.drop_length]
  rfl

/-- **If nothing is noticed, the lengths give the numbers of lines**: the counts have the same sum,
so where they differ one length gives more lines than there are, and reading finds nothing there. -/
theorem countedByLength_of_indistinguishable
    (hfit : ∀ source, ((discoverSegments process source disk).map (·.lineCount)).sum ≤ USIZE_MAX)
    (h : Indistinguishable process disk (withoutUnusable process disk)) :
    CountedByLength process disk := by
  have hask : ∀ q, ClockedReader.answer disk ⟨.new process, fun _ => 0⟩ q =
      ClockedReader.answer (withoutUnusable process disk) ⟨.new process, fun _ => 0⟩ q :=
    fun q => h q _ _ (sees_new process disk _) (sees_new process _ _)
  suffices hle : ∀ source, ∀ seg ∈ discoverSegments process source disk,
      seg.lineCount ≤ (recount process disk seg).lineCount by
    refine countedByLength_iff.mpr fun seg hmem => ?_
    obtain ⟨source, hsource⟩ : ∃ source, seg ∈ discoverSegments process source disk :=
      (List.mem_append.mp hmem).elim (⟨.stdout, ·⟩) (⟨.stderr, ·⟩)
    by_contra hne
    have hlt := List.sum_lt_sum (fun seg : DiskSegment => seg.lineCount)
      (fun seg => (recount process disk seg).lineCount) (hle source)
      ⟨seg, hsource, Nat.lt_of_le_of_ne (hle source seg hsource) (Ne.symm hne)⟩
    have hcount : (found process disk).lineCount source =
        (found process (withoutUnusable process disk)).lineCount source :=
      ReaderReply.count.inj (hask (.lineCount source))
    rw [DiskLogReader.lineCount, DiskLogReader.lineCount, segments_found, segments_found,
      discoverSegments_withoutUnusable, List.map_map] at hcount
    exact absurd hcount hlt.ne
  intro source seg hmem
  by_contra hfewer
  obtain ⟨line, -, hlt, hnil⟩ := exists_readWindow_eq_nil hmem (Nat.not_le.mp hfewer)
    (readLine_eq_nil (mem_segmentsOf hmem) (Nat.not_le.mp hfewer)) 0
  have hline : line + 1 ≤ USIZE_MAX := by
    have := hfit source
    omega
  have hread : (found process disk).readLines disk source line 1 =
      (found process (withoutUnusable process disk)).readLines (withoutUnusable process disk) source
        line 1 := ReaderReply.lines.inj (hask (.readLines source line 1))
  have hcount : (found process disk).lineCount source =
      (found process (withoutUnusable process disk)).lineCount source :=
    ReaderReply.count.inj (hask (.lineCount source))
  rw [DiskLogReader.lineCount, DiskLogReader.lineCount, segments_found, segments_found] at hcount
  rw [DiskLogReader.readLines, DiskLogReader.readLines, readLinesFromSegments,
    readLinesFromSegments, if_pos (by decide), if_pos (by decide), segments_found, segments_found,
    hnil hline] at hread
  refine readWindow_ne_nil hline (fun x hx k hk => ?_) (Nat.zero_le _) ?_ hread.symm
  · exact readLine_ne_nil (of_mem_discoverSegments hx).2 (usable_withoutUnusable hx) hk
  · rwa [← hcount]

/-- **Nothing is noticed exactly when the lengths give the numbers of lines**; the search for the
segments ends in either case; and without the unusable indexes every line of their logs is counted,
and read by scanning. -/
theorem indistinguishable_iff (hdot : process ≠ ".")
    (hfit : ∀ source, ((discoverSegments process source disk).map (·.lineCount)).sum ≤ USIZE_MAX) :
    (Indistinguishable process disk (withoutUnusable process disk) ↔
      CountedByLength process disk) ∧
    (∀ source, SearchEnds process source disk ∧
      SearchEnds process source (withoutUnusable process disk)) ∧
    ∀ source, ∀ seg ∈ discoverSegments process source (withoutUnusable process disk),
      seg.idxPath ∈ unusableIndexes process disk → ∃ log, disk.read seg.logPath = some log ∧
        seg.lineCount = (splitLines NEWLINE log.bytes).length ∧
        ∀ start count, readLinesFromSegment seg start count (withoutUnusable process disk) =
          (((splitLines NEWLINE log.bytes).drop start).take count).mapM fun raw =>
            (decodeLine raw).elim (.error .io) .ok := by
  refine ⟨⟨countedByLength_of_indistinguishable hfit, indistinguishable_of_countedByLength⟩,
    fun source => ⟨searchEnds hdot source _, searchEnds hdot source _⟩, ?_⟩
  intro source seg hmem hgone
  obtain ⟨hname, hseg⟩ := of_mem_discoverSegments hmem
  obtain ⟨log, hlog⟩ := read_of_segmentAt hseg
  obtain ⟨-, -, hidx, hcount⟩ := of_segmentAt hseg
  have hnone : (withoutUnusable process disk).read seg.idxPath = none := by
    rw [read_withoutUnusable, if_pos hgone]
  refine ⟨log, read_withoutUnusable_of_logName hname ▸ hlog, ?_, fun start count => ?_⟩
  · rw [hcount, ← hidx, IndexReader.lineCountFromMetadata, hnone, countLinesInFile, hlog]
    rfl
  · refine readLinesFromSegment_scan ?_ hlog
    rw [IndexReader.openAt, hnone]

end Noticed

/-! ## A tiny index -/

/-- A log of one line, with four bytes of text for an index. -/
def tinyIndex : Disk :=
  (((FileSystem.empty (.text [])).create (logPathOf "web" .stdout) (.text [97, NEWLINE])).2.create
    (idxPathFor (logPathOf "web" .stdout)) (.text [116, 105, 110, 121])).2

/-- The line of its log is not counted. -/
theorem not_indistinguishable :
    Unusable tinyIndex (idxPathFor (logPathOf "web" .stdout)) ∧
      ¬Indistinguishable "web" tinyIndex (withoutUnusable "web" tinyIndex) := by
  refine ⟨by decide, fun h => ?_⟩
  have hcount := ReaderReply.count.inj (h (.lineCount .stdout) _ _
    (sees_new "web" tinyIndex fun _ => 0) (sees_new "web" (withoutUnusable "web" tinyIndex) fun _ => 0))
  have hlength : (found "web" tinyIndex).lineCount .stdout = 0 := by decide
  have hscan : (found "web" (withoutUnusable "web" tinyIndex)).lineCount .stdout = 1 := by decide
  exact absurd (hlength.symm.trans (hcount.trans hscan)) (by decide)

/-- Its lines are few enough to be counted. -/
theorem indistinguishable_iff_tiny :
    Indistinguishable "web" tinyIndex (withoutUnusable "web" tinyIndex) ↔
      CountedByLength "web" tinyIndex := by
  refine (indistinguishable_iff (by decide) fun source => ?_).1
  cases source <;> decide

end AgentProcs
