import AgentProcs.Logs.Capture
import Mathlib.Data.List.Sort

/-!
# Logs/DiskLogReader — random-access line reading from disk

    web.stdout.2  web.stdout.1  web.stdout          segments, oldest first
    0 … 9         10 … 24       25 … 31             line numbers of the stream
         └── read_lines 8 12 ──┘

The reader finds the segments of a stream by probing names, takes the line count of each from the
length of its index, and reads a window of lines through the index.  `Both` mode merges the records
of the two streams by sequence number.  What the code multiplies and adds without a check on its
caller's numbers may panic, and is `Except` here.
-/

namespace AgentProcs

/-- `usize::MAX` on a 64-bit target. -/
def USIZE_MAX : ℕ := 2 ^ 64 - 1

/-- `isize::MAX`, the most bytes one allocation may take. -/
def ISIZE_MAX : ℕ := 2 ^ 63 - 1

/-- `size_of::<String>()`. -/
def STRING_SIZE : ℕ := 24

inductive LineSource where
  | stdout
  | stderr
  deriving DecidableEq, Repr

def LineSource.stream : LineSource → Stream
  | stdout => .stdout
  | stderr => .stderr

inductive StreamMode where
  | stdout
  | stderr
  | both
  deriving DecidableEq, Repr

/-- A read fails, panics, or takes the program down. -/
inductive ReadError where
  | io
  | panic
  | abort
  deriving DecidableEq, Repr

/-- One log file and its index. -/
structure DiskSegment where
  logPath : FileName
  idxPath : FileName
  lineCount : ℕ
  deriving DecidableEq, Repr

/-! ## Finding the segments -/

/-- Fallback: count lines by scanning the log file. -/
def countLinesInFile (path : FileName) (disk : Disk) : Option ℕ :=
  (disk.read path).map fun c => (splitLines NEWLINE c.bytes).length

/-- The segment at this path, if there is one. -/
def segmentAt (path : FileName) (disk : Disk) : Option DiskSegment :=
  if (disk.dir path).isSome then
    some ⟨path, idxPathFor path, (IndexReader.lineCountFromMetadata (idxPathFor path) disk).getD
      ((countLinesInFile path disk).getD 0)⟩
  else none

/-- Probe `.n`, `.n+1`, … until one is missing.  Each that exists uses an inode of its own, so there
are no more of them than inodes. -/
def rotatedSegments (base ext : FileName) (disk : Disk) : ℕ → ℕ → List DiskSegment
  | 0, _ => []
  | fuel + 1, n =>
    match segmentAt (withExtension base (ext ++ '.' :: (toString n).toList)) disk with
    | none => []
    | some seg => seg :: rotatedSegments base ext disk fuel (n + 1)

/-- The log segments of a stream, oldest first: the numbers ascend, so the oldest comes last.  Of a
process called `.` every number names the directory above, so the search never ends. -/
def discoverSegments (process : String) (source : LineSource) (disk : Disk) : List DiskSegment :=
  let base := logPathOf process source.stream
  (rotatedSegments base source.stream.extension disk disk.next 1).reverse ++
    (segmentAt base disk).toList

/-! ## Reading a window of lines -/

/-- `read_line` drops the newline it finds. -/
def dropNewline (raw : List UInt8) : List UInt8 :=
  if raw.getLast? = some NEWLINE then raw.dropLast else raw

/-- Read `n` lines in sequence. -/
def readSequence : ℕ → List UInt8 → Except ReadError (List String)
  | 0, _ => .ok []
  | n + 1, bytes => do
    let line ← (utf8? (dropNewline (takeLine NEWLINE bytes).1)).elim (.error .io) .ok
    let lines ← readSequence n (takeLine NEWLINE bytes).2
    return line :: lines

/-- Read `count` lines from line `start` of one segment: through the index, or by scanning. -/
def readLinesFromSegment (seg : DiskSegment) (start count : ℕ) (disk : Disk) :
    Except ReadError (List String) :=
  if count = 0 then .ok []
  else match IndexReader.openAt seg.idxPath disk with
    | some reader =>
      match reader.readRange start count, disk.read seg.logPath with
      | [], _ => .ok []
      | _ :: _, none => .error .io
      | record :: records, some log =>
        readSequence (records.length + 1) (log.bytes.drop record.byteOffset)
    | none =>
      match disk.read seg.logPath with
      | none => .error .io
      | some log => (((splitLines NEWLINE log.bytes).drop start).take count).mapM fun raw =>
          (decodeLine raw).elim (.error .io) .ok

/-- `start + count` on `usize`. -/
def windowEnd (start count : ℕ) : Except ReadError ℕ :=
  if start + count ≤ USIZE_MAX then .ok (start + count) else .error .panic

/-- The loop over the segments, `cumulative` lines into the stream. -/
def readWindow (start count : ℕ) (disk : Disk) :
    ℕ → List DiskSegment → Except ReadError (List String)
  | _, [] => .ok []
  | cumulative, seg :: segments => do
    let segEnd := cumulative + seg.lineCount
    let stop ← windowEnd start count
    if segEnd ≤ start ∨ stop ≤ cumulative then
      readWindow start count disk segEnd segments
    else
      let readStart := max start cumulative - cumulative
      let readEnd := min stop segEnd - cumulative
      let lines ← readLinesFromSegment seg readStart (readEnd - readStart) disk
      let more ← readWindow start count disk segEnd segments
      return lines ++ more

/-- `Vec::with_capacity(count)` first: more than `isize::MAX` bytes panic, and a program whose
allocator has no `room` for them aborts. -/
def readLinesFromSegments (segments : List DiskSegment) (start count : ℕ) (disk : Disk)
    (room : ℕ := ISIZE_MAX) : Except ReadError (List String) :=
  if count * STRING_SIZE ≤ min room ISIZE_MAX then readWindow start count disk 0 segments
  else .error (if count * STRING_SIZE ≤ ISIZE_MAX then .abort else .panic)

/-- Read a single line by absolute position. -/
def readSingleLineFrom (disk : Disk) (line : ℕ) :
    ℕ → List DiskSegment → Except ReadError String
  | _, [] => .error .io
  | cumulative, seg :: segments =>
    if line < cumulative + seg.lineCount then do
      let lines ← readLinesFromSegment seg (line - cumulative) 1 disk
      lines.head?.elim (.error .io) .ok
    else readSingleLineFrom disk line (cumulative + seg.lineCount) segments

/-! ## Merging the streams -/

/-- The lines of a stream with their sequence numbers; lines of a segment without an index come
last. -/
def mergeEntries (source : LineSource) (disk : Disk) :
    ℕ → List DiskSegment → List (ℕ × LineSource × ℕ)
  | _, [] => []
  | offset, seg :: segments =>
    (match IndexReader.openAt seg.idxPath disk with
      | some reader =>
        (reader.readRange 0 seg.lineCount).zipIdx.map fun (r, i) => (r.seq, source, offset + i)
      | none => (List.range seg.lineCount).map fun i => (2 ^ 64 - 1, source, offset + i)) ++
    mergeEntries source disk (offset + seg.lineCount) segments

/-- All lines of both streams, sorted by sequence number; the sort is stable. -/
def mergedIndex (stdout stderr : List DiskSegment) (disk : Disk) : List (LineSource × ℕ) :=
  let entries := mergeEntries .stdout disk 0 stdout ++ mergeEntries .stderr disk 0 stderr
  (entries.mergeSort fun a b => a.1 ≤ b.1).map (·.2)

/-! ## The reader -/

/-- Segments found, and when. -/
structure SegmentCache where
  stdout : List DiskSegment
  stderr : List DiskSegment
  refreshedAt : ℕ
  deriving DecidableEq, Repr

/-- How long segments are cached. -/
def SEGMENT_CACHE_TTL_MS : ℕ := 500

structure DiskLogReader where
  process : String
  cache : Option SegmentCache
  deriving DecidableEq, Repr

namespace DiskLogReader

def new (process : String) : DiskLogReader := ⟨process, none⟩

/-- The cache is missing, or too old at `now`. -/
def Stale (now : ℕ) (r : DiskLogReader) : Prop :=
  ∀ c ∈ r.cache, SEGMENT_CACHE_TTL_MS < now - c.refreshedAt

instance (now : ℕ) (r : DiskLogReader) : Decidable (r.Stale now) :=
  inferInstanceAs (Decidable (∀ c ∈ r.cache, _))

/-- Probe the filesystem again if the cache is stale. -/
def refresh (now : ℕ) (disk : Disk) (r : DiskLogReader) : DiskLogReader :=
  if r.Stale now then
    { r with cache := some ⟨discoverSegments r.process .stdout disk,
        discoverSegments r.process .stderr disk, now⟩ }
  else r

/-- The cached segments. -/
def segments (source : LineSource) (r : DiskLogReader) : List DiskSegment :=
  match r.cache, source with
  | none, _ => []
  | some c, .stdout => c.stdout
  | some c, .stderr => c.stderr

/-- Total line count of a stream, current and rotated. -/
def lineCount (source : LineSource) (r : DiskLogReader) : ℕ :=
  ((r.segments source).map (·.lineCount)).sum

/-- Total line count of the merged view. -/
def lineCountBoth (r : DiskLogReader) : ℕ := r.lineCount .stdout + r.lineCount .stderr

/-- Lines `[start..start+count)` of one stream, oldest to newest. -/
def readLines (disk : Disk) (source : LineSource) (start count : ℕ) (r : DiskLogReader)
    (room : ℕ := ISIZE_MAX) : Except ReadError (List String) :=
  readLinesFromSegments (r.segments source) start count disk room

def buildMergedIndex (disk : Disk) (r : DiskLogReader) : List (LineSource × ℕ) :=
  mergedIndex (r.segments .stdout) (r.segments .stderr) disk

/-- Lines `[start..start+count)` of the merged view. -/
def readInterleaved (disk : Disk) (start count : ℕ) (r : DiskLogReader) :
    Except ReadError (List (LineSource × String)) := do
  let stop ← windowEnd start count
  (((r.buildMergedIndex disk).take stop).drop start).mapM fun (source, line) => do
    return (source, ← readSingleLineFrom disk line 0 (r.segments source))

end DiskLogReader

end AgentProcs
