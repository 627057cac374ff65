import AgentProcs.Logs.Listing
import AgentProcs.Logs.Pairing
import AgentProcs.Logs.UnusableIndex

/-!
# Logs/AddressSpace — every line of both streams has one place

    stdout.1   a₀ a₁   numbers 0 2            merged    a₀ b₀ a₁ b₁ a₂
    stdout     a₂      no index
    stderr     b₀ b₁   numbers 1 3            windows   └─ 2 ─┘└─ 3 ──┘  =  └──── 5 ────┘

A directory need not come from a capture: its logs hold any bytes, each with a whole index or none.
A line that is no text has its place too, and only a window that contains it cannot be read.
-/

namespace AgentProcs

open scoped List

/-- The value, or a failure to read it. -/
def orFail {α : Type} (x : Option α) : Except ReadError α := x.elim (.error .io) .ok

namespace DiskSegment

variable (disk : Disk) (seg : DiskSegment)

/-- The log has an index with a record for each of its lines, or none. -/
def Whole : Prop := ∃ bytes, disk.read seg.logPath = some (.text bytes) ∧
  ∀ index ∈ disk.read seg.idxPath, index.Describes (.text bytes)

/-- The lines of the log as they are read, `none` for one that is no text. -/
def lines : List (Option String) :=
  (splitLines NEWLINE ((disk.read seg.logPath).elim [] Content.bytes)).map fun raw =>
    if (IndexReader.openAt seg.idxPath disk).isSome then utf8? (dropNewline raw) else decodeLine raw

/-- What the lines are sorted by. -/
def keys : List ℕ :=
  match IndexReader.openAt seg.idxPath disk with
  | some reader => (reader.readRange 0 seg.lineCount).map (·.seq)
  | none => List.replicate seg.lineCount (2 ^ 64 - 1)

end DiskSegment

section Segment

variable {disk : Disk} {seg : DiskSegment}

/-- **Reading in sequence** reads the lines there are. -/
theorem readSequence_eq {n : ℕ} {bytes : List UInt8} (h : n ≤ (splitLines NEWLINE bytes).length) :
    readSequence n bytes =
      ((splitLines NEWLINE bytes).take n).mapM fun raw => orFail (utf8? (dropNewline raw)) := by
  induction n generalizing bytes with
  | zero => rfl
  | succ n ih =>
    have hne : bytes ≠ [] := by
      rintro rfl
      exact absurd h (Nat.not_succ_le_zero n)
    rw [splitLines_takeLine hne, List.length_cons] at h
    rw [splitLines_takeLine hne, List.take_succ_cons, List.mapM_cons, readSequence,
      ih (Nat.le_of_succ_le_succ h)]
    rfl

namespace DiskSegment.Whole

/-- **A segment without an index** is read line by line. -/
theorem readsAs_scanned (h : segmentAt seg.logPath disk = some seg) {bytes : List UInt8}
    (hlog : disk.read seg.logPath = some (.text bytes)) (hidx : disk.read seg.idxPath = none) :
    ReadsAs disk orFail seg (seg.lines disk) := by
  have hopen : IndexReader.openAt seg.idxPath disk = none := by rw [IndexReader.openAt, hidx]
  have hlines : seg.lines disk = (splitLines NEWLINE bytes).map decodeLine := by
    rw [lines, hlog, hopen]
    rfl
  obtain ⟨-, -, hpath, hcount⟩ := of_segmentAt h
  refine ⟨?_, fun start count => ?_⟩
  · rw [hcount, ← hpath, IndexReader.lineCountFromMetadata, countLinesInFile, hidx, hlog, hlines,
      List.length_map]
    rfl
  · rw [readLinesFromSegment_scan hopen hlog, hlines, ← List.map_drop, ← List.map_take,
      List.mapM_map]
    rfl

/-- **A segment with a whole index** is read from where the index says. -/
theorem readsAs_indexed (h : segmentAt seg.logPath disk = some seg) {bytes : List UInt8}
    {seqBase : ℕ} {records : List IndexRecord}
    (hlog : disk.read seg.logPath = some (.text bytes))
    (hidx : disk.read seg.idxPath = some (.index seqBase records))
    (hwhole : records.map (·.byteOffset) = lineStarts 0 (splitLines NEWLINE bytes)) :
    ReadsAs disk orFail seg (seg.lines disk) := by
  have hopen := openAt_index hidx
  have hlines : seg.lines disk =
      (splitLines NEWLINE bytes).map fun raw => utf8? (dropNewline raw) := by
    rw [lines, hlog, hopen]
    rfl
  have hlen : records.length = (splitLines NEWLINE bytes).length := by
    rw [← List.length_map (·.byteOffset), hwhole, length_lineStarts]
  obtain ⟨-, -, hpath, hcount⟩ := of_segmentAt h
  refine ⟨?_, fun start count => ?_⟩
  · rw [hcount, ← hpath, lineCountFromMetadata_index hidx, Option.getD_some, hlen, hlines,
      List.length_map]
  · rw [readLinesFromSegment, hlines, ← List.map_drop, ← List.map_take, List.mapM_map]
    split_ifs with hzero
    · rw [hzero, List.take_zero]
      rfl
    · simp only [hopen, hlog, window_index]
      have hwindow : ((records.drop start).take count).length =
          (((splitLines NEWLINE bytes).drop start).take count).length := by
        rw [List.length_take, List.length_take, List.length_drop, List.length_drop, hlen]
      cases hrange : (records.drop start).take count with
      | nil =>
        rw [hrange] at hwindow
        rw [List.length_eq_zero_iff.mp hwindow.symm]
        rfl
      | cons record rest =>
        -- the window is not empty: its first record says where its first line starts
        have hfirst : records[start]? = some record := by
          have hhead := congrArg List.head? hrange
          rwa [List.head?_take, if_neg hzero, List.head?_drop] at hhead
        obtain ⟨hstart, -⟩ := List.getElem?_eq_some_iff.mp hfirst
        have hoffset : record.byteOffset = ((splitLines NEWLINE bytes).take start).flatten.length := by
          have hrecord := @getElem?_lineStarts _ 0 _ _ (hlen ▸ hstart)
          rw [← hwhole, List.getElem?_map, hfirst] at hrecord
          simpa using hrecord
        rw [hrange, List.length_cons] at hwindow
        have hrest : rest.length + 1 ≤ ((splitLines NEWLINE bytes).drop start).length := by
          rw [hwindow]
          exact List.length_take_le' ..
        change readSequence (rest.length + 1) (bytes.drop record.byteOffset) = _
        rw [hoffset, readSequence_eq (by rwa [splitLines_drop]), splitLines_drop, hwindow,
          List.length_take, ← List.take_eq_take_min]
        rfl

/-- **A whole segment** is read line by line, through its index or without. -/
theorem readsAs (h : segmentAt seg.logPath disk = some seg) (hwhole : seg.Whole disk) :
    ReadsAs disk orFail seg (seg.lines disk) := by
  obtain ⟨bytes, hlog, hindex⟩ := hwhole
  cases hidx : disk.read seg.idxPath with
  | none => exact readsAs_scanned h hlog hidx
  | some index =>
    have hdescribes := hindex index hidx
    cases index with
    | text _ => exact absurd hdescribes id
    | index seqBase records => exact readsAs_indexed h hlog hidx hdescribes

/-- It has a key for each line. -/
theorem keyed (h : segmentAt seg.logPath disk = some seg) (hwhole : seg.Whole disk) :
    Keyed disk seg (seg.keys disk) where
  count := by
    obtain ⟨bytes, -, hindex⟩ := hwhole
    obtain ⟨-, -, hpath, hcount⟩ := of_segmentAt h
    rw [keys]
    cases hidx : disk.read seg.idxPath with
    | none =>
      rw [IndexReader.openAt, hidx]
      exact List.length_replicate.symm
    | some index =>
      have hdescribes := hindex index hidx
      cases index with
      | text _ => exact absurd hdescribes id
      | index seqBase records =>
        rw [← hpath, lineCountFromMetadata_index hidx, Option.getD_some] at hcount
        simp only [openAt_index hidx, window_index, List.length_map, List.drop_zero, hcount,
          List.take_length]
  keys := rfl

end DiskSegment.Whole

end Segment

/-! ## What a reader holds -/

/-- The sequence number of a line of a stream, where its segment has an index. -/
def seqOf (disk : Disk) : ℕ → List DiskSegment → Option ℕ
  | _, [] => none
  | line, seg :: segments =>
    if line < seg.lineCount then
      (IndexReader.openAt seg.idxPath disk).bind fun reader =>
        (reader.readRange 0 seg.lineCount)[line]?.map (·.seq)
    else seqOf disk (line - seg.lineCount) segments

/-- **The number of an indexed line** is what it is sorted by. -/
theorem seqOf_keyed {disk : Disk} {segments : List DiskSegment} {keys : List (List ℕ)}
    (h : List.Forall₂ (Keyed disk) segments keys) {line q q' : ℕ}
    (hkey : keys.flatten[line]? = some q) (hseq : seqOf disk line segments = some q') : q' = q := by
  induction h generalizing line with
  | nil => cases hkey
  | @cons seg qs segments keys hseg _ ih =>
    rw [seqOf] at hseq
    rw [List.flatten_cons] at hkey
    split_ifs at hseq with hlt
    · obtain ⟨reader, hopen, hrecord⟩ := Option.bind_eq_some_iff.mp hseq
      rw [List.getElem?_append_left (hseg.count ▸ hlt), hseg.keys, hopen] at hkey
      dsimp only at hkey
      rw [List.getElem?_map, hrecord] at hkey
      exact Option.some_inj.mp hkey
    · rw [List.getElem?_append_right (hseg.count ▸ Nat.not_lt.mp hlt), ← hseg.count] at hkey
      exact ih hkey hseq

namespace DiskLogReader

/-- All its segments are there, and whole. -/
def Whole (disk : Disk) (r : DiskLogReader) : Prop := ∀ source, ∀ seg ∈ r.segments source,
  segmentAt seg.logPath disk = some seg ∧ seg.Whole disk

/-- The lines of a stream as they are read. -/
def ownLines (disk : Disk) (source : LineSource) (r : DiskLogReader) : List (Option String) :=
  ((r.segments source).map (·.lines disk)).flatten

/-- What the lines of a stream are sorted by. -/
def ownKeys (disk : Disk) (source : LineSource) (r : DiskLogReader) : List ℕ :=
  ((r.segments source).map (·.keys disk)).flatten

/-- A place of the merged view as it is read. -/
def cellAt (disk : Disk) (r : DiskLogReader) (place : LineSource × ℕ) :
    LineSource × Option String :=
  (place.1, ((r.ownLines disk place.1)[place.2]?).join)

namespace Whole

variable {disk : Disk} {r : DiskLogReader} (h : r.Whole disk)
include h

theorem readsAs (source : LineSource) : List.Forall₂ (ReadsAs disk orFail) (r.segments source)
    ((r.segments source).map (·.lines disk)) :=
  List.forall₂_map_right_iff.mpr (List.forall₂_same.mpr fun seg hseg =>
    (h source seg hseg).2.readsAs (h source seg hseg).1)

theorem keyed (source : LineSource) : List.Forall₂ (Keyed disk) (r.segments source)
    ((r.segments source).map (·.keys disk)) :=
  List.forall₂_map_right_iff.mpr (List.forall₂_same.mpr fun seg hseg =>
    (h source seg hseg).2.keyed (h source seg hseg).1)

theorem lineCount (source : LineSource) : r.lineCount source = (r.ownLines disk source).length := by
  rw [DiskLogReader.lineCount, ownLines, List.length_flatten, List.map_map]
  exact congrArg List.sum (List.map_congr_left fun seg hseg =>
    ((h source seg hseg).2.readsAs (h source seg hseg).1).count)

theorem length_ownKeys (source : LineSource) : (r.ownKeys disk source).length = r.lineCount source := by
  rw [DiskLogReader.lineCount, ownKeys, List.length_flatten, List.map_map]
  exact congrArg List.sum (List.map_congr_left fun seg hseg =>
    ((h source seg hseg).2.keyed (h source seg hseg).1).count.symm)

/-- **One stream** is read line by line. -/
theorem readLines {source : LineSource} {room start count : ℕ}
    (hwindow : FitsWindow room start count) : r.readLines disk source start count room =
      (((r.ownLines disk source).drop start).take count).mapM orFail := by
  rw [DiskLogReader.readLines, readLinesFromSegments, if_pos hwindow.2,
    readWindow_readsAs (h.readsAs source) hwindow.1, Nat.max_eq_left (Nat.zero_le _),
    Nat.add_sub_cancel_left]
  rfl

/-- A line that is there, by its number. -/
theorem readSingleLine {source : LineSource} {line : ℕ} (hline : line < r.lineCount source) :
    readSingleLineFrom disk line 0 (r.segments source) =
      orFail (r.cellAt disk (source, line)).2 := by
  rw [h.lineCount] at hline
  have hread := readSingleLineFrom_readsAs (h.readsAs source) (List.getElem?_eq_getElem hline) 0
  rw [Nat.zero_add] at hread
  rw [hread, cellAt, List.getElem?_eq_getElem hline]
  rfl

/-- `read_lines` of it reads the same. -/
theorem readLines_one {source : LineSource} {line : ℕ} (hline : line < r.lineCount source)
    (hfits : line + 1 ≤ USIZE_MAX) : r.readLines disk source line 1 =
      (orFail (r.cellAt disk (source, line)).2).map fun text => [text] := by
  rw [h.lineCount] at hline
  rw [h.readLines ⟨hfits, by decide⟩, List.drop_eq_getElem_cons hline, cellAt,
    List.getElem?_eq_getElem hline]
  change (orFail (r.ownLines disk source)[line] >>= _) = (orFail (r.ownLines disk source)[line]).map _
  cases orFail (r.ownLines disk source)[line] <;> rfl

/-! ### The merged view -/

/-- **The places of the merged view**, before they are sorted: those of one stream, then those of the
other. -/
theorem perm_buildMergedIndex : r.buildMergedIndex disk ~
    (List.range (r.lineCount .stdout)).map (.stdout, ·) ++
      (List.range (r.lineCount .stderr)).map (.stderr, ·) := by
  have hplaces : ∀ source, (mergeEntries source disk 0 (r.segments source)).map (·.2) =
      (List.range (r.lineCount source)).map (source, ·) := fun source => by
    calc (mergeEntries source disk 0 (r.segments source)).map (·.2)
        = (((r.ownKeys disk source).zipIdx 0).map Prod.snd).map (source, ·) := by
          rw [mergeEntries_keyed (h.keyed source), List.map_map, List.map_map]
          rfl
      _ = (List.range (r.lineCount source)).map (source, ·) := by
          rw [List.zipIdx_map_snd, ← List.range_eq_range', h.length_ownKeys]
  rw [buildMergedIndex, mergedIndex, ← hplaces, ← hplaces, ← List.map_append]
  exact (List.mergeSort_perm _ _).map _

theorem nodup_buildMergedIndex : (r.buildMergedIndex disk).Nodup := by
  refine h.perm_buildMergedIndex.nodup_iff.mpr (List.nodup_append.mpr ⟨?_, ?_, ?_⟩)
  · exact List.nodup_range.map fun _ _ => congrArg Prod.snd
  · exact List.nodup_range.map fun _ _ => congrArg Prod.snd
  · intro a ha b hb hab
    obtain ⟨i, -, rfl⟩ := List.mem_map.mp ha
    obtain ⟨j, -, rfl⟩ := List.mem_map.mp hb
    cases hab

theorem mem_buildMergedIndex {place : LineSource × ℕ} :
    place ∈ r.buildMergedIndex disk ↔ place.2 < r.lineCount place.1 := by
  obtain ⟨source, line⟩ := place
  rw [h.perm_buildMergedIndex.mem_iff, List.mem_append]
  cases source <;> simp

theorem length_merged : (r.buildMergedIndex disk).length = r.lineCountBoth := by
  rw [h.perm_buildMergedIndex.length_eq, List.length_append, List.length_map, List.length_map,
    List.length_range, List.length_range, lineCountBoth]

/-- **Indexed lines stand by number.** -/
theorem ordered_buildMergedIndex : (r.buildMergedIndex disk).Pairwise fun a b =>
    ∀ q ∈ seqOf disk a.2 (r.segments a.1), ∀ q' ∈ seqOf disk b.2 (r.segments b.1), q ≤ q' := by
  have hkey : ∀ e ∈ mergeEntries .stdout disk 0 (r.segments .stdout) ++
      mergeEntries .stderr disk 0 (r.segments .stderr),
      ∀ q ∈ seqOf disk e.2.2 (r.segments e.2.1), q = e.1 := by
    have hstream : ∀ source, ∀ e ∈ mergeEntries source disk 0 (r.segments source),
        ∀ q ∈ seqOf disk e.2.2 (r.segments e.2.1), q = e.1 := by
      intro source e he q hq
      rw [mergeEntries_keyed (h.keyed source)] at he
      obtain ⟨⟨key, line⟩, hmem, rfl⟩ := List.mem_map.mp he
      exact seqOf_keyed (h.keyed source) (List.mem_zipIdx_iff_getElem?.mp hmem) hq
    intro e he
    exact (List.mem_append.mp he).elim (hstream .stdout e) (hstream .stderr e)
  have hsorted := pairwise_mergeSort_key (·.1) (mergeEntries .stdout disk 0 (r.segments .stdout) ++
    mergeEntries .stderr disk 0 (r.segments .stderr))
  rw [buildMergedIndex, mergedIndex, List.pairwise_map]
  refine hsorted.imp_of_mem fun {a b} ha hb hle q hq q' hq' => ?_
  rw [hkey a (List.mem_mergeSort.mp ha) q hq, hkey b (List.mem_mergeSort.mp hb) q' hq']
  exact hle

/-- **A window of the merged view** is read place by place. -/
theorem readInterleaved {start count : ℕ} (hfits : start + count ≤ USIZE_MAX) :
    r.readInterleaved disk start count = (((r.buildMergedIndex disk).drop start).take count).mapM
      fun place => (orFail (r.cellAt disk place).2).map (place.1, ·) := by
  have hend : windowEnd start count = .ok (start + count) := if_pos hfits
  rw [DiskLogReader.readInterleaved, hend]
  simp only [bind, Except.bind]
  rw [List.drop_take, Nat.add_sub_cancel_left]
  refine mapM_congr_mem fun place hplace => ?_
  have hline := h.mem_buildMergedIndex.mp (List.mem_of_mem_drop (List.mem_of_mem_take hplace))
  rw [h.readSingleLine hline]
  cases orFail (r.cellAt disk place).2 <;> rfl

end Whole

end DiskLogReader

/-! ## The address space -/

/-- The end of the window is a `usize`. -/
def FitsEnd (start count : ℕ) : Prop := start + count ≤ USIZE_MAX

namespace ClockedReader

/-- Interleaved lines, with one look. -/
def readInterleaved (disk : Disk) (start count : ℕ) (r : ClockedReader) :
    Except ReadError (List (LineSource × String)) × ClockedReader :=
  ((r.look disk).reader.readInterleaved disk start count, r.look disk)

/-- **The interleaved address space is a partition** of the lines of both streams, and these windows
of it are read as they are. -/
structure Partitions (windows : ℕ → ℕ → Prop) (disk : Disk) (r : ClockedReader) : Prop where
  once : ((r.look disk).reader.buildMergedIndex disk).Nodup
  mem : ∀ source line, (source, line) ∈ (r.look disk).reader.buildMergedIndex disk ↔
    line < (r.look disk).reader.lineCount source
  length : ((r.look disk).reader.buildMergedIndex disk).length = (r.look disk).reader.lineCountBoth
  ordered : ((r.look disk).reader.buildMergedIndex disk).Pairwise fun a b =>
    ∀ q ∈ seqOf disk a.2 ((r.look disk).reader.segments a.1),
      ∀ q' ∈ seqOf disk b.2 ((r.look disk).reader.segments b.1), q ≤ q'
  append : ∀ a m n, windows a (m + n) → (do
      let first ← (r.readInterleaved disk a m).1
      let second ← ((r.readInterleaved disk a m).2.readInterleaved disk (a + m) n).1
      return first ++ second) = (r.readInterleaved disk a (m + n)).1
  entries : ∀ a m entries, windows a m → ((r.readInterleaved disk a m).1 = .ok entries ↔
    List.Forall₂ (fun place entry => entry.1 = place.1 ∧
        (r.look disk).reader.readLines disk place.1 place.2 1 = .ok [entry.2])
      ((((r.look disk).reader.buildMergedIndex disk).drop a).take m) entries)

section Partition

variable {process : String} {disk : Disk} {r : ClockedReader}

/-- A reader of a directory of whole segments holds whole segments. -/
theorem whole_of_sees (hwhole : ∀ seg ∈ segmentsOf process disk, seg.Whole disk)
    (hr : r.Sees disk (found process disk)) : (r.look disk).reader.Whole disk := by
  intro source seg hseg
  rw [hr.look.segments, segments_found] at hseg
  exact ⟨(of_mem_discoverSegments hseg).2, hwhole seg (mem_segmentsOf hseg)⟩

/-- What `read_lines` reads of a place is what the merged view reads of it. -/
theorem readLines_place_iff {x : DiskLogReader} (h : x.Whole disk) {place : LineSource × ℕ}
    (hline : place.2 < x.lineCount place.1) (hfits : place.2 + 1 ≤ USIZE_MAX)
    {entry : LineSource × String} :
    (orFail (x.cellAt disk place).2).map (place.1, ·) = .ok entry ↔
      entry.1 = place.1 ∧ x.readLines disk place.1 place.2 1 = .ok [entry.2] := by
  obtain ⟨source, text⟩ := entry
  rw [h.readLines_one hline hfits]
  cases orFail (x.cellAt disk place).2 with
  | error e => exact ⟨nofun, fun hread => nomatch hread.2⟩
  | ok line =>
    refine ⟨?_, ?_⟩
    · rintro ⟨⟩
      exact ⟨rfl, rfl⟩
    · rintro ⟨rfl, hread⟩
      cases hread
      rfl

/-- **The interleaved address space of an unchanging directory is a partition**: the search for the
segments ends, each line of each stream has one place, and windows are read place by place. -/
theorem partitions_of_whole (process : String) (hdot : process ≠ ".") (disk : Disk)
    (hwhole : ∀ seg ∈ segmentsOf process disk, seg.Whole disk)
    (hcount : (found process disk).lineCountBoth ≤ USIZE_MAX)
    (r : ClockedReader) (hr : r.Sees disk (found process disk)) :
    (∀ source, SearchEnds process source disk) ∧ r.Partitions FitsEnd disk := by
  refine ⟨fun source => searchEnds hdot source disk, ?_⟩
  have h := whole_of_sees hwhole hr
  have hboth : (r.look disk).reader.lineCountBoth ≤ USIZE_MAX :=
    (DiskLogReader.total_congr hr.look.segments .both).trans_le hcount
  refine ⟨h.nodup_buildMergedIndex, fun _ _ => h.mem_buildMergedIndex, h.length_merged,
    h.ordered_buildMergedIndex, fun a m n hfits => ?_, fun a m entries hfits => ?_⟩
  · have hagain : ((r.look disk).look disk).reader.readInterleaved disk (a + m) n =
        (r.look disk).reader.readInterleaved disk (a + m) n :=
      DiskLogReader.readRange_congr (fun s => (hr.look.sees.look.segments s).trans
        (hr.look.segments s).symm) disk .both (a + m) n
    rw [FitsEnd, ← Nat.add_assoc] at hfits
    simp only [readInterleaved, hagain]
    rw [h.readInterleaved (Nat.le_of_add_right_le hfits), h.readInterleaved hfits,
      h.readInterleaved (by rwa [← Nat.add_assoc])]
    exact mapM_window_append ..
  · rw [readInterleaved, h.readInterleaved hfits, mapM_eq_ok_iff]
    refine forall₂_congr_mem fun place hplace _ => ?_
    have hline := h.mem_buildMergedIndex.mp (List.mem_of_mem_drop (List.mem_of_mem_take hplace))
    have hle : (r.look disk).reader.lineCount place.1 ≤ (r.look disk).reader.lineCountBoth := by
      rw [DiskLogReader.lineCountBoth]
      cases place.1
      · exact Nat.le_add_right ..
      · exact Nat.le_add_left ..
    exact readLines_place_iff h hline (hline.trans_le (hle.trans hboth))

end Partition

end ClockedReader

/-- `a⏎` with its index, numbered 3, beside `b⏎` without one. -/
def halfIndexed : Disk :=
  ((((FileSystem.empty (.text [])).create (logPathOf "web" .stdout) (.text [97, NEWLINE])).2.create
    (idxPathFor (logPathOf "web" .stdout)) (.index 0 [⟨0, 3⟩])).2.create
      (logPathOf "web" .stderr) (.text [98, NEWLINE])).2

theorem whole_halfIndexed : ∀ seg ∈ segmentsOf "web" halfIndexed, seg.Whole halfIndexed := by
  have hsegments : segmentsOf "web" halfIndexed =
      [⟨logPathOf "web" .stdout, idxPathFor (logPathOf "web" .stdout), 1⟩,
        ⟨logPathOf "web" .stderr, idxPathFor (logPathOf "web" .stderr), 1⟩] := by decide
  rw [hsegments]
  refine List.forall_mem_cons.mpr ⟨⟨[97, NEWLINE], by decide, by decide⟩,
    List.forall_mem_singleton.mpr ⟨[98, NEWLINE], by decide, by decide⟩⟩

/-- A new reader of it. -/
theorem partitions_halfIndexed :
    (⟨.new "web", fun _ => 0⟩ : ClockedReader).Partitions FitsEnd halfIndexed :=
  (ClockedReader.partitions_of_whole "web" (by decide) halfIndexed whole_halfIndexed (by decide) _
    (sees_new "web" halfIndexed _)).2

/-- **No window that ends past `usize::MAX` can be read.** -/
theorem not_partitions_anyWindow :
    (∀ seg ∈ segmentsOf "web" halfIndexed, seg.Whole halfIndexed) ∧
      ¬(⟨.new "web", fun _ => 0⟩ : ClockedReader).Partitions AnyWindow halfIndexed := by
  refine ⟨whole_halfIndexed, fun h => ?_⟩
  have hmerged : ((⟨.new "web", fun _ => 0⟩ : ClockedReader).look halfIndexed).reader.buildMergedIndex
      halfIndexed = [(.stdout, 0), (.stderr, 0)] := by
    rw [DiskLogReader.buildMergedIndex, mergedIndex, List.mergeSort_of_pairwise (by decide)]
    decide
  have hread := (h.entries 1 USIZE_MAX [(.stderr, "b")] ⟨by decide, le_rfl⟩).mpr (by
    rw [hmerged]
    exact .cons ⟨rfl, by decide⟩ .nil)
  exact absurd hread (by decide)

end AgentProcs
