import AgentProcs.Logs.DiskLogReader
import AgentProcs.Machinery.FixedWidth

/-!
# Logs/IndexBytes — an index file, byte by byte

    L I D X │ 1 0 0 0 │ seq_base │ byte_offset seq │ byte_offset seq │ byte_ ✂
    └──────── header ────────────┘└─── record ─────┘

What reaches the file of an index at any moment, however its writer's buffer is flushed and wherever
a crash falls, is a beginning of what was written.  A reader of any such beginning has the records
that end before the cut, and no other.
-/

namespace AgentProcs

/-- `b"LIDX"`. -/
def MAGIC : List UInt8 := [76, 73, 68, 88]

def VERSION : ℕ := 1

namespace IndexRecord

/-- Both fields are `u64`. -/
structure InU64 (record : IndexRecord) : Prop where
  byteOffset : record.byteOffset < 2 ^ 64
  seq : record.seq < 2 ^ 64

def toBytes (record : IndexRecord) : List UInt8 := toLe 8 record.byteOffset ++ toLe 8 record.seq

def ofBytes (chunk : List UInt8) : IndexRecord :=
  ⟨fromLe (chunk.take 8), fromLe ((chunk.drop 8).take 8)⟩

theorem length_toBytes (record : IndexRecord) : record.toBytes.length = RECORD_SIZE := by
  rw [toBytes, List.length_append, length_toLe, length_toLe]
  rfl

/-- **A record is read back as it was written.** -/
theorem ofBytes_toBytes {record : IndexRecord} (h : record.InU64) :
    ofBytes record.toBytes = record := by
  have hseq : (toLe 8 record.seq).take 8 = toLe 8 record.seq :=
    List.take_of_length_le (Nat.le_of_eq (length_toLe 8 record.seq))
  rw [ofBytes, toBytes, List.take_left' (length_toLe 8 _), List.drop_left' (length_toLe 8 _), hseq,
    fromLe_toLe_of_lt (by simpa using h.byteOffset), fromLe_toLe_of_lt (by simpa using h.seq)]

end IndexRecord

namespace IndexBytes

/-! ## Writing -/

/-- The header of a new index. -/
def create (seqBase : ℕ) : List UInt8 := MAGIC ++ toLe 4 VERSION ++ toLe 8 seqBase

def append (record : IndexRecord) (file : List UInt8) : List UInt8 := file ++ record.toBytes

/-- The index written for these records. -/
def written (seqBase : ℕ) (records : List IndexRecord) : List UInt8 :=
  records.foldl (fun file record => append record file) (create seqBase)

/-! ## Reading -/

/-- Why an index is not read. -/
inductive Error where
  | invalidInput (message : String)
  /-- The file ends before what was to be read does. -/
  | unexpectedEof
  | panic
  deriving DecidableEq, Repr

/-- An open index; **the records it counts are in its file**. -/
structure Reader where
  file : List UInt8
  lineCount : ℕ
  seqBase : ℕ
  whole : HEADER_SIZE + RECORD_SIZE * lineCount ≤ file.length

/-- `none` where the file is too small, or has the wrong magic or version. -/
def openFile (file : List UInt8) : Option Reader :=
  if h : file.length < HEADER_SIZE then none
  else
    let header := file.take HEADER_SIZE
    if header.take 4 ≠ MAGIC then none
    else if fromLe ((header.drop 4).take 4) ≠ VERSION then none
    else some
      { file := file
        lineCount := (file.length - HEADER_SIZE) / RECORD_SIZE
        seqBase := fromLe ((header.drop 8).take 8)
        whole := by
          have := Nat.mul_div_le (file.length - HEADER_SIZE) RECORD_SIZE
          omega }

/-- The line count from the length of the file alone. -/
def lineCountFromMetadata (file : List UInt8) : ℕ :=
  if file.length < HEADER_SIZE then 0 else (file.length - HEADER_SIZE) / RECORD_SIZE

namespace Reader

/-- `n` bytes from `offset` on, all or none. -/
def readExact (offset n : ℕ) (r : Reader) : Except Error (List UInt8) :=
  if offset + n ≤ r.file.length then .ok ((r.file.drop offset).take n) else .error .unexpectedEof

/-- Read a single record by 0-based line number. -/
def readRecord (line : ℕ) (r : Reader) : Except Error IndexRecord :=
  if r.lineCount ≤ line then
    .error (.invalidInput s!"line {line} out of range (count: {r.lineCount})")
  else (r.readExact (HEADER_SIZE + line * RECORD_SIZE) RECORD_SIZE).map .ofBytes

/-- Read records `[start..start+count)`, clamped to available lines; the sum may overflow. -/
def readRange (start count : ℕ) (r : Reader) : Except Error (List IndexRecord) :=
  if USIZE_MAX < start + count then .error .panic
  else
    let stop := min (start + count) r.lineCount
    let actual := stop - start
    if actual = 0 then .ok []
    else (r.readExact (HEADER_SIZE + start * RECORD_SIZE) (actual * RECORD_SIZE)).map fun buf =>
      (chunks RECORD_SIZE (buf.length / RECORD_SIZE) buf).map .ofBytes

/-- The records of the file. -/
def records (r : Reader) : List IndexRecord :=
  (chunks RECORD_SIZE r.lineCount (r.file.drop HEADER_SIZE)).map .ofBytes

variable {r : Reader} {start count i : ℕ}

@[simp] theorem length_records : r.records.length = r.lineCount := by
  rw [records, List.length_map, length_chunks]

/-- What lies before the counted records' end can be read. -/
theorem readExact_of_le {n : ℕ} (h : start + n ≤ r.lineCount) :
    r.readExact (HEADER_SIZE + start * RECORD_SIZE) (n * RECORD_SIZE) =
      .ok (((r.file.drop HEADER_SIZE).drop (RECORD_SIZE * start)).take (RECORD_SIZE * n)) := by
  have hroom := r.whole
  have hend : RECORD_SIZE * (start + n) ≤ RECORD_SIZE * r.lineCount := Nat.mul_le_mul_left _ h
  rw [Nat.mul_add] at hend
  rw [readExact, Nat.mul_comm start, Nat.mul_comm n, if_pos (by omega), List.drop_drop]

theorem readRecord_of_lt (h : i < r.lineCount) :
    ∃ record, r.records[i]? = some record ∧ r.readRecord i = .ok record := by
  have hread : r.readExact (HEADER_SIZE + i * RECORD_SIZE) (1 * RECORD_SIZE) = _ :=
    readExact_of_le h
  rw [Nat.one_mul, Nat.mul_one] at hread
  refine ⟨.ofBytes (((r.file.drop HEADER_SIZE).drop (RECORD_SIZE * i)).take RECORD_SIZE), ?_, ?_⟩
  · rw [records, List.getElem?_map, getElem?_chunks, if_pos h]
    rfl
  · rw [readRecord, if_neg (Nat.not_le.mpr h), hread]
    rfl

theorem readRecord_of_le (h : r.lineCount ≤ i) : r.readRecord i =
    .error (.invalidInput s!"line {i} out of range (count: {r.lineCount})") := if_pos h

/-- **A range is the window on the records**, clamped to their end. -/
theorem readRange_eq (h : start + count ≤ USIZE_MAX) : r.readRange start count =
    .ok ((r.records.drop start).take (min (start + count) r.lineCount - start)) := by
  rw [readRange, if_neg (Nat.not_lt.mpr h)]
  by_cases hactual : min (start + count) r.lineCount - start = 0
  · rw [if_pos hactual, hactual, List.take_zero]
  · have hend : start + (min (start + count) r.lineCount - start) ≤ r.lineCount := by omega
    have hbytes := Nat.mul_le_mul_left RECORD_SIZE hend
    rw [Nat.mul_add] at hbytes
    have hwhole := r.whole
    rw [if_neg hactual, readExact_of_le hend, Except.map, List.length_take, List.length_drop,
      List.length_drop, Nat.min_eq_left (by omega), Nat.mul_div_cancel_left _ (by decide),
      ← chunks_window hend, records, List.map_take, List.map_drop]

/-- A counted record ends before the file does. -/
theorem record_end_le (h : i < r.lineCount) :
    HEADER_SIZE + RECORD_SIZE * (i + 1) ≤ r.file.length :=
  (Nat.add_le_add_left (Nat.mul_le_mul_left _ h) _).trans r.whole

end Reader

/-! ## What opening finds -/

section Open

variable {file : List UInt8} {r : Reader}

theorem openFile_of_short (h : file.length < HEADER_SIZE) : openFile file = none := dif_pos h

/-- What an open index says of its file. -/
theorem of_openFile (h : openFile file = some r) :
    r.file = file ∧ r.lineCount = (file.length - HEADER_SIZE) / RECORD_SIZE := by
  rw [openFile] at h
  split at h
  · exact absurd h nofun
  · simp only at h
    split_ifs at h
    obtain rfl := Option.some_inj.mp h
    exact ⟨rfl, rfl⟩

/-- **The two counts agree on an index that opens.** -/
theorem lineCountFromMetadata_of_open (h : openFile file = some r) :
    lineCountFromMetadata file = r.lineCount := by
  rw [(of_openFile h).2, lineCountFromMetadata]
  refine if_neg fun hshort => ?_
  rw [openFile_of_short hshort] at h
  exact absurd h nofun

end Open

/-! ## Reading what was written, up to a cut -/

section Cut

variable {seqBase k : ℕ} {records : List IndexRecord}

theorem written_eq (seqBase : ℕ) (records : List IndexRecord) :
    written seqBase records = create seqBase ++ records.flatMap IndexRecord.toBytes := by
  suffices ∀ file, records.foldl (fun file record => append record file) file =
      file ++ records.flatMap IndexRecord.toBytes from this _
  induction records with
  | nil => exact fun file => (List.append_nil file).symm
  | cons record records ih =>
    intro file
    rw [List.foldl_cons, ih, append, List.append_assoc, List.flatMap_cons]

theorem length_create (seqBase : ℕ) : (create seqBase).length = HEADER_SIZE := by
  simp [create, MAGIC, HEADER_SIZE]

theorem length_written (seqBase : ℕ) (records : List IndexRecord) :
    (written seqBase records).length = HEADER_SIZE + RECORD_SIZE * records.length := by
  rw [written_eq, List.length_append, length_create,
    length_flatMap_fixed IndexRecord.length_toBytes]

/-- A cut behind the header leaves the header, and a beginning of the records' bytes. -/
theorem take_written (hk : HEADER_SIZE ≤ k) : (written seqBase records).take k =
    create seqBase ++ (records.flatMap IndexRecord.toBytes).take (k - HEADER_SIZE) := by
  rw [written_eq, List.take_append, length_create, List.take_of_length_le]
  exact length_create seqBase ▸ hk

/-- A file that begins with a new index's header opens, with the header's first number. -/
theorem openFile_create_append (hbase : seqBase < 2 ^ 64) (rest : List UInt8) :
    ∃ r, openFile (create seqBase ++ rest) = some r ∧ r.seqBase = seqBase := by
  have hlong : ¬(create seqBase ++ rest).length < HEADER_SIZE := by
    rw [List.length_append, length_create]
    omega
  have hheader : (create seqBase ++ rest).take HEADER_SIZE = create seqBase :=
    List.take_left' (length_create seqBase)
  have hversion : ((create seqBase).drop 4).take 4 = toLe 4 VERSION := by
    rw [create, List.append_assoc, List.drop_left' (by rfl), List.take_left' (length_toLe 4 _)]
  have hseq : ((create seqBase).drop 8).take 8 = toLe 8 seqBase := by
    rw [create, List.drop_left' (by rfl), List.take_of_length_le (Nat.le_of_eq (length_toLe 8 _))]
  have hmagic : ¬(create seqBase).take 4 ≠ MAGIC := by
    rw [create, List.append_assoc, List.take_left' (by rfl)]
    exact fun h => h rfl
  rw [openFile, dif_neg hlong]
  simp only [hheader]
  rw [if_neg hmagic, hversion, if_neg (by rw [fromLe_toLe]; decide), hseq]
  exact ⟨_, rfl, fromLe_toLe_of_lt (by simpa using hbase)⟩

/-- **The records of a cut file are those that end before the cut.** -/
theorem records_of_cut (hrecords : ∀ record ∈ records, record.InU64) (hk : HEADER_SIZE ≤ k)
    (hcut : k ≤ (written seqBase records).length) {r : Reader}
    (hopen : openFile ((written seqBase records).take k) = some r) :
    r.lineCount = (k - HEADER_SIZE) / RECORD_SIZE ∧ r.records = records.take r.lineCount := by
  have hlen : ((written seqBase records).take k).length = k := List.length_take_of_le hcut
  have hcount : r.lineCount = (k - HEADER_SIZE) / RECORD_SIZE := by
    rw [(of_openFile hopen).2, hlen]
  have hbytes : RECORD_SIZE * r.lineCount ≤ k - HEADER_SIZE := hcount ▸ Nat.mul_div_le _ _
  rw [length_written] at hcut
  have hle : r.lineCount ≤ records.length :=
    Nat.le_of_mul_le_mul_left (hbytes.trans (by omega)) (by decide : 0 < RECORD_SIZE)
  refine ⟨hcount, ?_⟩
  rw [Reader.records, (of_openFile hopen).1, take_written hk, List.drop_left' (length_create seqBase),
    chunks_cut IndexRecord.length_toBytes hbytes hle, List.map_map]
  refine (List.map_congr_left fun record hmem => ?_).trans (List.map_id _)
  exact IndexRecord.ofBytes_toBytes (hrecords record (List.mem_of_mem_take hmem))

/-- **A cut behind the header opens**, with the records that end before it. -/
theorem openFile_cut (hbase : seqBase < 2 ^ 64) (hrecords : ∀ record ∈ records, record.InU64)
    (hk : HEADER_SIZE ≤ k) (hcut : k ≤ (written seqBase records).length) :
    ∃ r, openFile ((written seqBase records).take k) = some r ∧ r.seqBase = seqBase ∧
      r.lineCount = (k - HEADER_SIZE) / RECORD_SIZE ∧ r.records = records.take r.lineCount := by
  obtain ⟨r, hopen, hseq⟩ := openFile_create_append hbase
    ((records.flatMap IndexRecord.toBytes).take (k - HEADER_SIZE))
  rw [← take_written hk] at hopen
  exact ⟨r, hopen, hseq, records_of_cut hrecords hk hcut hopen⟩

/-- **Decoding undoes encoding on every beginning of the file.**  A cut in the header leaves no
index; behind it, the records that end before the cut are read back, singly and in ranges, and what
lies beyond is an error. -/
theorem decode_cut (hbase : seqBase < 2 ^ 64) (hrecords : ∀ record ∈ records, record.InU64)
    (hcut : k ≤ (written seqBase records).length) :
    (k < HEADER_SIZE → openFile ((written seqBase records).take k) = none) ∧
    (HEADER_SIZE ≤ k → ∃ r, openFile ((written seqBase records).take k) = some r ∧
      r.seqBase = seqBase ∧
      r.lineCount = (k - HEADER_SIZE) / RECORD_SIZE ∧
      (∀ i < r.lineCount, ∃ record, records[i]? = some record ∧ r.readRecord i = .ok record ∧
        HEADER_SIZE + RECORD_SIZE * (i + 1) ≤ k) ∧
      (∀ i, r.lineCount ≤ i → r.readRecord i =
        .error (.invalidInput s!"line {i} out of range (count: {r.lineCount})")) ∧
      ∀ start count, start + count ≤ USIZE_MAX → r.readRange start count =
        .ok ((records.take (min (start + count) r.lineCount)).drop start)) := by
  have hlen : ((written seqBase records).take k).length = k := List.length_take_of_le hcut
  refine ⟨fun hk => openFile_of_short (by rwa [hlen]), fun hk => ?_⟩
  obtain ⟨r, hopen, hseq, hcount, hrec⟩ := openFile_cut hbase hrecords hk hcut
  refine ⟨r, hopen, hseq, hcount, fun i hi => ?_, fun i hi => Reader.readRecord_of_le hi,
    fun start count hfit => ?_⟩
  · obtain ⟨record, hat, hread⟩ := Reader.readRecord_of_lt hi
    rw [hrec, List.getElem?_take_of_lt hi] at hat
    exact ⟨record, hat, hread, (Reader.record_end_le hi).trans (by rw [(of_openFile hopen).1, hlen])⟩
  · rw [Reader.readRange_eq hfit, hrec, ← List.drop_take, List.take_take,
      Nat.min_eq_left (Nat.min_le_right _ _)]

/-- A cut in the second of two records. -/
theorem decode_cut_in_second : ∃ r, openFile ((written 7 [⟨0, 7⟩, ⟨4, 8⟩]).take 35) = some r ∧
    r.lineCount = 1 ∧ r.readRange 0 2 = .ok [⟨0, 7⟩] := by
  have hrecords : ∀ record ∈ [(⟨0, 7⟩ : IndexRecord), ⟨4, 8⟩], record.InU64 := by
    intro record h
    obtain rfl | rfl : record = ⟨0, 7⟩ ∨ record = ⟨4, 8⟩ := by simpa using h
    all_goals exact ⟨by decide, by decide⟩
  have hcut : 35 ≤ (written 7 [⟨0, 7⟩, ⟨4, 8⟩]).length := by rw [length_written]; decide
  obtain ⟨r, hopen, -, hcount, -, -, hrange⟩ :=
    (decode_cut (by decide : 7 < 2 ^ 64) hrecords hcut).2 (by decide)
  refine ⟨r, hopen, hcount, ?_⟩
  rw [hrange 0 2 (by decide), hcount]
  rfl

end Cut

/-! ## The contents of an index file -/

/-- What a file of these bytes is as an index: its header's number and its records, or just text. -/
def contentOf (file : List UInt8) : Content :=
  match openFile file with
  | none => .text file
  | some r => .index r.seqBase r.records

section Contents

variable {path : FileName} {disk : Disk} {file : List UInt8}

/-- **Opening by contents is opening by bytes.** -/
theorem openAt_contentOf (h : disk.read path = some (contentOf file)) :
    IndexReader.openAt path disk =
      (openFile file).map fun r => ⟨r.lineCount, r.seqBase, r.records⟩ := by
  rw [IndexReader.openAt, h, contentOf]
  cases openFile file with
  | none => rfl
  | some r =>
    simp only [Option.map_some, Content.len, Reader.length_records, Nat.add_sub_cancel_left]
    rw [Nat.mul_div_cancel_left _ (by decide : 0 < RECORD_SIZE)]

/-- **The count from the contents is the count from the length.** -/
theorem lineCountFromMetadata_contentOf (h : disk.read path = some (contentOf file)) :
    IndexReader.lineCountFromMetadata path disk = some (lineCountFromMetadata file) := by
  rw [IndexReader.lineCountFromMetadata, h, contentOf]
  cases hopen : openFile file with
  | none => rfl
  | some r =>
    have hlong : ¬Content.len (.index r.seqBase r.records) < HEADER_SIZE := by
      rw [Content.len]
      omega
    rw [lineCountFromMetadata_of_open hopen, Option.map_some, if_neg hlong, Content.len,
      Nat.add_sub_cancel_left, Reader.length_records,
      Nat.mul_div_cancel_left _ (by decide : 0 < RECORD_SIZE)]

/-- **What a cut leaves of a written index** is an index of the records before the cut. -/
theorem contentOf_cut {seqBase k : ℕ} {records : List IndexRecord} (hbase : seqBase < 2 ^ 64)
    (hrecords : ∀ record ∈ records, record.InU64) (hk : HEADER_SIZE ≤ k)
    (hcut : k ≤ (written seqBase records).length) :
    contentOf ((written seqBase records).take k) =
      .index seqBase (records.take ((k - HEADER_SIZE) / RECORD_SIZE)) := by
  obtain ⟨r, hopen, hseq, hcount, hrec⟩ := openFile_cut hbase hrecords hk hcut
  rw [contentOf, hopen]
  change Content.index r.seqBase r.records = _
  rw [hseq, hrec, hcount]

end Contents

end IndexBytes

end AgentProcs
