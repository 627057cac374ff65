import AgentProcs.Machinery.Lines
import AgentProcs.Machinery.Rotation
import Mathlib.Data.Nat.Digits.Defs

/-!
# Logs/LogIndex — log files, their names, and the index beside each

    web.stdout        l₀⏎l₁⏎l₂⏎                 web.stdout.idx        header r₀ r₁ r₂
    web.stdout.1      the segment before        web.stdout.1.idx      its index

An index is a header of 16 bytes and a record of 16 bytes for each line: where the line starts, and
its sequence number.  The fields are `u64` in the file; here they are naturals, since an offset
past `2^64` takes a file no disk holds.  Only the current segment's index has a writer, and what that
writer has buffered is not in the file yet.
-/

namespace AgentProcs

/-! ## Names -/

/-- A file of the log directory. -/
abbrev FileName := List Char

/-- The parts before and after the last dot. -/
def rsplitDot : FileName → Option (FileName × FileName)
  | [] => none
  | c :: cs =>
    match rsplitDot cs with
    | some (stem, ext) => some (c :: stem, ext)
    | none => if c = '.' then some ([], cs) else none

/-- The part before the last dot; a leading dot is part of the stem. -/
def fileStem (f : FileName) : FileName :=
  match rsplitDot f with
  | some (c :: stem, _) => c :: stem
  | _ => f

/-- The part after the last dot, if anything precedes that dot. -/
def extension (f : FileName) : FileName :=
  match rsplitDot f with
  | some (_ :: _, ext) => ext
  | _ => []

/-- The directory above: it has neither a stem nor an extension, and nothing renames it. -/
def PARENT_DIR : FileName := ['.', '.']

/-- The name up to its last dot, where it has an extension. -/
def tillDot (f : FileName) : FileName :=
  match rsplitDot f with
  | some (c :: stem, _) => (c :: stem) ++ ['.']
  | _ => f

def setExtension (f ext : FileName) : FileName :=
  if f = PARENT_DIR then f
  else if ext = [] then fileStem f
  else fileStem f ++ '.' :: ext

/-- A copy of the name up to its dot is given the extension; of `.` and an extension that copy is
the directory above. -/
def withExtension (f ext : FileName) : FileName := setExtension (tillDot f) ext

/-- Appends `.idx`. -/
def idxPathFor (logPath : FileName) : FileName := logPath ++ ['.', 'i', 'd', 'x']

/-- The `i`-th rotated segment of a log. -/
def rotatedPath (logPath : FileName) (i : ℕ) : FileName :=
  withExtension logPath (extension logPath ++ '.' :: (toString i).toList)

/-! ## Contents -/

def HEADER_SIZE : ℕ := 16

def RECORD_SIZE : ℕ := 16

/-- Maps a line to where it starts and to its sequence number. -/
structure IndexRecord where
  byteOffset : ℕ
  seq : ℕ
  deriving DecidableEq, Repr

/-- A file is text, or an index: a valid header with its first sequence number, and records. -/
inductive Content where
  | text (bytes : List UInt8)
  | index (seqBase : ℕ) (records : List IndexRecord)
  deriving DecidableEq, Repr

namespace Content

def len : Content → ℕ
  | text bytes => bytes.length
  | index _ records => HEADER_SIZE + RECORD_SIZE * records.length

/-- The bytes of a text file. -/
def bytes : Content → List UInt8
  | text bytes => bytes
  | index _ _ => []

def appendBytes (more : List UInt8) : Content → Content
  | text bytes => text (bytes ++ more)
  | c => c

def appendRecords (more : List IndexRecord) : Content → Content
  | index seqBase records => index seqBase (records ++ more)
  | c => c

end Content

/-- The log directory. -/
abbrev Disk := FileSystem FileName Content

/-! ## Writing -/

/-- The writer of an index: its file, and the records it has not written yet. -/
structure IndexWriter where
  file : ℕ
  buffer : List IndexRecord
  deriving DecidableEq, Repr

namespace IndexWriter

/-- A new index; its header is written at once. -/
def create (path : FileName) (seqBase : ℕ) (disk : Disk) : IndexWriter × Disk :=
  (⟨(disk.create path (.index seqBase [])).1, []⟩, (disk.create path (.index seqBase [])).2)

/-- The record goes to the buffer, which holds far more than is ever left unflushed. -/
def append (record : IndexRecord) (w : IndexWriter) : IndexWriter :=
  { w with buffer := w.buffer ++ [record] }

def flush (w : IndexWriter) (disk : Disk) : IndexWriter × Disk :=
  ({ w with buffer := [] }, disk.modify w.file (Content.appendRecords w.buffer))

end IndexWriter

/-! ## Reading -/

structure IndexReader where
  lineCount : ℕ
  seqBase : ℕ
  /-- The file behind its header. -/
  records : List IndexRecord
  deriving DecidableEq, Repr

namespace IndexReader

/-- `none` where the file is missing or has no valid header. -/
def openAt (path : FileName) (disk : Disk) : Option IndexReader :=
  match disk.read path with
  | some (.index seqBase records) =>
    some ⟨((Content.index seqBase records).len - HEADER_SIZE) / RECORD_SIZE, seqBase, records⟩
  | _ => none

/-- Records `[start..start+count)`, clamped to the available lines. -/
def readRange (start count : ℕ) (r : IndexReader) : List IndexRecord :=
  (r.records.drop start).take (min (start + count) r.lineCount - start)

/-- The line count from the length of the file alone; `none` where there is no file. -/
def lineCountFromMetadata (path : FileName) (disk : Disk) : Option ℕ :=
  (disk.read path).map fun c =>
    if c.len < HEADER_SIZE then 0 else (c.len - HEADER_SIZE) / RECORD_SIZE

end IndexReader

/-! ## The names of one stream's files

The segments of a log are numbered from 0, the current one. -/

section Names

/-- Segment `i`. -/
def logName (logPath : FileName) : ℕ → FileName
  | 0 => logPath
  | i + 1 => rotatedPath logPath (i + 1)

/-- The index of segment `i`. -/
def idxName (logPath : FileName) (i : ℕ) : FileName := idxPathFor (logName logPath i)

/-- What distinguishes segment `i`. -/
def segmentSuffix (sep : FileName) : ℕ → FileName
  | 0 => []
  | i + 1 => sep ++ (toString (i + 1)).toList

/-- A file is not its own index. -/
theorem ne_idxPathFor (f : FileName) : f ≠ idxPathFor f := by
  intro h
  have hlen := congrArg List.length h
  simp [idxPathFor] at hlen

/-- A name that is a stem, neither empty nor a dot, and an extension. -/
def HasExtension (f : FileName) : Prop :=
  ∃ c stem ext, '.' ∉ ext ∧ c :: stem ≠ ['.'] ∧ f = (c :: stem) ++ '.' :: ext

/-- **Rotating only appends to the name**: dots, and a number. -/
def Rotatable (f : FileName) : Prop :=
  ∃ sep, sep ≠ [] ∧ (∀ c ∈ sep, c = '.') ∧ ∀ i, rotatedPath f i = f ++ (sep ++ (toString i).toList)

theorem rsplitDot_eq_none {f : FileName} (h : '.' ∉ f) : rsplitDot f = none := by
  induction f with
  | nil => rfl
  | cons c cs ih =>
    obtain ⟨hc, hcs⟩ := not_or.mp (mt List.mem_cons.mpr h)
    rw [rsplitDot, ih hcs]
    exact if_neg (Ne.symm hc)

theorem rsplitDot_append {ext : FileName} (h : '.' ∉ ext) :
    ∀ stem : FileName, rsplitDot (stem ++ '.' :: ext) = some (stem, ext)
  | [] => by
    rw [List.nil_append, rsplitDot, rsplitDot_eq_none h]
    rfl
  | c :: stem => by rw [List.cons_append, rsplitDot, rsplitDot_append h stem]

theorem extension_append {ext : FileName} (h : '.' ∉ ext) (c : Char) (stem : FileName) :
    extension (c :: stem ++ '.' :: ext) = ext := by rw [extension, rsplitDot_append h]

/-- The part behind the dot is replaced. -/
theorem withExtension_append {ext more : FileName} (h : '.' ∉ ext) {c : Char} {stem : FileName}
    (hstem : c :: stem ≠ ['.']) (hmore : more ≠ []) :
    withExtension (c :: stem ++ '.' :: ext) more = c :: stem ++ '.' :: more := by
  have htill : tillDot (c :: stem ++ '.' :: ext) = c :: stem ++ ['.'] := by
    rw [tillDot, rsplitDot_append h]
  have hparent : c :: stem ++ ['.'] ≠ PARENT_DIR := fun heq =>
    hstem (List.append_cancel_right (heq : c :: stem ++ ['.'] = ['.'] ++ ['.']))
  have hkept : fileStem (c :: stem ++ ['.']) = c :: stem := by
    rw [fileStem, rsplitDot_append List.not_mem_nil]
  rw [withExtension, htill, setExtension, if_neg hparent, if_neg hmore, hkept]

/-- A name with an extension but no stem counts as one without extension. -/
theorem extension_noStem {ext : FileName} (h : '.' ∉ ext) : extension ('.' :: ext) = [] := by
  rw [extension, ← List.nil_append ('.' :: ext), rsplitDot_append h]

theorem withExtension_noStem {ext more : FileName} (h : '.' ∉ ext) (hmore : more ≠ []) :
    withExtension ('.' :: ext) more = '.' :: ext ++ '.' :: more := by
  have hsplit : rsplitDot ('.' :: ext) = some ([], ext) := rsplitDot_append h []
  have htill : tillDot ('.' :: ext) = '.' :: ext := by rw [tillDot, hsplit]
  have hparent : '.' :: ext ≠ PARENT_DIR := fun heq =>
    h ((List.cons.inj heq).2 ▸ List.mem_singleton_self '.')
  have hkept : fileStem ('.' :: ext) = '.' :: ext := by rw [fileStem, hsplit]
  rw [withExtension, htill, setExtension, if_neg hparent, if_neg hmore, hkept]

/-- **A dot and an extension**: whatever the new extension is, the path is the directory above. -/
theorem withExtension_dot {ext : FileName} (h : '.' ∉ ext) (more : FileName) :
    withExtension ('.' :: '.' :: ext) more = PARENT_DIR := by
  have htill : tillDot ('.' :: '.' :: ext) = PARENT_DIR := by
    rw [tillDot, show '.' :: '.' :: ext = ['.'] ++ '.' :: ext from rfl, rsplitDot_append h]
    rfl
  rw [withExtension, htill, setExtension, if_pos rfl]

variable {path : FileName} {i j : ℕ}

theorem rotatedPath_eq (h : HasExtension path) :
    rotatedPath path i = path ++ '.' :: (toString i).toList := by
  obtain ⟨c, stem, ext, hext, hstem, rfl⟩ := h
  rw [rotatedPath, extension_append hext, withExtension_append hext hstem (by simp)]
  simp

theorem HasExtension.rotatable (h : HasExtension path) : Rotatable path :=
  ⟨['.'], by simp, by simp, fun _ => rotatedPath_eq h⟩

theorem rotatable_of_noStem {ext : FileName} (h : '.' ∉ ext) : Rotatable ('.' :: ext) := by
  refine ⟨['.', '.'], by simp, by simp, fun i => ?_⟩
  rw [rotatedPath, extension_noStem h, withExtension_noStem h (by simp)]
  simp

theorem toString_toList (n : ℕ) : (toString n).toList = Nat.toDigits 10 n := by
  rw [Nat.toString_eq_ofList_toDigits, String.toList_ofList]

theorem toString_injective {m n : ℕ} (h : toString m = toString n) : m = n := by
  have hdigits := congrArg String.toList h
  rw [toString_toList, toString_toList] at hdigits
  rw [← Nat.ofDigitChars_ten_toDigits (n := m), hdigits, Nat.ofDigitChars_ten_toDigits]

/-- Only digits and dots tell segments apart. -/
theorem mem_segmentSuffix {sep : FileName} (hsep : ∀ c ∈ sep, c = '.') {c : Char}
    (h : c ∈ segmentSuffix sep i) : c = '.' ∨ c.isDigit := by
  cases i with
  | zero => exact absurd h List.not_mem_nil
  | succ i =>
    refine (List.mem_append.mp h).imp (hsep c) fun hc => ?_
    rw [toString_toList] at hc
    exact Nat.isDigit_of_mem_toDigits (by omega) (by omega) hc

theorem segmentSuffix_injective {sep : FileName} (hsep : sep ≠ []) :
    (segmentSuffix sep).Injective := by
  intro i j h
  cases i with
  | zero => cases j with
    | zero => rfl
    | succ j => exact absurd h.symm (List.append_ne_nil_of_left_ne_nil hsep _)
  | succ i => cases j with
    | zero => exact absurd h (List.append_ne_nil_of_left_ne_nil hsep _)
    | succ j =>
      exact toString_injective (String.toList_inj.mp (List.append_cancel_left h))

theorem Rotatable.logName_eq (h : Rotatable path) : ∃ sep, sep ≠ [] ∧ (∀ c ∈ sep, c = '.') ∧
    ∀ i, logName path i = path ++ segmentSuffix sep i := by
  obtain ⟨sep, hne, hdots, heq⟩ := h
  refine ⟨sep, hne, hdots, fun i => ?_⟩
  cases i with
  | zero => exact (List.append_nil path).symm
  | succ i => exact heq (i + 1)

theorem logName_injective (h : Rotatable path) : (logName path).Injective := by
  intro i j hij
  obtain ⟨sep, hne, -, heq⟩ := h.logName_eq
  rw [heq, heq] at hij
  exact segmentSuffix_injective hne (List.append_cancel_left hij)

theorem idxName_injective (h : Rotatable path) : (idxName path).Injective := fun _ _ hij =>
  logName_injective h (List.append_cancel_right hij)

/-- No segment is an index. -/
theorem logName_ne_idxName (h : Rotatable path) (i j : ℕ) : logName path i ≠ idxName path j := by
  intro hij
  obtain ⟨sep, -, hdots, heq⟩ := h.logName_eq
  rw [idxName, idxPathFor, heq, heq, List.append_assoc] at hij
  have hx : 'x' ∈ segmentSuffix sep i := by
    rw [List.append_cancel_left hij]
    simp
  exact absurd (mem_segmentSuffix hdots hx) (by decide)

variable {C : Type*} (d : Directory FileName C) (v : Option C)

theorem update_log_comp_logName (h : Rotatable path) :
    Function.update d path v ∘ logName path = Function.update (d ∘ logName path) 0 v :=
  Function.update_comp_eq_of_injective d (logName_injective h) 0 v

theorem update_log_comp_idxName (h : Rotatable path) :
    Function.update d path v ∘ idxName path = d ∘ idxName path :=
  Function.update_comp_eq_of_forall_ne d v fun i => (logName_ne_idxName h 0 i).symm

theorem update_idx_comp_idxName (h : Rotatable path) :
    Function.update d (idxPathFor path) v ∘ idxName path =
      Function.update (d ∘ idxName path) 0 v :=
  Function.update_comp_eq_of_injective d (idxName_injective h) 0 v

theorem update_idx_comp_logName (h : Rotatable path) :
    Function.update d (idxPathFor path) v ∘ logName path = d ∘ logName path :=
  Function.update_comp_eq_of_forall_ne d v fun i => logName_ne_idxName h i 0

end Names

end AgentProcs
