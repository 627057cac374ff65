import AgentProcs.Logs.LogWriter

/-!
# Logs/Pairing — a log moves up, and its index with it

    web.stdout.4                        web.stdout.5      the lines of .4
    web.stdout.5  web.stdout.5.idx  ──▸ web.stdout.5.idx  the lines of the old .5

A rotation renames each log and its index by itself, and does not ask whether there is one.  The
index of the oldest log is only replaced by another index, so it outlives its log when the log that
takes its place comes without one.
-/

namespace AgentProcs

/-- `u32::MAX` -/
def U32_MAX : ℕ := 2 ^ 32 - 1

/-- `rotate_log_files`: the number past the last one is a `u32` too, and it panics without one. -/
def rotateLogFilesU32 (logPath : FileName) (maxRotatedFiles : ℕ) (disk : Disk) : Option Disk :=
  if maxRotatedFiles < U32_MAX then some (rotateLogFiles logPath maxRotatedFiles disk) else none

/-- The index has a record for each line of the log, where it starts. -/
def Content.Describes (index log : Content) : Prop :=
  match index, log with
  | .index _ records, .text bytes =>
    records.map (·.byteOffset) = lineStarts 0 (splitLines NEWLINE bytes)
  | _, _ => False

instance (index log : Content) : Decidable (index.Describes log) := by
  unfold Content.Describes
  split <;> infer_instance

/-- Each index there is describes the log beside it. -/
def PairedAt (describes : Content → Content → Prop) (path : FileName) (disk : Disk) : Prop :=
  ∀ i index, disk.read (idxName path i) = some index →
    ∃ log, disk.read (logName path i) = some log ∧ describes index log

/-- **A rotation that keeps `n` logs**: each moves up by one, with its index. -/
structure Rotates (describes : Content → Content → Prop) (path : FileName) (n : ℕ)
    (disk disk' : Disk) : Prop where
  logs : ∀ i < n, ∀ c, disk.read (logName path i) = some c →
    disk'.read (logName path (i + 1)) = some c
  indexes : ∀ i < n, ∀ c, disk.read (idxName path i) = some c →
    disk'.read (idxName path (i + 1)) = some c
  /-- Nothing but the last log and the one past it is lost. -/
  kept : ∀ f c, disk.read f = some c →
    (∀ i, i = n ∨ i = n + 1 → f ≠ logName path i ∧ f ≠ idxName path i) → ∃ f', disk'.read f' = some c
  free : disk'.read path = none ∧ disk'.read (idxPathFor path) = none
  untouched : ∀ f, (∀ i ≤ n + 1, f ≠ logName path i ∧ f ≠ idxName path i) →
    disk'.read f = disk.read f
  paired : PairedAt describes path disk'

section Rotate

variable {describes : Content → Content → Prop} {path : FileName} {n : ℕ} {disk : Disk}

theorem read_logName_rotateLogFiles (h : Rotatable path) (i : ℕ) :
    (rotateLogFiles path n disk).read (logName path i) =
      Directory.rotate n (disk.read ∘ logName path) i := by
  have hcomp := Directory.rotateBoth_comp_left (d := disk.read) (n := n) (logName_injective h)
    (logName_ne_idxName h)
  rw [read_rotateLogFiles h]
  exact congrFun hcomp i

theorem read_idxName_rotateLogFiles (h : Rotatable path) (i : ℕ) :
    (rotateLogFiles path n disk).read (idxName path i) =
      Directory.rotate n (disk.read ∘ idxName path) i := by
  have hcomp := Directory.rotateBoth_comp_right (d := disk.read) (n := n) (idxName_injective h)
    (logName_ne_idxName h)
  rw [read_rotateLogFiles h]
  exact congrFun hcomp i

/-- A file that is none of the log's is not touched. -/
theorem read_rotateLogFiles_of_ne (h : Rotatable path) {f : FileName}
    (hlog : ∀ i, f ≠ logName path i) (hidx : ∀ i, f ≠ idxName path i) :
    (rotateLogFiles path n disk).read f = disk.read f := by
  have hcomp := Directory.rotateBoth_comp_of_ne (d := disk.read) (n := n) (r := fun _ : Unit => f)
    (fun _ => hlog) fun _ => hidx
  rw [read_rotateLogFiles h]
  exact congrFun hcomp ()

theorem rotate_succ_of_lt {d : Directory ℕ Content} {i : ℕ} {c : Content} (hi : i < n)
    (hc : d i = some c) : Directory.rotate n d (i + 1) = some c := by
  rw [Directory.rotate_apply (by omega), if_neg (by omega)]
  split_ifs with hlast hlt
  · rw [← hlast, Nat.add_sub_cancel, hc, Option.some_or]
  · exact hc
  · omega

/-- Past the logs a rotation concerns, nothing moves. -/
theorem rotate_of_lt {d : Directory ℕ Content} {i : ℕ} (hn : 0 < n) (hi : n + 1 < i) :
    Directory.rotate n d i = d i := by
  rw [Directory.rotate_apply hn, if_neg (by omega), if_neg (by omega), if_neg (by omega)]

theorem pairedAt_rotateLogFiles_iff (h : Rotatable path) (hn : 0 < n)
    (hpaired : PairedAt describes path disk) :
    PairedAt describes path (rotateLogFiles path n disk) ↔
      ∀ log index, disk.read (logName path (n - 1)) = some log →
        disk.read (idxName path (n - 1)) = none → disk.read (idxName path n) = some index →
          describes index log := by
  have hiff := Directory.paired_rotate_iff describes hn
    (hpaired : Directory.Paired describes (disk.read ∘ logName path) (disk.read ∘ idxName path))
  simp only [PairedAt, read_logName_rotateLogFiles h, read_idxName_rotateLogFiles h]
  exact hiff

theorem rotates_iff_paired (h : Rotatable path) (hn : 0 < n) :
    Rotates describes path n disk (rotateLogFiles path n disk) ↔
      PairedAt describes path (rotateLogFiles path n disk) := by
  refine ⟨fun hrot => hrot.paired, fun hpaired => ?_⟩
  have hlogs : ∀ i < n, ∀ c, disk.read (logName path i) = some c →
      (rotateLogFiles path n disk).read (logName path (i + 1)) = some c := fun i hi c hc => by
    rw [read_logName_rotateLogFiles h]
    exact rotate_succ_of_lt hi hc
  have hindexes : ∀ i < n, ∀ c, disk.read (idxName path i) = some c →
      (rotateLogFiles path n disk).read (idxName path (i + 1)) = some c := fun i hi c hc => by
    rw [read_idxName_rotateLogFiles h]
    exact rotate_succ_of_lt hi hc
  have huntouched : ∀ f, (∀ i ≤ n + 1, f ≠ logName path i ∧ f ≠ idxName path i) →
      (rotateLogFiles path n disk).read f = disk.read f := fun f hf => by
    by_cases hlog : ∃ i, f = logName path i
    · obtain ⟨i, rfl⟩ := hlog
      have hi : n + 1 < i := by
        by_contra hle
        exact (hf i (by omega)).1 rfl
      rw [read_logName_rotateLogFiles h, rotate_of_lt hn hi, Function.comp_apply]
    by_cases hidx : ∃ i, f = idxName path i
    · obtain ⟨i, rfl⟩ := hidx
      have hi : n + 1 < i := by
        by_contra hle
        exact (hf i (by omega)).2 rfl
      rw [read_idxName_rotateLogFiles h, rotate_of_lt hn hi, Function.comp_apply]
    · exact read_rotateLogFiles_of_ne h (fun i hi => hlog ⟨i, hi⟩) fun i hi => hidx ⟨i, hi⟩
  refine ⟨hlogs, hindexes, fun f c hc hf => ?_, ⟨?_, ?_⟩, huntouched, hpaired⟩
  · -- the file is moved, or it is not touched
    by_cases hmoved : ∃ i < n, f = logName path i ∨ f = idxName path i
    · obtain ⟨i, hi, rfl | rfl⟩ := hmoved
      · exact ⟨_, hlogs i hi c hc⟩
      · exact ⟨_, hindexes i hi c hc⟩
    · refine ⟨f, (huntouched f fun i hi => ?_).trans hc⟩
      rcases Nat.lt_or_ge i n with hlt | hge
      · exact ⟨fun heq => hmoved ⟨i, hlt, .inl heq⟩, fun heq => hmoved ⟨i, hlt, .inr heq⟩⟩
      · exact hf i (by omega)
  · exact (read_logName_rotateLogFiles h 0).trans (Directory.rotate_zero _ _)
  · exact (read_idxName_rotateLogFiles h 0).trans (Directory.rotate_zero _ _)

end Rotate

/-! ## The process called `.`

Its rotated logs would all be the directory above, and their indexes one file. -/

section Dot

variable {describes : Content → Content → Prop} {stream : Stream} {n i : ℕ} {disk : Disk}

theorem logName_dot (stream : Stream) (i : ℕ) :
    logName (logPathOf "." stream) (i + 1) = PARENT_DIR :=
  withExtension_dot stream.dot_notMem_extension _

theorem shiftSegments_dot (m : ℕ) (disk : Disk) :
    (shiftSegments (logPathOf "." stream) m disk).read = disk.read := by
  induction m generalizing disk with
  | zero => rfl
  | succ m ih =>
    have hsame : rotatedPath (logPathOf "." stream) (m + 1) = PARENT_DIR ∧
        rotatedPath (logPathOf "." stream) (m + 2) = PARENT_DIR :=
      ⟨logName_dot stream m, logName_dot stream (m + 1)⟩
    rw [shiftSegments, ih, renameSegment, hsame.1, hsame.2,
      renameFile_of_ne (idxPathFor_ne_parent _), renameFile, if_pos rfl, FileSystem.read_rename]
    exact Directory.rename_self _ _

/-- Its current log stays where it is, and the index of that log is lost. -/
theorem read_rotateLogFiles_dot (disk : Disk) :
    (rotateLogFiles (logPathOf "." stream) n disk).read = Directory.remove (idxPathFor PARENT_DIR)
      (Directory.remove PARENT_DIR (Directory.rename (idxPathFor (logPathOf "." stream))
        (idxPathFor PARENT_DIR) disk.read)) := by
  have hsame (i : ℕ) : rotatedPath (logPathOf "." stream) (i + 1) = PARENT_DIR :=
    logName_dot stream i
  simp only [rotateLogFiles, hsame, renameSegment, renameFile_of_ne (idxPathFor_ne_parent _),
    FileSystem.read_remove, FileSystem.read_rename]
  rw [renameFile, if_pos rfl, shiftSegments_dot]

/-- Its log survives where it was. -/
theorem read_log_rotateLogFiles_dot (disk : Disk) :
    (rotateLogFiles (logPathOf "." stream) n disk).read (logPathOf "." stream) =
      disk.read (logPathOf "." stream) := by
  have hne : logPathOf "." stream ≠ idxPathFor PARENT_DIR ∧ logPathOf "." stream ≠ PARENT_DIR ∧
      logPathOf "." stream ≠ idxPathFor (logPathOf "." stream) := by cases stream <;> decide
  rw [read_rotateLogFiles_dot, Directory.remove, Function.update_of_ne hne.1, Directory.remove,
    Function.update_of_ne hne.2.1, Directory.rename_apply, if_neg hne.1, if_neg hne.2.2, ite_self]

/-- Where there is no log of it, there is no index either. -/
theorem read_idxName_dot (hparent : disk.read PARENT_DIR = none)
    (hpaired : PairedAt describes (logPathOf "." stream) disk)
    (hnone : disk.read (logPathOf "." stream) = none) (i : ℕ) :
    disk.read (logName (logPathOf "." stream) i) = none ∧
      disk.read (idxName (logPathOf "." stream) i) = none := by
  have hlog : disk.read (logName (logPathOf "." stream) i) = none := by
    cases i with
    | zero => exact hnone
    | succ i =>
      rw [logName_dot]
      exact hparent
  refine ⟨hlog, ?_⟩
  by_contra hsome
  obtain ⟨index, hindex⟩ := Option.ne_none_iff_exists'.mp hsome
  obtain ⟨log, hlog', -⟩ := hpaired i index hindex
  exact absurd (hlog.symm.trans hlog') (by simp)

/-- A rotation changes nothing then. -/
theorem read_rotateLogFiles_dot_of_none (hparent : disk.read PARENT_DIR = none)
    (hpaired : PairedAt describes (logPathOf "." stream) disk)
    (hnone : disk.read (logPathOf "." stream) = none) :
    (rotateLogFiles (logPathOf "." stream) n disk).read = disk.read := by
  have hcurrent : disk.read (idxPathFor (logPathOf "." stream)) = none :=
    (read_idxName_dot hparent hpaired hnone 0).2
  have hlast : disk.read (idxPathFor PARENT_DIR) = none :=
    logName_dot stream 0 ▸ (read_idxName_dot hparent hpaired hnone 1).2
  rw [read_rotateLogFiles_dot, Directory.rename_of_none hcurrent, Directory.remove_of_none hparent,
    Directory.remove_of_none hlast]

theorem rotates_dot_iff (hparent : disk.read PARENT_DIR = none)
    (hpaired : PairedAt describes (logPathOf "." stream) disk) :
    Rotates describes (logPathOf "." stream) n disk (rotateLogFiles (logPathOf "." stream) n disk) ↔
      disk.read (logPathOf "." stream) = none := by
  refine ⟨fun hrot => (read_log_rotateLogFiles_dot disk).symm.trans hrot.free.1, fun hnone => ?_⟩
  have hsame := read_rotateLogFiles_dot_of_none (n := n) hparent hpaired hnone
  have hempty := read_idxName_dot hparent hpaired hnone
  exact {
    logs := fun i _ c hc => absurd ((hempty i).1.symm.trans hc) (by simp)
    indexes := fun i _ c hc => absurd ((hempty i).2.symm.trans hc) (by simp)
    kept := fun f c hc _ => ⟨f, (congrFun hsame f).trans hc⟩
    free := ⟨(congrFun hsame _).trans hnone, (congrFun hsame _).trans (hempty 0).2⟩
    untouched := fun f _ => congrFun hsame f
    paired := by
      rw [PairedAt, hsame]
      exact hpaired }

end Dot

/-- **A rotation keeps the pairs together exactly when** there is a number past the last, and a log
that becomes the last one comes with its index, replaces none, or is described by the one there.  A
process called `.` must have no log to rotate. -/
theorem rotates_iff (describes : Content → Content → Prop) (name : String) (stream : Stream)
    (n : ℕ) (hn : 1 ≤ n) (disk : Disk) (hparent : disk.read PARENT_DIR = none)
    (hpaired : PairedAt describes (logPathOf name stream) disk) :
    (∃ disk', rotateLogFilesU32 (logPathOf name stream) n disk = some disk' ∧
      Rotates describes (logPathOf name stream) n disk disk') ↔
    n < U32_MAX ∧ (name = "." → disk.read (logPathOf name stream) = none) ∧
      ∀ log index, disk.read (logName (logPathOf name stream) (n - 1)) = some log →
        disk.read (idxName (logPathOf name stream) (n - 1)) = none →
          disk.read (idxName (logPathOf name stream) n) = some index → describes index log := by
  have hrotates : Rotates describes (logPathOf name stream) n disk
      (rotateLogFiles (logPathOf name stream) n disk) ↔
      (name = "." → disk.read (logPathOf name stream) = none) ∧
      ∀ log index, disk.read (logName (logPathOf name stream) (n - 1)) = some log →
        disk.read (idxName (logPathOf name stream) (n - 1)) = none →
          disk.read (idxName (logPathOf name stream) n) = some index → describes index log := by
    by_cases hdot : name = "."
    · subst hdot
      rw [rotates_dot_iff hparent hpaired]
      refine ⟨fun hnone => ⟨fun _ => hnone, fun log index _ _ hindex => ?_⟩, fun h => h.1 rfl⟩
      obtain ⟨log', hlog', -⟩ := hpaired n index hindex
      obtain ⟨m, rfl⟩ := Nat.exists_eq_add_of_le' hn
      rw [logName_dot] at hlog'
      exact absurd (hparent.symm.trans hlog') (by simp)
    · have hrot := rotatable_logPathOf hdot stream
      rw [rotates_iff_paired hrot hn, pairedAt_rotateLogFiles_iff hrot hn hpaired]
      exact (and_iff_right fun h => absurd h hdot).symm
  rw [← hrotates, rotateLogFilesU32]
  split_ifs with hlt
  · simp [hlt]
  · simp [hlt]

/-! ## An index that outlives its log -/

/-- A log without an index, and behind it one of two lines that has one. -/
def gapDisk : Disk :=
  ((((FileSystem.empty (.text [])).create (logName (logPathOf "web" .stdout) 4)
    (.text [99, 10])).2.create (logName (logPathOf "web" .stdout) 5) (.text [97, 10, 98, 10])).2.create
      (idxName (logPathOf "web" .stdout) 5) (.index 0 [⟨0, 0⟩, ⟨2, 1⟩])).2

theorem rotatable_web : Rotatable (logPathOf "web" .stdout) :=
  rotatable_logPathOf (by decide) .stdout

theorem read_idxName_gapDisk (i : ℕ) : gapDisk.read (idxName (logPathOf "web" .stdout) i) =
    if i = 5 then some (.index 0 [⟨0, 0⟩, ⟨2, 1⟩]) else none := by
  have hlog : ∀ j, idxName (logPathOf "web" .stdout) i ≠ logName (logPathOf "web" .stdout) j :=
    fun j => (logName_ne_idxName rotatable_web j i).symm
  simp only [gapDisk, FileSystem.read_create, Function.update_apply,
    (idxName_injective rotatable_web).eq_iff, hlog, if_false]
  rfl

theorem read_logName_gapDisk (i : ℕ) : gapDisk.read (logName (logPathOf "web" .stdout) i) =
    if i = 5 then some (.text [97, 10, 98, 10]) else if i = 4 then some (.text [99, 10]) else none := by
  simp only [gapDisk, FileSystem.read_create, Function.update_apply,
    (logName_injective rotatable_web).eq_iff, logName_ne_idxName rotatable_web, if_false]
  rfl

theorem pairedAt_gapDisk : PairedAt Content.Describes (logPathOf "web" .stdout) gapDisk := by
  intro i index hidx
  rw [read_idxName_gapDisk] at hidx
  split_ifs at hidx with hi
  obtain rfl := Option.some.inj hidx
  refine ⟨.text [97, 10, 98, 10], by rw [read_logName_gapDisk, if_pos hi], ?_⟩
  decide

/-- **The index of two lines ends up beside a log of one.** -/
theorem not_rotates_gap : PairedAt Content.Describes (logPathOf "web" .stdout) gapDisk ∧
    ¬∃ disk', rotateLogFilesU32 (logPathOf "web" .stdout) DEFAULT_MAX_ROTATED_FILES gapDisk =
      some disk' ∧ Rotates Content.Describes (logPathOf "web" .stdout) DEFAULT_MAX_ROTATED_FILES
        gapDisk disk' := by
  refine ⟨pairedAt_gapDisk, fun ⟨disk', hdisk, hrot⟩ => ?_⟩
  obtain rfl : rotateLogFiles (logPathOf "web" .stdout) 5 gapDisk = disk' := Option.some.inj hdisk
  have hstale := (pairedAt_rotateLogFiles_iff rotatable_web (by decide)
    pairedAt_gapDisk).mp hrot.paired
  have hdescribes := hstale (.text [99, 10]) (.index 0 [⟨0, 0⟩, ⟨2, 1⟩])
    (read_logName_gapDisk 4) (read_idxName_gapDisk 4) (read_idxName_gapDisk 5)
  exact absurd hdescribes (by decide)

/-- One number more, and both logs move up. -/
theorem rotates_gap : ∃ disk', rotateLogFilesU32 (logPathOf "web" .stdout) 6 gapDisk = some disk' ∧
    Rotates Content.Describes (logPathOf "web" .stdout) 6 gapDisk disk' := by
  refine (rotates_iff Content.Describes "web" .stdout 6 (by decide) gapDisk (by decide)
    pairedAt_gapDisk).mpr ⟨by decide, by decide, fun log index _ _ hindex => ?_⟩
  rw [read_idxName_gapDisk, if_neg (by decide)] at hindex
  cases hindex

end AgentProcs
