import AgentProcs.Logs.Incarnations
import AgentProcs.Logs.Naming
import AgentProcs.Logs.TornWrites
import Mathlib.Algebra.Order.BigOperators.Group.Finset

/-!
# Logs/DiskUse — what the logs take on disk, whatever fails

    spawn    ──────────────────────────▸ create log, create index ──▸ write ⋯ write ──▸ end
    respawn  ──rename ⋯ rename, remove──▸           ⋯                   full │  ▴
                                                 rename ⋯ rename, remove ◂───┘  │
                                                 create log, create index ──────┘

Every stream of every process has a task like this.  The tasks take turns between any two calls, a
rename, a removal, a creation or a write to a log may fail whenever it is tried, and a task may be
aborted at any point.  Nothing of this makes a stream take more than so many bytes: what a task
holds open is its own, and no file of its family grows past the limit or one line.
-/

namespace AgentProcs

/-! ## A rotation, call by call -/

inductive FileCall where
  | rename (source target : FileName)
  | remove (name : FileName)
  deriving DecidableEq, Repr

def FileCall.run : FileCall → Disk → Disk
  | rename source target, disk => renameFile source target disk
  | remove name, disk => disk.remove name

/-- Rename a segment and its index. -/
def renameCalls (source target : FileName) : List FileCall :=
  [.rename source target, .rename (idxPathFor source) (idxPathFor target)]

/-- `for i in (1..=m).rev()`: shift `.i` to `.(i+1)`. -/
def shiftCalls (logPath : FileName) : ℕ → List FileCall
  | 0 => []
  | i + 1 =>
    renameCalls (rotatedPath logPath (i + 1)) (rotatedPath logPath (i + 2)) ++ shiftCalls logPath i

/-- The calls of `rotate_log_files`. -/
def rotateCalls (logPath : FileName) (maxRotatedFiles : ℕ) : List FileCall :=
  let excess := rotatedPath logPath (maxRotatedFiles + 1)
  shiftCalls logPath (maxRotatedFiles - 1) ++ renameCalls logPath (rotatedPath logPath 1) ++
    [.remove excess, .remove (idxPathFor excess)]

theorem run_shiftCalls (logPath : FileName) : ∀ (m : ℕ) (disk : Disk),
    (shiftCalls logPath m).foldl (fun disk call => call.run disk) disk =
      shiftSegments logPath m disk
  | 0, _ => rfl
  | m + 1, disk => by
    rw [shiftCalls, List.foldl_append, run_shiftCalls logPath m]
    rfl

/-- **The calls of a rotation**, when they work, are the rotation. -/
theorem run_rotateCalls (logPath : FileName) (n : ℕ) (disk : Disk) :
    (rotateCalls logPath n).foldl (fun disk call => call.run disk) disk =
      rotateLogFiles logPath n disk := by
  rw [rotateCalls, List.foldl_append, List.foldl_append, run_shiftCalls]
  rfl

/-! ## The tasks -/

/-- One stream of one process.  A process called `.` has no rotated files of its own. -/
structure LogOwner where
  process : ProcessName
  stream : Stream
  named : process.val ≠ "."
  deriving DecidableEq

/-- How far the task of a stream has come.  A rotation is for a line, or before a respawn. -/
inductive LogTask where
  | closed
  | rotating (calls : List FileCall) (line : Option (LogWriteState × String))
  | opening
  | openingIdx (file : ℕ)
  | writing (st : LogWriteState)
  | recreating (st : LogWriteState) (line : String)
  | recreatingIdx (st : LogWriteState) (line : String)

namespace LogTask

def state : LogTask → Option LogWriteState
  | rotating _ line => line.map (·.1)
  | writing st => some st
  | recreating st _ => some st
  | recreatingIdx st _ => some st
  | _ => none

/-- The log file it has open. -/
def file : LogTask → Option ℕ
  | openingIdx file => some file
  | task => task.state.bind (·.file)

/-- What it takes its log to be long. -/
def written (task : LogTask) : ℕ := (task.state.map (·.bytesWritten)).getD 0

/-- The index file it has open. -/
def index (task : LogTask) : Option ℕ := task.state.map (·.idxWriter.file)

end LogTask

/-- The log directory, and everybody who writes there. -/
structure LogDir where
  disk : Disk
  tasks : LogOwner → LogTask
  /-- The length of the longest line so far. -/
  longest : ℕ

namespace LogDir

def goTo (x : LogOwner) (task : LogTask) (d : LogDir) : LogDir :=
  { d with tasks := Function.update d.tasks x task }

/-- Flush the index, and go on. -/
def flush (st : LogWriteState) (d : LogDir) : LogWriteState × LogDir :=
  let r := st.flushIdx ⟨d.disk, 0, []⟩
  (r.1, { d with disk := r.2.disk })

/-- Write a line; what the log stores of it is up to the writes. -/
def emit (ctx : LogContext) (w : Writes) (line : String) (seq : ℕ) (st : LogWriteState)
    (d : LogDir) : LogWriteState × LogDir :=
  let r := st.emitTorn ctx w line ⟨d.disk, seq, []⟩
  (r.1, { d with disk := r.2.disk, longest := max d.longest (lineBytes line) })

end LogDir

inductive LogDirEvent where
  | spawn
  | respawn
  | call (ok : Bool)
  | rotated
  | openLog (ok : Bool)
  | openIdx (ok : Bool)
  | write (line : String)
  | full (line : String)
  | recreateLog (ok : Bool)
  | recreateIdx (ok : Bool)
  | stop
  deriving DecidableEq, Repr

inductive LogDirStep (maxBytes maxRotatedFiles : ℕ) :
    LogDir → LogOwner × LogDirEvent → LogDir → Prop
  | spawn {d : LogDir} {x : LogOwner} (hclosed : d.tasks x = .closed) :
      LogDirStep maxBytes maxRotatedFiles d (x, .spawn) (d.goTo x .opening)
  /-- `rotate_if_exists` -/
  | respawn {d : LogDir} {x : LogOwner} (hclosed : d.tasks x = .closed)
      (hlog : (d.disk.dir (logPathOf x.process x.stream)).isSome = true) :
      LogDirStep maxBytes maxRotatedFiles d (x, .respawn) (d.goTo x
        (.rotating (rotateCalls (logPathOf x.process x.stream) DEFAULT_MAX_ROTATED_FILES) none))
  | call {d : LogDir} {x : LogOwner} {c : FileCall} {calls : List FileCall}
      {line : Option (LogWriteState × String)} (htask : d.tasks x = .rotating (c :: calls) line) :
      LogDirStep maxBytes maxRotatedFiles d (x, .call true)
        ({ d with disk := c.run d.disk }.goTo x (.rotating calls line))
  | callFails {d : LogDir} {x : LogOwner} {c : FileCall} {calls : List FileCall}
      {line : Option (LogWriteState × String)} (htask : d.tasks x = .rotating (c :: calls) line) :
      LogDirStep maxBytes maxRotatedFiles d (x, .call false) (d.goTo x (.rotating calls line))
  | rotated {d : LogDir} {x : LogOwner} (htask : d.tasks x = .rotating [] none) :
      LogDirStep maxBytes maxRotatedFiles d (x, .rotated) (d.goTo x .opening)
  | rotatedFull {d : LogDir} {x : LogOwner} {st : LogWriteState} {line : String}
      (htask : d.tasks x = .rotating [] (some (st, line))) :
      LogDirStep maxBytes maxRotatedFiles d (x, .rotated) (d.goTo x (.recreating st line))
  | openLog {d : LogDir} {x : LogOwner} {file : ℕ} {disk : Disk} (htask : d.tasks x = .opening)
      (hcreate : d.disk.create (logPathOf x.process x.stream) (.text []) = (file, disk)) :
      LogDirStep maxBytes maxRotatedFiles d (x, .openLog true)
        ({ d with disk }.goTo x (.openingIdx file))
  | openLogFails {d : LogDir} {x : LogOwner} (htask : d.tasks x = .opening) :
      LogDirStep maxBytes maxRotatedFiles d (x, .openLog false) (d.goTo x .closed)
  | openIdx {d : LogDir} {x : LogOwner} {file : ℕ} {w : IndexWriter} {disk : Disk}
      (htask : d.tasks x = .openingIdx file)
      (hcreate : IndexWriter.create (idxPathFor (logPathOf x.process x.stream)) 0 d.disk =
        (w, disk)) :
      LogDirStep maxBytes maxRotatedFiles d (x, .openIdx true)
        ({ d with disk }.goTo x (.writing (.start ⟨file, w⟩)))
  | openIdxFails {d : LogDir} {x : LogOwner} {file : ℕ} (htask : d.tasks x = .openingIdx file) :
      LogDirStep maxBytes maxRotatedFiles d (x, .openIdx false) (d.goTo x .closed)
  | write {d d' : LogDir} {x : LogOwner} {st st' : LogWriteState} {w : Writes} {line : String}
      {seq : ℕ} (htask : d.tasks x = .writing st)
      (hfits : ¬st.Overflows (.of x.process x.stream maxBytes maxRotatedFiles) line)
      (hemit : d.emit (.of x.process x.stream maxBytes maxRotatedFiles) w line seq st = (st', d')) :
      LogDirStep maxBytes maxRotatedFiles d (x, .write line) (d'.goTo x (.writing st'))
  | full {d d' : LogDir} {x : LogOwner} {st st' : LogWriteState} {line : String}
      (htask : d.tasks x = .writing st)
      (hfull : st.Overflows (.of x.process x.stream maxBytes maxRotatedFiles) line)
      (hflush : d.flush st = (st', d')) :
      LogDirStep maxBytes maxRotatedFiles d (x, .full line) (d'.goTo x
        (.rotating (rotateCalls (logPathOf x.process x.stream) maxRotatedFiles)
          (some ({ st' with file := none }, line))))
  | recreateLog {d : LogDir} {x : LogOwner} {st : LogWriteState} {line : String} {file : ℕ}
      {disk : Disk} (htask : d.tasks x = .recreating st line)
      (hcreate : d.disk.create (logPathOf x.process x.stream) (.text []) = (file, disk)) :
      LogDirStep maxBytes maxRotatedFiles d (x, .recreateLog true)
        ({ d with disk }.goTo x (.recreatingIdx { st with file := some file } line))
  | recreateLogFails {d : LogDir} {x : LogOwner} {st : LogWriteState} {line : String}
      (htask : d.tasks x = .recreating st line) :
      LogDirStep maxBytes maxRotatedFiles d (x, .recreateLog false) (d.goTo x (.writing st))
  | recreateIdx {d d' : LogDir} {x : LogOwner} {st st' : LogWriteState} {line : String}
      {idxWriter : IndexWriter} {disk : Disk} {w : Writes} {seq : ℕ}
      (htask : d.tasks x = .recreatingIdx st line)
      (hcreate : IndexWriter.create (idxPathFor (logPathOf x.process x.stream)) seq d.disk =
        (idxWriter, disk))
      (hemit : LogDir.emit (.of x.process x.stream maxBytes maxRotatedFiles) w line seq
        ⟨st.file, idxWriter, 0, 0⟩ { d with disk } = (st', d')) :
      LogDirStep maxBytes maxRotatedFiles d (x, .recreateIdx true) (d'.goTo x (.writing st'))
  | recreateIdxFails {d : LogDir} {x : LogOwner} {st : LogWriteState} {line : String}
      (htask : d.tasks x = .recreatingIdx st line) :
      LogDirStep maxBytes maxRotatedFiles d (x, .recreateIdx false) (d.goTo x (.writing st))
  /-- The capture returns, or is aborted; either way its index writer is flushed. -/
  | stop {d d' : LogDir} {x : LogOwner} {st st' : LogWriteState}
      (htask : (d.tasks x).state = some st) (hflush : d.flush st = (st', d')) :
      LogDirStep maxBytes maxRotatedFiles d (x, .stop) (d'.goTo x .closed)
  | stopIdle {d : LogDir} {x : LogOwner} (htask : (d.tasks x).state = none) :
      LogDirStep maxBytes maxRotatedFiles d (x, .stop) (d.goTo x .closed)

/-! ## Whose file it is -/

/-- A file of a stream that has files of its own. -/
structure OwnFile extends LogFile where
  named : process.val ≠ "."

namespace OwnFile

variable {f g : OwnFile}

theorem path_injective (h : f.path = g.path) : f = g := by
  obtain ⟨f, hf⟩ := f
  obtain ⟨g, hg⟩ := g
  obtain rfl := LogFile.path_inj hf h
  rfl

theorem path_ne_parent (f : OwnFile) : f.path ≠ PARENT_DIR := fun h =>
  (LogFile.inDirectory f.named).notParent h

/-- Renaming to it is never refused. -/
theorem run_rename (f g : OwnFile) (disk : Disk) :
    (FileCall.rename f.path g.path).run disk = disk.rename f.path g.path :=
  renameFile_of_ne g.path_ne_parent disk

def owner (f : OwnFile) : LogOwner := ⟨f.process, f.stream, f.named⟩

end OwnFile

/-- A file of a stream's log. -/
def LogOwner.log (x : LogOwner) (i : ℕ) : OwnFile := ⟨⟨x.process, x.stream, i, .log⟩, x.named⟩

/-- A file of a stream's index. -/
def LogOwner.idx (x : LogOwner) (i : ℕ) : OwnFile := ⟨⟨x.process, x.stream, i, .index⟩, x.named⟩

/-- What a file may hold: bytes, or records, up to a limit. -/
def Fits (limit : ℕ) : LogFileKind → Content → Prop
  | .log, c => ∃ bytes, c = .text bytes ∧ bytes.length ≤ limit
  | .index, c => ∃ seqBase records, c = .index seqBase records ∧ records.length ≤ limit

theorem Fits.mono {limit limit' : ℕ} (hle : limit ≤ limit') :
    ∀ {kind : LogFileKind} {c : Content}, Fits limit kind c → Fits limit' kind c
  | .log, _, ⟨bytes, hc, hlen⟩ => ⟨bytes, hc, hlen.trans hle⟩
  | .index, _, ⟨seqBase, records, hc, hlen⟩ => ⟨seqBase, records, hc, hlen.trans hle⟩

/-- The call stays in the family of a stream, and goes no deeper than this. -/
def FileCall.Keeps (x : LogOwner) (deepest : ℕ) : FileCall → Prop
  | rename source target => ∃ f g : OwnFile, f.path = source ∧ g.path = target ∧ f.owner = x ∧
      g.owner = x ∧ f.kind = g.kind ∧ g.segment ≤ deepest
  | remove name => ∃ f : OwnFile, f.path = name ∧ f.owner = x

section Keeps

variable {x : LogOwner} {deepest n : ℕ} {c : FileCall}

theorem keeps_renameCalls {i j : ℕ} (hj : j ≤ deepest)
    (hc : c ∈ renameCalls (x.log i).path (x.log j).path) : c.Keeps x deepest := by
  rcases List.mem_cons.mp hc with rfl | hc
  · exact ⟨x.log i, x.log j, rfl, rfl, rfl, rfl, rfl, hj⟩
  · obtain rfl := List.mem_singleton.mp hc
    exact ⟨x.idx i, x.idx j, rfl, rfl, rfl, rfl, rfl, hj⟩

theorem keeps_shiftCalls : ∀ (m : ℕ), m < deepest →
    ∀ c ∈ shiftCalls (logPathOf x.process x.stream) m, c.Keeps x deepest
  | 0, _, c, hc => absurd hc List.not_mem_nil
  | m + 1, hm, c, hc => by
    rcases List.mem_append.mp hc with hc | hc
    · exact keeps_renameCalls (i := m + 1) (j := m + 2) hm hc
    · exact keeps_shiftCalls m (Nat.lt_of_succ_lt hm) c hc

theorem keeps_rotateCalls (hn : n ≤ deepest) (hpos : 0 < deepest) :
    ∀ c ∈ rotateCalls (logPathOf x.process x.stream) n, c.Keeps x deepest := by
  intro c hc
  rcases List.mem_append.mp hc with hc | hc
  · rcases List.mem_append.mp hc with hc | hc
    · exact keeps_shiftCalls (n - 1) (by omega) c hc
    · exact keeps_renameCalls (i := 0) (j := 1) hpos hc
  · rcases List.mem_cons.mp hc with rfl | hc
    · exact ⟨x.log (n + 1), rfl, rfl⟩
    · obtain rfl := List.mem_singleton.mp hc
      exact ⟨x.idx (n + 1), rfl, rfl⟩

end Keeps

/-! ## Nobody touches what is another's -/

section Confined

variable {x y : LogOwner} {g : Option ℕ} {disk disk' disk'' : Disk} {deepest h : ℕ} {c : FileCall}

/-- What changes on the disk is the files of `x`, under their names, or the open file `g`. -/
structure Confined (x : LogOwner) (g : Option ℕ) (disk disk' : Disk) : Prop where
  next_le : disk.next ≤ disk'.next
  others : ∀ f : OwnFile, f.owner ≠ x → disk'.dir f.path = disk.dir f.path
  names : ∀ (f : OwnFile) (h : ℕ), f.owner = x → disk'.dir f.path = some h →
    disk.next ≤ h ∨ ∃ f' : OwnFile, f'.owner = x ∧ f'.kind = f.kind ∧ disk.dir f'.path = some h
  data : ∀ h < disk.next, (∀ f : OwnFile, f.owner = x → disk.dir f.path ≠ some h) → g ≠ some h →
    disk'.data h = disk.data h

namespace Confined

theorem refl (x : LogOwner) (g : Option ℕ) (disk : Disk) : Confined x g disk disk :=
  ⟨le_rfl, fun _ _ => rfl, fun f _ hf hh => .inr ⟨f, hf, rfl, hh⟩, fun _ _ _ _ => rfl⟩

theorem trans (h₁ : Confined x g disk disk') (h₂ : Confined x g disk' disk'') :
    Confined x g disk disk'' := by
  refine ⟨h₁.next_le.trans h₂.next_le, fun f hf => (h₂.others f hf).trans (h₁.others f hf),
    fun f h hf hh => ?_, fun h hlt hnames hg => ?_⟩
  · rcases h₂.names f h hf hh with hfresh | ⟨f', hf', hkind', hh'⟩
    · exact .inl (h₁.next_le.trans hfresh)
    · rcases h₁.names f' h hf' hh' with hfresh | ⟨f'', hf'', hkind'', hh''⟩
      · exact .inl hfresh
      · exact .inr ⟨f'', hf'', hkind''.trans hkind', hh''⟩
  · refine (h₂.data h (hlt.trans_le h₁.next_le) (fun f hf hh => ?_) hg).trans
      (h₁.data h hlt hnames hg)
    rcases h₁.names f h hf hh with hfresh | ⟨f', hf', -, hh'⟩
    · exact absurd hlt (Nat.not_lt.mpr hfresh)
    · exact hnames f' hf' hh'

theorem create (f : OwnFile) (hf : f.owner = x) (c : Content) :
    Confined x g disk (disk.create f.path c).2 := by
  refine ⟨FileSystem.next_le_create, fun f' hf' => ?_, fun f' h hf' hh => ?_,
    fun h hlt hnames _ => FileSystem.data_create_of_ne (hnames f hf) hlt⟩
  · rw [FileSystem.dir_create]
    refine Function.update_of_ne (fun hpath => hf' ?_) ..
    rw [OwnFile.path_injective hpath, hf]
  · by_cases hlt : h < disk.next
    · exact .inr ⟨f', hf', rfl, FileSystem.dir_of_create hlt hh⟩
    · exact .inl (Nat.not_lt.mp hlt)

theorem modify (hown : (∃ f : OwnFile, f.owner = x ∧ disk.dir f.path = some h) ∨ g = some h)
    (f : Content → Content) : Confined x g disk (disk.modify h f) := by
  refine ⟨le_rfl, fun _ _ => rfl, fun f' _ hf' hh => .inr ⟨f', hf', rfl, hh⟩,
    fun i _ hnames hg => Function.update_of_ne ?_ ..⟩
  rintro rfl
  rcases hown with ⟨f', hf', hh⟩ | hgi
  · exact hnames f' hf' hh
  · exact hg hgi

/-- An open file that is under a name of `x` need not be mentioned. -/
theorem of_named {i : ℕ} (hi : ∃ f : OwnFile, f.owner = x ∧ disk.dir f.path = some i)
    (hconf : Confined x (some i) disk disk') : Confined x g disk disk' := by
  obtain ⟨f, hf, hname⟩ := hi
  refine ⟨hconf.next_le, hconf.others, hconf.names,
    fun h hlt hnames _ => hconf.data h hlt hnames ?_⟩
  rintro ⟨⟩
  exact hnames f hf hname

theorem call (hc : c.Keeps x deepest) : Confined x g disk (c.run disk) := by
  cases c with
  | rename source target =>
    obtain ⟨f, f', rfl, rfl, hf, hf', hkind, -⟩ := hc
    rw [OwnFile.run_rename]
    refine ⟨le_rfl, fun f₀ hf₀ => ?_, fun f₀ h hf₀ hh => ?_, fun _ _ _ _ => rfl⟩
    · have hne (f₁ : OwnFile) (hf₁ : f₁.owner = x) : f₀.path ≠ f₁.path := fun hpath =>
        hf₀ (OwnFile.path_injective hpath ▸ hf₁)
      change Directory.rename f.path f'.path disk.dir f₀.path = _
      rw [Directory.rename_apply, if_neg (hne f' hf'), if_neg (hne f hf), ite_self]
    · change Directory.rename f.path f'.path disk.dir f₀.path = _ at hh
      rw [Directory.rename_apply] at hh
      split_ifs at hh with hsome htarget
      · obtain rfl := OwnFile.path_injective htarget
        exact .inr ⟨f, hf, hkind, hh⟩
      · exact .inr ⟨f₀, hf₀, rfl, hh⟩
      · exact .inr ⟨f₀, hf₀, rfl, hh⟩
  | remove name =>
    obtain ⟨f, rfl, hf⟩ := hc
    refine ⟨le_rfl, fun f₀ hf₀ => Function.update_of_ne (fun hpath => ?_) ..,
      fun f₀ h hf₀ hh => .inr ⟨f₀, hf₀, rfl, FileSystem.dir_of_remove hh⟩, fun _ _ _ _ => rfl⟩
    exact hf₀ (OwnFile.path_injective hpath ▸ hf)

end Confined

end Confined

/-! ## What holds in every reachable state -/

/-- The files of a stream are no deeper than this, and hold no more than that. -/
def Named (limit deepest : ℕ) (disk : Disk) (x : LogOwner) : Prop :=
  ∀ (f : OwnFile) (h : ℕ), f.owner = x → disk.dir f.path = some h →
    f.segment ≤ deepest ∧ Fits limit f.kind (disk.data h)

/-- An index file that is open for the stream `x`, and `written` bytes of its log long at most. -/
structure OpenIndex (disk : Disk) (x : LogOwner) (w : IndexWriter) (written : ℕ) : Prop where
  lt_next : w.file < disk.next
  records : ∃ seqBase records, disk.data w.file = .index seqBase records ∧
    records.length + w.buffer.length ≤ written
  owned : ∀ f : OwnFile, disk.dir f.path = some w.file → f.owner = x ∧ f.kind = .index

/-- A task of `x` has nothing open but its own log and an index of its own. -/
structure Tidy (limit deepest : ℕ) (disk : Disk) (x : LogOwner) (task : LogTask) : Prop where
  calls : ∀ calls line, task = .rotating calls line →
    (∀ c ∈ calls, c.Keeps x deepest) ∧ task.file = none
  file : ∀ h, task.file = some h → disk.dir (x.log 0).path = some h ∧
    ∃ bytes, disk.data h = .text bytes ∧ bytes.length ≤ task.written
  written : task.written ≤ limit
  index : ∀ st, task.state = some st → OpenIndex disk x st.idxWriter st.bytesWritten
  /-- A log that has just been created is empty. -/
  fresh : ∀ st line, task = .recreatingIdx st line → ∀ h, st.file = some h → disk.data h = .text []

section Own

variable {x y : LogOwner} {g : Option ℕ} {disk disk' : Disk} {limit limit' deepest h : ℕ}
  {task : LogTask} {w : IndexWriter} {written : ℕ}

theorem Named.mono (hle : limit ≤ limit') (hn : Named limit deepest disk x) :
    Named limit' deepest disk x := fun f h hf hh =>
  ⟨(hn f h hf hh).1, (hn f h hf hh).2.mono hle⟩

theorem data_create (f : OwnFile) (c : Content) :
    (disk.create f.path c).2.data (disk.create f.path c).1 = c := by
  have hread : (disk.create f.path c).2.read f.path = some c := by
    rw [FileSystem.read_create, Function.update_self]
  rw [FileSystem.read, FileSystem.dir_create, Function.update_self] at hread
  exact Option.some.inj hread

theorem dir_create_self (f : OwnFile) (c : Content) :
    (disk.create f.path c).2.dir f.path = some (disk.create f.path c).1 := by
  rw [FileSystem.dir_create, Function.update_self]

/-- **A creation** gives one file of the family what it is given, and leaves the others. -/
theorem Named.create {f : OwnFile} (hf : f.segment ≤ deepest) {c : Content}
    (hc : Fits limit f.kind c) (hn : Named limit deepest disk x) :
    Named limit deepest (disk.create f.path c).2 x := by
  intro f' h hf' hh
  by_cases hpath : f'.path = f.path
  · obtain rfl := OwnFile.path_injective hpath
    obtain rfl := Option.some.inj ((dir_create_self f' c).symm.trans hh)
    exact ⟨hf, (data_create f' c).symm ▸ hc⟩
  · have hold : disk.dir f'.path = some h := by
      rw [FileSystem.dir_create] at hh
      exact (Function.update_of_ne hpath ..).symm.trans hh
    have hne : disk.dir f.path ≠ some h := fun hfile => hpath (disk.single hold hfile)
    rw [FileSystem.data_create_of_ne hne (disk.lt_next hold)]
    exact hn f' h hf' hold

theorem Named.modify {F : Content → Content} (hn : Named limit deepest disk x)
    (hF : ∀ f : OwnFile, disk.dir f.path = some h → Fits limit f.kind (F (disk.data h))) :
    Named limit deepest (disk.modify h F) x := by
  intro f i hf hi
  refine ⟨(hn f i hf hi).1, ?_⟩
  by_cases hih : i = h
  · subst hih
    change Fits limit f.kind (Function.update disk.data i (F (disk.data i)) i)
    rw [Function.update_self]
    exact hF f hi
  · change Fits limit f.kind (Function.update disk.data h (F (disk.data h)) i)
    rw [Function.update_of_ne hih]
    exact (hn f i hf hi).2

theorem Named.call {c : FileCall} (hc : c.Keeps x deepest) (hn : Named limit deepest disk x) :
    Named limit deepest (c.run disk) x := by
  intro f₀ h hf₀ hh
  cases c with
  | rename source target =>
    obtain ⟨f, f', rfl, rfl, hf, -, hkind, hdeep⟩ := hc
    rw [OwnFile.run_rename] at hh ⊢
    change Directory.rename f.path f'.path disk.dir f₀.path = _ at hh
    rw [Directory.rename_apply] at hh
    split_ifs at hh with hsome htarget
    · obtain rfl := OwnFile.path_injective htarget
      exact ⟨hdeep, hkind ▸ (hn f h hf hh).2⟩
    · exact hn f₀ h hf₀ hh
    · exact hn f₀ h hf₀ hh
  | remove name => exact hn f₀ h hf₀ (FileSystem.dir_of_remove hh)

/-- **Nobody else's index changes.** -/
theorem OpenIndex.confined (ho : OpenIndex disk y w written) (hyx : y ≠ x) (hg : g ≠ some w.file)
    (hconf : Confined x g disk disk') : OpenIndex disk' y w written := by
  have hnames (f : OwnFile) (hf : f.owner = x) : disk.dir f.path ≠ some w.file := fun hh =>
    hyx ((ho.owned f hh).1.symm.trans hf)
  obtain ⟨seqBase, records, hdata, hlen⟩ := ho.records
  refine ⟨ho.lt_next.trans_le hconf.next_le, ⟨seqBase, records, ?_, hlen⟩, fun f hh => ?_⟩
  · exact (hconf.data _ ho.lt_next hnames hg).trans hdata
  · by_cases hf : f.owner = x
    · rcases hconf.names f _ hf hh with hfresh | ⟨f', hf', -, hh'⟩
      · exact absurd ho.lt_next (Nat.not_lt.mpr hfresh)
      · exact absurd hh' (hnames f' hf')
    · exact ho.owned f ((hconf.others f hf).symm.trans hh)

/-- One's own index is still one's own. -/
theorem OpenIndex.own {w' : IndexWriter} {written' : ℕ} (ho : OpenIndex disk x w written)
    (hconf : Confined x g disk disk') (hfile : w'.file = w.file)
    (hrecords : ∃ seqBase records, disk'.data w.file = .index seqBase records ∧
      records.length + w'.buffer.length ≤ written') : OpenIndex disk' x w' written' := by
  refine ⟨hfile.symm ▸ ho.lt_next.trans_le hconf.next_le, hfile.symm ▸ hrecords, fun f hh => ?_⟩
  rw [hfile] at hh
  by_cases hf : f.owner = x
  · rcases hconf.names f _ hf hh with hfresh | ⟨f', hf', hkind, hh'⟩
    · exact absurd ho.lt_next (Nat.not_lt.mpr hfresh)
    · exact ⟨hf, hkind ▸ (ho.owned f' hh').2⟩
  · exact absurd (ho.owned f ((hconf.others f hf).symm.trans hh)).1 hf

/-- **Nobody else's task is disturbed.** -/
theorem Tidy.confined (ht : Tidy limit deepest disk y task) (hyx : y ≠ x)
    (hg : ∀ st, task.state = some st → g ≠ some st.idxWriter.file)
    (hlog : ∀ i, g = some i → disk.dir (y.log 0).path ≠ some i) (hconf : Confined x g disk disk') :
    Tidy limit deepest disk' y task := by
  have hkept {h : ℕ} (hname : disk.dir (y.log 0).path = some h) : disk'.data h = disk.data h := by
    refine hconf.data h (disk.lt_next hname) (fun f hf hh => hyx ?_) fun hgh => hlog h hgh hname
    rw [← hf, OwnFile.path_injective (disk.single hh hname)]
    rfl
  refine ⟨ht.calls, fun h hfile => ?_, ht.written, fun st hst =>
    (ht.index st hst).confined hyx (hg st hst) hconf, fun st line htask h hfile => ?_⟩
  · obtain ⟨hname, bytes, hdata, hlen⟩ := ht.file h hfile
    exact ⟨(hconf.others (y.log 0) hyx).trans hname, bytes, (hkept hname).trans hdata, hlen⟩
  · exact (hkept (ht.file h (htask ▸ hfile)).1).trans (ht.fresh st line htask h hfile)

end Own

/-- No log file grows past the limit, unless by one line. -/
def LogDir.limit (maxBytes : ℕ) (d : LogDir) : ℕ := max maxBytes d.longest

/-- Segments are numbered up to the number of rotated files a capture or a respawn keeps. -/
def deepest (maxRotatedFiles : ℕ) : ℕ := max maxRotatedFiles DEFAULT_MAX_ROTATED_FILES

/-- **The tasks of the daemon's streams**, started in a directory that earlier ones have left. -/
def logDir (maxBytes maxRotatedFiles : ℕ) : Machine LogDir (LogOwner × LogDirEvent) where
  init d := (∀ x, d.tasks x = .closed) ∧
    ∀ x, Named (d.limit maxBytes) (deepest maxRotatedFiles) d.disk x
  step := LogDirStep maxBytes maxRotatedFiles

/-- The invariant of the log directory. -/
structure InBounds (limit deepest : ℕ) (disk : Disk) (tasks : LogOwner → LogTask) : Prop where
  named : ∀ x, Named limit deepest disk x
  tidy : ∀ x, Tidy limit deepest disk x (tasks x)
  apart : ∀ x y g, x ≠ y → (tasks x).index = some g → (tasks y).index ≠ some g

namespace InBounds

variable {x : LogOwner} {disk disk' : Disk} {tasks : LogOwner → LogTask} {limit limit' deepest : ℕ}
  {task : LogTask} {st : LogWriteState}

theorem index_eq (hst : task.state = some st) : task.index = some st.idxWriter.file := by
  rw [LogTask.index, hst]
  rfl

theorem exists_state {g : ℕ} (hg : task.index = some g) :
    ∃ st, task.state = some st ∧ st.idxWriter.file = g := by
  rw [LogTask.index] at hg
  exact Option.map_eq_some_iff.mp hg

/-- A task's index file is under no other stream's log. -/
theorem log_ne {y : LogOwner} (h : InBounds limit deepest disk tasks) {g : ℕ}
    (hg : (tasks x).index = some g) : disk.dir (y.log 0).path ≠ some g := by
  obtain ⟨st, hst, rfl⟩ := exists_state hg
  intro hname
  exact absurd (((h.tidy x).index st hst).owned (y.log 0) hname).2 (by simp [LogOwner.log])

/-- **One task goes on**: if it keeps to its own and within bounds, all is within bounds. -/
theorem change (h : InBounds limit deepest disk tasks)
    (hconf : Confined x (tasks x).index disk disk') (hle : limit ≤ limit')
    (hnamed : Named limit' deepest disk' x) (htidy : Tidy limit' deepest disk' x task)
    (hindex : ∀ g, task.index = some g →
      (tasks x).index = some g ∨ disk'.dir (x.idx 0).path = some g) :
    InBounds limit' deepest disk' (Function.update tasks x task) := by
  have hother {y : LogOwner} (hy : y ≠ x) : Function.update tasks x task y = tasks y :=
    Function.update_of_ne hy ..
  have hself : Function.update tasks x task x = task := Function.update_self ..
  have hkept {y : LogOwner} (hy : y ≠ x) : Tidy limit deepest disk' y (tasks y) :=
    (h.tidy y).confined hy (fun st hst hg => h.apart x y _ (Ne.symm hy) hg (index_eq hst))
      (fun i hi => h.log_ne hi) hconf
  have hnew {y : LogOwner} {g : ℕ} (hy : y ≠ x) (hg : task.index = some g) :
      (tasks y).index ≠ some g := by
    rcases hindex g hg with hold | hname
    · exact fun hyg => h.apart y x g hy hyg hold
    · intro hyg
      obtain ⟨st, hst, rfl⟩ := exists_state hyg
      exact hy (((hkept hy).index st hst).owned _ hname).1.symm
  refine ⟨fun y => ?_, fun y => ?_, fun y z g hyz hyg hzg => ?_⟩
  · by_cases hy : y = x
    · exact hy ▸ hnamed
    intro f i hf hi
    have hfx : f.owner ≠ x := fun hfx => hy (hf.symm.trans hfx)
    have hold : disk.dir f.path = some i := (hconf.others f hfx).symm.trans hi
    have hdata : disk'.data i = disk.data i := by
      refine hconf.data i (disk.lt_next hold) (fun f' hf' hi' => ?_) fun hg => ?_
      · exact hfx (OwnFile.path_injective (disk.single hi' hold) ▸ hf')
      · obtain ⟨st, hst, rfl⟩ := exists_state hg
        exact hfx (((h.tidy x).index st hst).owned f hold).1
    exact ⟨(h.named y f i hf hold).1, hdata ▸ (h.named y f i hf hold).2.mono hle⟩
  · by_cases hy : y = x
    · subst hy
      exact hself.symm ▸ htidy
    · rw [hother hy]
      exact { hkept hy with written := (hkept hy).written.trans hle }
  · by_cases hy : y = x
    · subst hy
      rw [hself] at hyg
      rw [hother (Ne.symm hyz)] at hzg
      exact hnew (Ne.symm hyz) hyg hzg
    · rw [hother hy] at hyg
      by_cases hz : z = x
      · subst hz
        rw [hself] at hzg
        exact hnew hy hzg hyg
      · rw [hother hz] at hzg
        exact h.apart y z g hyz hyg hzg

end InBounds

/-! ## What a task does -/

/-- What a task has open while it captures. -/
structure Holds (limit : ℕ) (disk : Disk) (x : LogOwner) (st : LogWriteState) : Prop where
  file : ∀ h, st.file = some h → disk.dir (x.log 0).path = some h ∧
    ∃ bytes, disk.data h = .text bytes ∧ bytes.length ≤ st.bytesWritten
  written : st.bytesWritten ≤ limit
  index : OpenIndex disk x st.idxWriter st.bytesWritten

section Task

variable {x : LogOwner} {disk : Disk} {limit limit' deepest : ℕ} {task : LogTask}
  {st : LogWriteState} {ctx : LogContext} {w : Writes} {line : String} {seq : ℕ}

theorem LogTask.file_of_state (hst : task.state = some st) : task.file = st.file := by
  cases task with
  | openingIdx => exact absurd hst (by simp [LogTask.state])
  | _ => exact congrArg (Option.bind · (·.file)) hst

theorem LogTask.written_of_state (hst : task.state = some st) : task.written = st.bytesWritten := by
  rw [LogTask.written, hst]
  rfl

theorem Tidy.holds (ht : Tidy limit deepest disk x task) (hst : task.state = some st) :
    Holds limit disk x st := by
  have hfile := ht.file
  have hwritten := ht.written
  rw [LogTask.file_of_state hst, LogTask.written_of_state hst] at hfile
  rw [LogTask.written_of_state hst] at hwritten
  exact ⟨hfile, hwritten, ht.index st hst⟩

/-- A task that only writes, or is about to create a log. -/
theorem Holds.tidy (h : Holds limit disk x st) (hst : task.state = some st)
    (hcalls : ∀ calls line, task = .rotating calls line →
      (∀ c ∈ calls, c.Keeps x deepest) ∧ st.file = none)
    (hfresh : ∀ st line, task = .recreatingIdx st line → ∀ h, st.file = some h →
      disk.data h = .text []) : Tidy limit deepest disk x task where
  calls calls line htask := by
    rw [LogTask.file_of_state hst]
    exact hcalls calls line htask
  file := by
    rw [LogTask.file_of_state hst, LogTask.written_of_state hst]
    exact h.file
  written := (LogTask.written_of_state hst).trans_le h.written
  index st' hst' := by
    obtain rfl := Option.some.inj (hst.symm.trans hst')
    exact h.index
  fresh := hfresh

theorem Holds.tidy_writing (h : Holds limit disk x st) : Tidy limit deepest disk x (.writing st) :=
  h.tidy rfl (fun _ _ htask => by simp at htask) fun _ _ htask => by simp at htask

theorem Tidy.nothing (hstate : task.state = none) (hfile : task.file = none)
    (hcalls : ∀ calls line, task = .rotating calls line → ∀ c ∈ calls, c.Keeps x deepest) :
    Tidy limit deepest disk x task where
  calls calls line htask := ⟨hcalls calls line htask, hfile⟩
  file h hh := absurd (hfile.symm.trans hh) (by simp)
  written := by
    rw [LogTask.written, hstate]
    exact Nat.zero_le _
  index st hst := absurd (hstate.symm.trans hst) (by simp)
  fresh st line htask := absurd hstate (by simp [htask, LogTask.state])

/-- An index file and a log file are two files. -/
theorem Holds.file_ne (h : Holds limit disk x st) {f : ℕ} (hf : st.file = some f) :
    f ≠ st.idxWriter.file := by
  rintro rfl
  obtain ⟨hname, -⟩ := h.file _ hf
  exact absurd (h.index.owned (x.log 0) hname).2 (by simp [LogOwner.log])

/-- **Flushing the index** keeps to the index. -/
theorem Holds.flush {s r : Shared} (h : Holds limit s.disk x st)
    (hn : Named limit deepest s.disk x) {st' : LogWriteState} (hr : st.flushIdx s = (st', r)) :
    Confined x (some st.idxWriter.file) s.disk r.disk ∧ Named limit deepest r.disk x ∧
      Holds limit r.disk x st' ∧ st'.idxWriter.file = st.idxWriter.file ∧
      r.disk.dir = s.disk.dir := by
  obtain ⟨rfl, rfl⟩ := Prod.mk.inj hr
  have hconf : Confined x (some st.idxWriter.file) s.disk
      (s.disk.modify st.idxWriter.file (Content.appendRecords st.idxWriter.buffer)) :=
    .modify (.inr rfl) _
  obtain ⟨seqBase, records, hdata, hlen⟩ := h.index.records
  have hdata' : Content.appendRecords st.idxWriter.buffer (s.disk.data st.idxWriter.file) =
      .index seqBase (records ++ st.idxWriter.buffer) := by
    rw [hdata]
    rfl
  have hlen' : (records ++ st.idxWriter.buffer).length ≤ st.bytesWritten := by
    rwa [List.length_append]
  refine ⟨hconf, hn.modify fun f hf => ?_, ⟨fun f hf => ?_, h.written, ?_⟩, rfl, rfl⟩
  · rw [(h.index.owned f hf).2, hdata']
    exact ⟨seqBase, _, rfl, hlen'.trans h.written⟩
  · obtain ⟨hname, bytes, htext, hbytes⟩ := h.file f hf
    exact ⟨hname, bytes, (Function.update_of_ne (h.file_ne hf) ..).trans htext, hbytes⟩
  · exact h.index.own hconf rfl ⟨seqBase, _, (Function.update_self ..).trans hdata', hlen'⟩

/-- **Writing a line** keeps to the log and the index, and to the limit. -/
theorem Holds.emit (h : Holds limit disk x st) (hn : Named limit deepest disk x)
    (hle : limit ≤ limit') (hroom : st.bytesWritten + lineBytes line ≤ limit') {r : Shared}
    {st' : LogWriteState} (hr : st.emitTorn ctx w line ⟨disk, seq, []⟩ = (st', r)) :
    Confined x (some st.idxWriter.file) disk r.disk ∧ Named limit' deepest r.disk x ∧
      Holds limit' r.disk x st' ∧ st'.idxWriter.file = st.idxWriter.file ∧
      r.disk.dir = disk.dir := by
  rw [LogWriteState.emitTorn] at hr
  rcases hfile : st.file with _ | f
  · rw [hfile] at hr
    obtain ⟨rfl, rfl⟩ := Prod.mk.inj hr
    exact ⟨.refl .., hn.mono hle, ⟨h.file, h.written.trans hle, h.index⟩, rfl, rfl⟩
  rw [hfile] at hr
  dsimp only at hr
  obtain ⟨hname, bytes, htext, hbytes⟩ := h.file f hfile
  -- the log first
  have hconf : Confined x (some st.idxWriter.file) disk
      (disk.modify f (Content.appendBytes (w.stored line))) :=
    .modify (.inl ⟨x.log 0, rfl, hname⟩) _
  have htext' : Content.appendBytes (w.stored line) (disk.data f) =
      .text (bytes ++ w.stored line) := by
    rw [htext]
    rfl
  have hbytes' : (bytes ++ w.stored line).length ≤ st.bytesWritten + lineBytes line := by
    rw [List.length_append]
    exact Nat.add_le_add hbytes (w.length_stored_le line)
  have hn' : Named limit' deepest (disk.modify f (Content.appendBytes (w.stored line))) x := by
    refine (hn.mono hle).modify fun f' hf' => ?_
    rw [OwnFile.path_injective (disk.single hf' hname), htext']
    exact ⟨_, rfl, hbytes'.trans hroom⟩
  -- then the record
  obtain ⟨seqBase, records, hdata, hlen⟩ := h.index.records
  have hholds : Holds limit' (disk.modify f (Content.appendBytes (w.stored line))) x
      { st with
        file := some f
        idxWriter := st.idxWriter.append (st.nextRecord ⟨disk, seq, []⟩)
        bytesWritten := st.bytesWritten + lineBytes line
        linesSinceIdxFlush := st.linesSinceIdxFlush + 1 } := by
    refine ⟨fun f' hf' => ?_, hroom, h.index.own hconf rfl ⟨seqBase, records, ?_, ?_⟩⟩
    · obtain rfl := Option.some.inj hf'
      exact ⟨hname, _, (Function.update_self ..).trans htext', hbytes'⟩
    · exact (Function.update_of_ne (h.file_ne hfile).symm ..).trans hdata
    · have hline : 1 ≤ lineBytes line := Nat.le_add_left ..
      rw [IndexWriter.append, List.length_append, List.length_singleton]
      dsimp only
      omega
  split at hr
  · rcases hflush : LogWriteState.flushIdx _ _ with ⟨st₁, sh₁⟩
    rw [hflush] at hr
    obtain ⟨rfl, rfl⟩ := Prod.mk.inj hr
    obtain ⟨hconf', hn'', hholds', hkept⟩ := hholds.flush hn' hflush
    exact ⟨hconf.trans hconf', hn'', ⟨hholds'.file, hholds'.written, hholds'.index⟩, hkept⟩
  · obtain ⟨rfl, rfl⟩ := Prod.mk.inj hr
    exact ⟨hconf, hn', hholds, rfl, rfl⟩

/-- **A log that is created** is the stream's current one. -/
theorem confined_createLog {file : ℕ} {disk' : Disk} {g : Option ℕ}
    (hcreate : disk.create (logPathOf x.process x.stream) (.text []) = (file, disk')) :
    Confined x g disk disk' ∧ disk'.dir (x.log 0).path = some file ∧
      disk'.data file = .text [] := by
  obtain ⟨rfl, rfl⟩ := Prod.mk.inj hcreate
  exact ⟨.create (x.log 0) rfl _, dir_create_self (x.log 0) _, data_create (x.log 0) _⟩

theorem named_createLog {file : ℕ} {disk' : Disk} (hn : Named limit deepest disk x)
    (hcreate : disk.create (logPathOf x.process x.stream) (.text []) = (file, disk')) :
    Named limit deepest disk' x := by
  obtain ⟨rfl, rfl⟩ := Prod.mk.inj hcreate
  exact hn.create (f := x.log 0) (Nat.zero_le _) ⟨[], rfl, Nat.zero_le _⟩

/-- **An index that is created** is the stream's current one. -/
theorem confined_createIdx {idxWriter : IndexWriter} {disk' : Disk} {g : Option ℕ}
    (hcreate : IndexWriter.create (idxPathFor (logPathOf x.process x.stream)) seq disk =
      (idxWriter, disk')) :
    Confined x g disk disk' ∧ disk'.dir (x.idx 0).path = some idxWriter.file ∧
      OpenIndex disk' x idxWriter 0 := by
  obtain ⟨rfl, rfl⟩ := Prod.mk.inj hcreate
  have hname : (disk.create (x.idx 0).path (.index seq [])).2.dir (x.idx 0).path = some _ :=
    dir_create_self (x.idx 0) _
  refine ⟨.create (x.idx 0) rfl _, hname, FileSystem.lt_next _ hname, ⟨seq, [], ?_, le_rfl⟩,
    fun f hf => ?_⟩
  · exact data_create (x.idx 0) _
  · rw [OwnFile.path_injective (FileSystem.single _ hf hname)]
    exact ⟨rfl, rfl⟩

theorem named_createIdx {idxWriter : IndexWriter} {disk' : Disk} (hn : Named limit deepest disk x)
    (hcreate : IndexWriter.create (idxPathFor (logPathOf x.process x.stream)) seq disk =
      (idxWriter, disk')) :
    Named limit deepest disk' x := by
  obtain ⟨rfl, rfl⟩ := Prod.mk.inj hcreate
  exact hn.create (f := x.idx 0) (Nat.zero_le _) ⟨seq, [], rfl, Nat.zero_le _⟩

/-- Creating an index leaves the log as it is. -/
theorem data_createIdx {idxWriter : IndexWriter} {disk' : Disk} {f : ℕ}
    (hname : disk.dir (x.log 0).path = some f)
    (hcreate : IndexWriter.create (idxPathFor (logPathOf x.process x.stream)) seq disk =
      (idxWriter, disk')) :
    disk'.dir (x.log 0).path = some f ∧ disk'.data f = disk.data f := by
  obtain ⟨rfl, rfl⟩ := Prod.mk.inj hcreate
  have hne : (x.log 0).path ≠ (x.idx 0).path := fun hpath =>
    absurd (OwnFile.path_injective hpath) (by simp [LogOwner.log, LogOwner.idx])
  refine ⟨?_, FileSystem.data_create_of_ne (fun hidx => hne (disk.single hname hidx))
    (disk.lt_next hname)⟩
  change (disk.create (x.idx 0).path _).2.dir _ = _
  rw [FileSystem.dir_create, Function.update_of_ne hne]
  exact hname

/-- A call of a rotation, made or failed. -/
theorem Tidy.call {disk' : Disk} {g : Option ℕ} {c : FileCall} {calls : List FileCall}
    {pending : Option (LogWriteState × String)}
    (ht : Tidy limit deepest disk x (.rotating (c :: calls) pending))
    (hconf : Confined x g disk disk') (hdata : disk'.data = disk.data) :
    Tidy limit deepest disk' x (.rotating calls pending) := by
  obtain ⟨hkeeps, hfile⟩ := ht.calls _ _ rfl
  refine ⟨?_, fun h hh => absurd (hfile.symm.trans hh) (by simp), ht.written, fun st hst => ?_, ?_⟩
  · rintro _ _ ⟨⟩
    exact ⟨fun c' hc' => hkeeps c' (List.mem_cons_of_mem _ hc'), hfile⟩
  · exact (ht.index st hst).own hconf rfl (hdata ▸ (ht.index st hst).records)
  · rintro _ _ ⟨⟩

theorem FileCall.data_run (c : FileCall) (disk : Disk) : (c.run disk).data = disk.data := by
  cases c with
  | rename source target =>
    rw [FileCall.run, renameFile]
    split_ifs <;> rfl
  | remove name => rfl

end Task

/-! ## A step -/

namespace InBounds

variable {x : LogOwner} {disk disk' : Disk} {tasks : LogOwner → LogTask} {limit limit' deep : ℕ}
  {task : LogTask} {st st' : LogWriteState}

/-- A task that has nothing open any more. -/
theorem nothing (h : InBounds limit deep disk tasks) (hstate : task.state = none)
    (hfile : task.file = none) (hcalls : ∀ calls line, task = .rotating calls line →
      ∀ c ∈ calls, c.Keeps x deep) :
    InBounds limit deep disk (Function.update tasks x task) := by
  refine h.change (.refl ..) le_rfl (h.named x) (.nothing hstate hfile hcalls) fun g hg => ?_
  rw [LogTask.index, hstate] at hg
  exact absurd hg (by simp)

/-- A task that goes on with the state it has. -/
theorem keep (h : InBounds limit deep disk tasks) (hst : (tasks x).state = some st)
    (hst' : task.state = some st) (htidy : Holds limit disk x st → Tidy limit deep disk x task) :
    InBounds limit deep disk (Function.update tasks x task) := by
  refine h.change (.refl ..) le_rfl (h.named x) (htidy ((h.tidy x).holds hst)) fun g hg => .inl ?_
  rwa [index_eq hst, ← index_eq hst']

/-- A call, made or failed. -/
theorem call {c : FileCall} {calls : List FileCall} {pending : Option (LogWriteState × String)}
    (h : InBounds limit deep disk tasks) (htask : tasks x = .rotating (c :: calls) pending)
    (hconf : Confined x (tasks x).index disk disk') (hdata : disk'.data = disk.data)
    (hnamed : Named limit deep disk' x) :
    InBounds limit deep disk' (Function.update tasks x (.rotating calls pending)) := by
  refine h.change hconf le_rfl hnamed ((htask ▸ h.tidy x).call hconf hdata) fun g hg => .inl ?_
  rw [htask]
  exact hg

/-- A line is written. -/
theorem emit {d : LogDir} {ctx : LogContext} {w : Writes} {line : String} {seq : ℕ}
    {r : Shared} (h : InBounds limit deep disk tasks)
    (hconf : Confined x (tasks x).index disk d.disk)
    (hn : Named limit deep d.disk x) (hholds : Holds limit d.disk x st) (hle : limit ≤ limit')
    (hroom : st.bytesWritten + lineBytes line ≤ limit')
    (hindex : (tasks x).index = some st.idxWriter.file ∨
      d.disk.dir (x.idx 0).path = some st.idxWriter.file)
    (hr : st.emitTorn ctx w line ⟨d.disk, seq, []⟩ = (st', r)) :
    InBounds limit' deep r.disk (Function.update tasks x (.writing st')) := by
  obtain ⟨hconf', hn', hholds', hkept, hdir⟩ := hholds.emit hn hle hroom hr
  have hconf'' : Confined x (tasks x).index d.disk r.disk := by
    rcases hindex with hold | hname
    · exact hold ▸ hconf'
    · exact hconf'.of_named ⟨x.idx 0, rfl, hname⟩
  refine h.change (hconf.trans hconf'') hle hn' hholds'.tidy_writing fun g hg => ?_
  have hg' : st.idxWriter.file = g := hkept.symm.trans (Option.some.inj hg)
  subst hg'
  rwa [hdir]

variable {maxBytes n : ℕ} {d d' : LogDir} {e : LogOwner × LogDirEvent}

theorem step (hmax : 0 < maxBytes)
    (h : InBounds (d.limit maxBytes) (deepest n) d.disk d.tasks)
    (hstep : (logDir maxBytes n).step d e d') :
    InBounds (d'.limit maxBytes) (deepest n) d'.disk d'.tasks := by
  have hdefault : DEFAULT_MAX_ROTATED_FILES ≤ deepest n := le_max_right ..
  have hpos : 0 < deepest n := Nat.lt_of_lt_of_le (by decide) hdefault
  cases hstep with
  | spawn | openLogFails | openIdxFails | stopIdle | rotated =>
    exact h.nothing rfl rfl fun _ _ htask => by simp at htask
  | respawn =>
    refine h.nothing rfl rfl ?_
    rintro _ _ ⟨⟩
    exact keeps_rotateCalls hdefault hpos
  | @call x c calls pending htask =>
    have hc : c.Keeps x (deepest n) :=
      (((htask ▸ h.tidy x).calls _ _ rfl).1 c List.mem_cons_self)
    exact h.call htask (.call hc) (c.data_run _) ((h.named x).call hc)
  | @callFails x c calls pending htask =>
    exact h.call htask (.refl ..) rfl (h.named x)
  | @rotatedFull x st line htask =>
    have hfile : st.file = none := ((htask ▸ h.tidy x).calls _ _ rfl).2
    have hst : (d.tasks x).state = some st := by rw [htask]; rfl
    refine h.keep hst rfl fun hholds => hholds.tidy rfl ?_ ?_
    · rintro _ _ ⟨⟩
    · rintro _ _ ⟨⟩
  | @openLog x file disk htask hcreate =>
    obtain ⟨hconf, hname, hdata⟩ := confined_createLog (g := (d.tasks x).index) hcreate
    refine h.change hconf le_rfl (named_createLog (h.named x) hcreate) ?_ ?_
    · refine ⟨by rintro _ _ ⟨⟩, ?_, Nat.zero_le _, by rintro _ ⟨⟩, by rintro _ _ ⟨⟩⟩
      rintro _ ⟨⟩
      exact ⟨hname, [], hdata, Nat.zero_le _⟩
    · rintro _ ⟨⟩
  | @openIdx x file w disk htask hcreate =>
    have htidy : Tidy _ _ d.disk x (.openingIdx file) := htask ▸ h.tidy x
    obtain ⟨hname, bytes, hdata, hlen⟩ := htidy.file file rfl
    obtain ⟨hconf, hidx, hopen⟩ := confined_createIdx (g := (d.tasks x).index) hcreate
    obtain ⟨hname', hdata'⟩ := data_createIdx hname hcreate
    have hholds : Holds (d.limit maxBytes) disk x (.start ⟨file, w⟩) := by
      refine ⟨?_, Nat.zero_le _, hopen⟩
      rintro _ ⟨⟩
      exact ⟨hname', bytes, hdata'.trans hdata, hlen⟩
    refine h.change hconf le_rfl (named_createIdx (h.named x) hcreate) hholds.tidy_writing ?_
    rintro _ ⟨⟩
    exact .inr hidx
  | @write d' x st st' w line seq htask hfits hemit =>
    obtain ⟨rfl, rfl⟩ := Prod.mk.inj hemit
    have hst : (d.tasks x).state = some st := by rw [htask]; rfl
    have hroom : st.bytesWritten + lineBytes line ≤ maxBytes :=
      Nat.not_lt.mp fun hlt => hfits ⟨hmax, hlt⟩
    exact h.emit (.refl ..) (h.named x) ((h.tidy x).holds hst)
      (max_le_max_left _ (le_max_left ..)) (hroom.trans (le_max_left ..)) (.inl (index_eq hst)) rfl
  | @full d' x st st' line htask hfull hflush =>
    obtain ⟨rfl, rfl⟩ := Prod.mk.inj hflush
    have hst : (d.tasks x).state = some st := by rw [htask]; rfl
    obtain ⟨hconf, hn, hholds, hkept, -⟩ :=
      Holds.flush (s := ⟨d.disk, 0, []⟩) ((h.tidy x).holds hst) (h.named x) rfl
    refine h.change (index_eq hst ▸ hconf) le_rfl hn ?_ fun g hg => .inl ?_
    · have hclosed : Holds (d.limit maxBytes) _ x
          { (st.flushIdx ⟨d.disk, 0, []⟩).1 with file := none } :=
        ⟨fun _ hf => absurd hf (by simp), hholds.written, hholds.index⟩
      refine hclosed.tidy rfl ?_ (by rintro _ _ ⟨⟩)
      rintro _ _ ⟨⟩
      exact ⟨keeps_rotateCalls (le_max_left ..) hpos, rfl⟩
    · rw [index_eq hst]
      exact hg
  | @recreateLog x st line file disk htask hcreate =>
    have hst : (d.tasks x).state = some st := by rw [htask]; rfl
    have hholds := (h.tidy x).holds hst
    obtain ⟨hconf, hname, hdata⟩ := confined_createLog (g := (d.tasks x).index) hcreate
    refine h.change hconf le_rfl (named_createLog (h.named x) hcreate) ?_ fun g hg => .inl ?_
    · have hidx : disk.data st.idxWriter.file = d.disk.data st.idxWriter.file := by
        obtain ⟨rfl, rfl⟩ := Prod.mk.inj hcreate
        exact FileSystem.data_create_of_ne (h.log_ne (y := x) (index_eq hst)) hholds.index.lt_next
      have hholds' : Holds (d.limit maxBytes) disk x { st with file := some file } := by
        refine ⟨?_, hholds.written, hholds.index.own hconf rfl (hidx ▸ hholds.index.records)⟩
        rintro _ ⟨⟩
        exact ⟨hname, [], hdata, Nat.zero_le _⟩
      refine hholds'.tidy rfl (by rintro _ _ ⟨⟩) ?_
      rintro _ _ ⟨⟩ _ ⟨⟩
      exact hdata
    · rw [index_eq hst]
      exact hg
  | @recreateLogFails x st line htask | @recreateIdxFails x st line htask =>
    have hst : (d.tasks x).state = some st := by rw [htask]; rfl
    exact h.keep hst rfl fun hholds => hholds.tidy_writing
  | @recreateIdx d' x st st' line idxWriter disk w seq htask hcreate hemit =>
    obtain ⟨rfl, rfl⟩ := Prod.mk.inj hemit
    have hst : (d.tasks x).state = some st := by rw [htask]; rfl
    obtain ⟨hconf, hidx, hopen⟩ := confined_createIdx (g := (d.tasks x).index) hcreate
    have hholds : Holds (d.limit maxBytes) disk x ⟨st.file, idxWriter, 0, 0⟩ := by
      refine ⟨fun f hf => ?_, Nat.zero_le _, hopen⟩
      obtain ⟨hname', hdata'⟩ := data_createIdx (((h.tidy x).holds hst).file f hf).1 hcreate
      exact ⟨hname', [], hdata'.trans ((h.tidy x).fresh st line htask f hf), le_rfl⟩
    refine h.emit (d := { d with disk }) hconf (named_createIdx (h.named x) hcreate) hholds
      (max_le_max_left _ (le_max_left ..)) ?_ (.inr hidx) rfl
    exact (Nat.zero_add _).trans_le ((le_max_right ..).trans (le_max_right ..))
  | @stop d' x st st' hst hflush =>
    obtain ⟨rfl, rfl⟩ := Prod.mk.inj hflush
    obtain ⟨hconf, hn, -, -, -⟩ :=
      Holds.flush (s := ⟨d.disk, 0, []⟩) ((h.tidy x).holds hst) (h.named x) rfl
    refine h.change (index_eq hst ▸ hconf) le_rfl hn (.nothing rfl rfl (by rintro _ _ ⟨⟩)) ?_
    rintro _ ⟨⟩

end InBounds

section Bound

variable {maxBytes n : ℕ} {d : LogDir}

theorem inBounds_of_reachable (hmax : 0 < maxBytes) (h : (logDir maxBytes n).Reachable d) :
    InBounds (d.limit maxBytes) (deepest n) d.disk d.tasks := by
  refine h.invariant (P := fun d => InBounds (d.limit maxBytes) (deepest n) d.disk d.tasks) ?_
    fun _ _ _ _ hd hstep => hd.step hmax hstep
  rintro d ⟨hclosed, hnamed⟩
  refine ⟨hnamed, fun x => ?_, fun x y g _ hg => ?_⟩
  · rw [hclosed x]
    exact .nothing rfl rfl (by rintro _ _ ⟨⟩)
  · rw [hclosed x] at hg
    exact absurd hg (by simp [LogTask.index, LogTask.state])

/-- How much a file holds; nothing, if it is not there. -/
def bytesTaken (disk : Disk) (f : OwnFile) : ℕ := ((disk.read f.path).map Content.len).getD 0

/-- A file of this depth, within this limit. -/
def fileLimit (limit : ℕ) : LogFileKind → ℕ
  | .log => limit
  | .index => HEADER_SIZE + RECORD_SIZE * limit

theorem len_le_of_fits {limit : ℕ} {kind : LogFileKind} {c : Content} (h : Fits limit kind c) :
    c.len ≤ fileLimit limit kind := by
  cases kind with
  | log =>
    obtain ⟨bytes, rfl, hlen⟩ := h
    exact hlen
  | index =>
    obtain ⟨seqBase, records, rfl, hlen⟩ := h
    exact Nat.add_le_add_left (Nat.mul_le_mul_left _ hlen) _

theorem bytesTaken_le (h : InBounds (d.limit maxBytes) (deepest n) d.disk d.tasks) (f : OwnFile) :
    bytesTaken d.disk f ≤
      if f.segment ≤ deepest n then fileLimit (d.limit maxBytes) f.kind else 0 := by
  rw [bytesTaken, FileSystem.read]
  rcases hf : d.disk.dir f.path with _ | i
  · exact Nat.zero_le _
  · obtain ⟨hdeep, hfits⟩ := h.named f.owner f i rfl hf
    rw [if_pos hdeep]
    exact len_le_of_fits hfits

/-- **The logs of a stream take so many bytes**, and no more, in every run of all the streams of any
number of processes, with any number of respawns, whatever fails: the current file and the rotated
ones, each of them up to the limit (or one longer line), and an index entry for every byte. -/
theorem diskUse_le (hmax : 0 < maxBytes) (h : (logDir maxBytes n).Reachable d) (x : LogOwner)
    (k : ℕ) : ∑ i ∈ Finset.range k, (bytesTaken d.disk (x.log i) + bytesTaken d.disk (x.idx i)) ≤
      (deepest n + 1) * (17 * d.limit maxBytes + 16) := by
  have hd := inBounds_of_reachable hmax h
  have hfile (i : ℕ) : bytesTaken d.disk (x.log i) + bytesTaken d.disk (x.idx i) ≤
      if i < deepest n + 1 then 17 * d.limit maxBytes + 16 else 0 := by
    have hlog : bytesTaken d.disk (x.log i) ≤ if i ≤ deepest n then d.limit maxBytes else 0 :=
      bytesTaken_le hd (x.log i)
    have hidx : bytesTaken d.disk (x.idx i) ≤
        if i ≤ deepest n then 16 + 16 * d.limit maxBytes else 0 := bytesTaken_le hd (x.idx i)
    by_cases hdeep : i ≤ deepest n
    · rw [if_pos hdeep] at hlog hidx
      rw [if_pos (Nat.lt_succ_of_le hdeep)]
      omega
    · rw [if_neg hdeep] at hlog hidx
      omega
  calc ∑ i ∈ Finset.range k, (bytesTaken d.disk (x.log i) + bytesTaken d.disk (x.idx i))
      ≤ ∑ i ∈ Finset.range k, if i < deepest n + 1 then 17 * d.limit maxBytes + 16 else 0 :=
        Finset.sum_le_sum fun i _ => hfile i
    _ = ((Finset.range k).filter (· < deepest n + 1)).card * (17 * d.limit maxBytes + 16) := by
        rw [← Finset.sum_filter]
        exact Finset.sum_const_nat fun _ _ => rfl
    _ ≤ (deepest n + 1) * (17 * d.limit maxBytes + 16) := by
        refine Nat.mul_le_mul_right _ ?_
        have hsub : (Finset.range k).filter (· < deepest n + 1) ⊆ Finset.range (deepest n + 1) :=
          fun i hi => Finset.mem_range.mpr (Finset.mem_filter.mp hi).2
        simpa using Finset.card_le_card hsub

end Bound

/-! ## A rotation that fails -/

namespace FailedRename

def web : LogOwner := ⟨⟨"web", by decide⟩, .stdout, by decide⟩

def empty : LogDir := ⟨.empty (.text []), fun _ => .closed, 0⟩

theorem reachable_empty : (logDir 3 1).Reachable empty :=
  .init ⟨fun _ => rfl, fun _ _ _ _ hh => absurd hh (by simp [empty, FileSystem.empty])⟩

/-- `hi⏎` fills the log.  For `yo⏎` only its index is renamed, and the log is emptied. -/
theorem web_diskUse : ∃ d, (logDir 3 1).Reachable d ∧
    d.disk.read (web.log 0).path = some (.text (utf8 "yo\n")) ∧
    d.disk.read (web.log 1).path = none ∧ (d.disk.read (web.idx 1).path).isSome = true ∧
    ∑ i ∈ Finset.range 6, (bytesTaken d.disk (web.log i) + bytesTaken d.disk (web.idx i)) ≤
      6 * (17 * d.limit 3 + 16) := by
  have hspawn := reachable_empty.step (@LogDirStep.spawn 3 1 empty web rfl)
  have hlog := hspawn.step (@LogDirStep.openLog 3 1 _ web _ _ rfl rfl)
  have hidx := hlog.step (@LogDirStep.openIdx 3 1 _ web _ _ _ rfl rfl)
  have hhi := hidx.step (@LogDirStep.write 3 1 _ _ web _ _ ⟨2, true⟩ "hi" 0 rfl
    (by decide +kernel) rfl)
  have hfull := hhi.step (@LogDirStep.full 3 1 _ _ web _ _ "yo" rfl (by decide +kernel) rfl)
  have hfails := hfull.step (@LogDirStep.callFails 3 1 _ web _ _ _ rfl)
  have hrename := hfails.step (@LogDirStep.call 3 1 _ web _ _ _ rfl)
  have hremove := (hrename.step (@LogDirStep.call 3 1 _ web _ _ _ rfl)).step
    (@LogDirStep.call 3 1 _ web _ _ _ rfl)
  have hrotated := hremove.step (@LogDirStep.rotatedFull 3 1 _ web _ _ rfl)
  have hagain := hrotated.step (@LogDirStep.recreateLog 3 1 _ web _ _ _ _ rfl rfl)
  have hyo := hagain.step (@LogDirStep.recreateIdx 3 1 _ _ web _ _ _ _ _ ⟨2, true⟩ 1 rfl rfl rfl)
  exact ⟨_, hyo, by decide +kernel, by decide +kernel, by decide +kernel,
    diskUse_le (by decide) hyo web 6⟩

end FailedRename

end AgentProcs
