import AgentProcs.Logs.Naming
import AgentProcs.Logs.TailThenFollow

/-!
# Logs/Attribution — a process from the name of its file

    web.stdout         ──▸ web           web.stdout         ──▸ web
    web.stdout.stdout  ──▸ web           web.stdout.stdout  ──▸ web.stdout
              logs --all                            the interface

Both list the log directory and take off the end of each name.  One takes it off as often as it is
there, the other once.
-/

namespace AgentProcs

/-- The stream that `--stderr` selects. -/
def streamOf (stderr : Bool) : Stream := if stderr then .stderr else .stdout

/-- The process that `show_all_logs` finds in a file's name; it skips what ends otherwise. -/
def allLogsName (stderr : Bool) (file : FileName) : Option String :=
  if '.' :: (streamOf stderr).extension <:+ file then
    some (String.ofList (trimEndMatches ('.' :: (streamOf stderr).extension) file))
  else none

/-- The lines it prints, each with a process, of what the directory lists. -/
def showAllLogs (tail : ℕ) (stderr : Bool) (entries : List FileName) (disk : Disk) :
    List (String × String) :=
  entries.flatMap fun file =>
    match allLogsName stderr file with
    | none => []
    | some name => ((tailFile file tail disk).getD []).map (name, ·)

namespace LogFile

/-- The log that is being written. -/
def Current (f : LogFile) : Prop := f.kind = .log ∧ f.segment = 0

instance (f : LogFile) : Decidable f.Current := inferInstanceAs (Decidable (_ ∧ _))

/-- Its last lines, under the process that wrote them. -/
def lastLines (tail : ℕ) (stderr : Bool) (disk : Disk) (f : LogFile) : List (String × String) :=
  if f.Current ∧ f.stream = streamOf stderr then
    ((tailFile f.path tail disk).getD []).map (f.process.val, ·)
  else []

end LogFile

/-- **Whatever is read of the logs of these processes is read as theirs.** -/
structure Attributed (names : Set ProcessName) : Prop where
  lines : ∀ files : List LogFile, (∀ f ∈ files, f.process ∈ names) → ∀ tail stderr disk,
    showAllLogs tail stderr (files.map LogFile.path) disk =
      files.flatMap (LogFile.lastLines tail stderr disk)
  recovered : ∀ name ∈ names, ∀ stderr,
    allLogsName stderr (logPathOf name.val (streamOf stderr)) = some name.val
  apart : ∀ name ∈ names, ∀ name' ∈ names, ∀ stderr,
    allLogsName stderr (logPathOf name.val (streamOf stderr)) =
      allLogsName stderr (logPathOf name'.val (streamOf stderr)) → name = name'
  readers : ∀ f : LogFile, f.process ∈ names →
    currentLog f.path = if f.Current then some (f.process.val, f.stream) else none

section Names

variable {f : LogFile} {s : Stream}

/-- **Only the current log of a stream ends with its name.** -/
theorem LogFile.suffix_path_iff : '.' :: s.extension <:+ f.path ↔ f.Current ∧ f.stream = s := by
  refine ⟨fun ⟨stem, hstem⟩ => ?_, ?_⟩
  · obtain ⟨x, hx⟩ := f.rsplitDot_path
    rw [← hstem, rsplitDot_append s.dot_notMem_extension, Option.some.injEq, Prod.mk.injEq] at hx
    obtain ⟨p, t, n, k⟩ := f
    have hlog : k = .log := by
      cases k with
      | log => rfl
      | index =>
        have hidx : s.extension = ['i', 'd', 'x'] := hx.2
        exact absurd hidx (by cases s <;> decide)
    subst hlog
    cases n with
    | zero => exact ⟨⟨rfl, rfl⟩, (Stream.extension_injective hx.2).symm⟩
    | succ n => exact absurd hx.2 (extension_ne_logEnd s p t n)
  · obtain ⟨p, t, n, k⟩ := f
    rintro ⟨⟨rfl, rfl⟩, rfl⟩
    exact List.suffix_append _ _

/-- **A trimmed name is the process's** exactly when that does not end like a file. -/
theorem allLogsName_eq_some_iff {name : String} {stderr : Bool} :
    allLogsName stderr (logPathOf name (streamOf stderr)) = some name ↔
      ¬('.' :: (streamOf stderr).extension <:+ name.toList) := by
  have hends : '.' :: (streamOf stderr).extension <:+ logPathOf name (streamOf stderr) :=
    List.suffix_append _ _
  rw [allLogsName, if_pos hends, Option.some.injEq]
  refine ⟨fun h => ?_, fun h => procName_eq (f := ⟨name, streamOf stderr⟩) h⟩
  have hname := congrArg String.toList h
  rw [String.toList_ofList] at hname
  rw [← hname]
  exact not_suffix_trimEndMatches (List.cons_ne_nil _ _) _

/-- The interface takes the end off once. -/
theorem currentLog_path (f : LogFile) :
    currentLog f.path = if f.Current then some (f.process.val, f.stream) else none := by
  split_ifs with hcurrent
  · obtain ⟨p, s, n, k⟩ := f
    obtain ⟨rfl, rfl⟩ := hcurrent
    exact currentLog_eq_some.mpr rfl
  · cases hlog : currentLog f.path with
    | none => rfl
    | some x =>
      have hends : '.' :: x.2.extension <:+ f.path :=
        currentLog_eq_some.mp (hlog : _ = some (x.1, x.2)) ▸ List.suffix_append _ _
      exact absurd (LogFile.suffix_path_iff.mp hends).1 hcurrent

/-- What is printed of one file. -/
theorem showAllLogs_path (tail : ℕ) {stderr : Bool} (disk : Disk)
    (h : ¬('.' :: (streamOf stderr).extension <:+ f.process.val.toList)) :
    showAllLogs tail stderr [f.path] disk = f.lastLines tail stderr disk := by
  rw [showAllLogs, List.flatMap_singleton, LogFile.lastLines]
  split_ifs with hcurrent
  · obtain ⟨p, s, n, k⟩ := f
    obtain ⟨⟨rfl, rfl⟩, rfl⟩ := hcurrent
    have hname := allLogsName_eq_some_iff.mpr h
    simp only [LogFile.path, logName, hname]
  · rw [allLogsName, if_neg (mt LogFile.suffix_path_iff.mp hcurrent)]

end Names

/-- **Every line is shown under its process exactly when no name ends like a file.** -/
theorem attributed_iff (names : Set ProcessName) : Attributed names ↔
    ∀ name ∈ names, ∀ s : Stream, ¬('.' :: s.extension <:+ name.val.toList) := by
  constructor
  · intro h name hname s
    cases s with
    | stdout => exact allLogsName_eq_some_iff.mp (h.recovered name hname false)
    | stderr => exact allLogsName_eq_some_iff.mp (h.recovered name hname true)
  · intro h
    have hrecovered : ∀ name ∈ names, ∀ stderr,
        allLogsName stderr (logPathOf name.val (streamOf stderr)) = some name.val :=
      fun name hname stderr => allLogsName_eq_some_iff.mpr (h name hname _)
    refine ⟨fun files hfiles tail stderr disk => ?_, hrecovered, ?_, fun f _ => currentLog_path f⟩
    · rw [showAllLogs, List.flatMap_map]
      refine List.flatMap_congr fun f hf => ?_
      rw [← showAllLogs_path tail disk (h _ (hfiles f hf) _), showAllLogs, List.flatMap_singleton]
    · intro name hname name' hname' stderr heq
      rw [hrecovered name hname, hrecovered name' hname', Option.some.injEq] at heq
      exact Subtype.ext heq

/-- **Two processes under one label.** -/
theorem not_attributed_stdout : ¬Attributed {⟨"web", by decide⟩, ⟨"web.stdout", by decide⟩} := by
  intro h
  have hname : allLogsName false (logPathOf "web.stdout" .stdout) =
      allLogsName false (logPathOf "web" .stdout) := by
    have hends : logPathOf "web.stdout" .stdout =
        logPathOf "web" .stdout ++ '.' :: (streamOf false).extension := by decide
    rw [allLogsName, allLogsName, if_pos (by decide), if_pos (by decide), hends,
      trimEndMatches_append (List.cons_ne_nil _ _)]
  have heq := h.apart ⟨"web.stdout", by decide⟩ (.inr rfl) ⟨"web", by decide⟩ (.inl rfl) false hname
  exact absurd heq (by decide)

end AgentProcs
