import AgentProcs.Logs.FailedRotation

/-!
# Logs/TornWrites — what the index says when the log does not take every byte

    lines     abc⏎        xyz⏎
    offsets   0           4               what `bytes_written` says
    file      ab⏎         xyz⏎
    starts    0           3               where the text is

A line is two writes, and either may store less than it was given.  The count of bytes goes on as if
they had stored everything, and the offset of every later line in the file is taken from the count.
-/

namespace AgentProcs

/-- What the two writes of a line store: a prefix of its text, and perhaps the newline. -/
structure Writes where
  text : ℕ
  newline : Bool
  deriving DecidableEq, Repr

namespace Writes

/-- What is in the file afterwards. -/
def stored (w : Writes) (line : String) : List UInt8 :=
  (utf8 line).take w.text ++ if w.newline then [NEWLINE] else []

/-- Both writes succeed. -/
def Whole (w : Writes) (line : String) : Prop := (utf8 line).length ≤ w.text ∧ w.newline = true

instance (w : Writes) (line : String) : Decidable (w.Whole line) :=
  inferInstanceAs (Decidable (_ ∧ _))

variable {w : Writes} {line : String}

theorem stored_of_whole (h : w.Whole line) : w.stored line = utf8 line ++ [NEWLINE] := by
  rw [stored, List.take_of_length_le h.1, h.2]
  rfl

theorem length_stored_le (w : Writes) (line : String) : (w.stored line).length ≤ lineBytes line := by
  have htext : ((utf8 line).take w.text).length ≤ line.utf8ByteSize := by
    rw [List.length_take, length_utf8]
    exact min_le_right ..
  have hnewline : (if w.newline then [NEWLINE] else []).length ≤ 1 := by split <;> simp
  rw [stored, List.length_append, lineBytes]
  exact Nat.add_le_add htext hnewline

/-- **Only whole lines have their length.** -/
theorem length_stored_iff : (w.stored line).length = lineBytes line ↔ w.Whole line := by
  rw [stored, List.length_append, List.length_take, length_utf8, lineBytes, Whole, length_utf8]
  cases w.newline with
  | false => simp; omega
  | true => simp

end Writes

namespace LogWriteState

/-- The record of a line that is written now. -/
def nextRecord (st : LogWriteState) (sh : Shared) : IndexRecord := ⟨st.bytesWritten, sh.seq⟩

/-- `emit`, where the log file stores what these writes store. -/
def emitTorn (ctx : LogContext) (w : Writes) (line : String) (st : LogWriteState) (sh : Shared) :
    LogWriteState × Shared :=
  match st.file with
  | none => (st, sh)
  | some file =>
    let idxWriter := st.idxWriter.append (st.nextRecord sh)
    let disk := sh.disk.modify file (Content.appendBytes (w.stored line))
    let st := { st with
      idxWriter, bytesWritten := st.bytesWritten + lineBytes line
      linesSinceIdxFlush := st.linesSinceIdxFlush + 1 }
    let sh : Shared := ⟨disk, sh.seq + 1, sh.sent ++ [⟨ctx.processName, ctx.stream, line⟩]⟩
    if 64 ≤ st.linesSinceIdxFlush then
      let (st, sh) := st.flushIdx sh
      ({ st with linesSinceIdxFlush := 0 }, sh)
    else (st, sh)

/-- What `write_line` does before the line: rotate, if it does not fit. -/
def makeRoom (ctx : LogContext) (line : String) (st : LogWriteState) (sh : Shared) :
    LogWriteState × Shared :=
  if st.Overflows ctx line then (st.reopen ctx .ok sh).2 else (st, sh)

/-- `write_line`, where the log file stores what these writes store. -/
def writeTorn (ctx : LogContext) (w : Writes) (line : String) (st : LogWriteState) (sh : Shared) :
    LogWriteState × Shared :=
  (st.makeRoom ctx line sh).1.emitTorn ctx w line (st.makeRoom ctx line sh).2

variable {ctx : LogContext} {w : Writes} {line : String} {st : LogWriteState} {sh : Shared}

/-- Whole writes are those of `write_line` without failures. -/
theorem writeTorn_of_whole (h : w.Whole line) :
    st.writeTorn ctx w line sh = st.writeLine ctx .ok line sh := by
  have hemit (st : LogWriteState) (sh : Shared) : st.emitTorn ctx w line sh = st.emit ctx line sh := by
    rw [emitTorn, emit, Writes.stored_of_whole h]
    rfl
  rw [writeTorn, writeLine, makeRoom]
  split_ifs
  · exact hemit _ _
  · exact hemit _ _

end LogWriteState

/-- A line that was indexed, and where. -/
structure Placed where
  record : IndexRecord
  line : String
  writes : Writes
  /-- The log file it went to. -/
  file : ℕ
  deriving DecidableEq, Repr

/-- What the file has of it. -/
def Placed.stored (x : Placed) : List UInt8 := x.writes.stored x.line

/-- Both of its writes succeeded. -/
def Placed.Whole (x : Placed) : Prop := x.writes.Whole x.line

/-- A capture whose writes may fail, with the lines it has indexed, oldest first. -/
structure TornLog where
  state : LogWriteState
  shared : Shared
  placed : List Placed

namespace TornLog

variable (ctx : LogContext)

/-- A capture of a log just opened. -/
def opened (disk : Disk) (seq : ℕ) : TornLog where
  state := .start (LogSink.openAt ctx.logPath seq disk).1
  shared := ⟨(LogSink.openAt ctx.logPath seq disk).2, seq, []⟩
  placed := []

/-- What is indexed for a line that finds this state. -/
def place (w : Writes) (line : String) (st : LogWriteState) (sh : Shared) : List Placed :=
  (st.file.map fun file => (⟨st.nextRecord sh, line, w, file⟩ : Placed)).toList

/-- A call of `write_line`. -/
def write (w : Writes) (line : String) (p : TornLog) : TornLog where
  state := (p.state.writeTorn ctx w line p.shared).1
  shared := (p.state.writeTorn ctx w line p.shared).2
  placed := p.placed ++ place w line (p.state.makeRoom ctx line p.shared).1
    (p.state.makeRoom ctx line p.shared).2

end TornLog

/-- **The captures of a log**: every sequence of lines, and every pattern of writes that fail. -/
def tornLogs (ctx : LogContext) : Machine TornLog (Writes × String) where
  init p := ∃ disk seq, p = .opened ctx disk seq
  step p e p' := p' = p.write ctx e.1 e.2

/-! ## What is in a file -/

/-- What these lines have left in a file. -/
def leftIn (file : ℕ) (xs : List Placed) : List UInt8 :=
  (xs.filter (·.file = file)).flatMap Placed.stored

/-- How long the capture takes that to be. -/
def countedIn (file : ℕ) (xs : List Placed) : ℕ :=
  ((xs.filter (·.file = file)).map fun x => lineBytes x.line).sum

/-- **Every record says where its line's text begins**, in the file as it is: what is before the
offset is what the lines before it have left there. -/
def WellPlaced (p : TornLog) : Prop :=
  ∀ xs x ys, p.placed = xs ++ x :: ys →
    ∃ after, (p.shared.disk.data x.file).bytes = leftIn x.file xs ++ x.stored ++ after ∧
      x.record.byteOffset = (leftIn x.file xs).length

section Lists

variable {file : ℕ} {xs ys : List Placed} {x : Placed}

theorem leftIn_append : leftIn file (xs ++ ys) = leftIn file xs ++ leftIn file ys := by
  simp [leftIn]

theorem countedIn_append : countedIn file (xs ++ ys) = countedIn file xs + countedIn file ys := by
  simp [countedIn]

theorem leftIn_singleton : leftIn file [x] = if x.file = file then x.stored else [] := by
  by_cases h : x.file = file <;> simp [leftIn, h]

theorem countedIn_singleton : countedIn file [x] = if x.file = file then lineBytes x.line else 0 := by
  by_cases h : x.file = file <;> simp [countedIn, h]

theorem leftIn_of_ne (h : ∀ x ∈ xs, x.file ≠ file) : leftIn file xs = [] := by
  rw [leftIn, List.filter_eq_nil_iff.mpr fun x hx => by simpa using h x hx]
  rfl

theorem countedIn_of_ne (h : ∀ x ∈ xs, x.file ≠ file) : countedIn file xs = 0 := by
  rw [countedIn, List.filter_eq_nil_iff.mpr fun x hx => by simpa using h x hx]
  rfl

theorem length_leftIn_le (file : ℕ) (xs : List Placed) :
    (leftIn file xs).length ≤ countedIn file xs := by
  induction xs with
  | nil => exact le_rfl
  | cons x xs ih =>
    rw [← List.singleton_append, leftIn_append, countedIn_append, leftIn_singleton,
      countedIn_singleton, List.length_append]
    have hx : x.stored.length ≤ lineBytes x.line := x.writes.length_stored_le x.line
    split
    · omega
    · simpa using ih

/-- **The count is right** exactly if every line was stored whole. -/
theorem countedIn_eq_iff : countedIn file xs = (leftIn file xs).length ↔
    ∀ x ∈ xs, x.file = file → x.Whole := by
  induction xs with
  | nil => simp [countedIn, leftIn]
  | cons x xs ih =>
    have hle := length_leftIn_le file xs
    have hx : x.stored.length ≤ lineBytes x.line := x.writes.length_stored_le x.line
    have hwhole : x.stored.length = lineBytes x.line ↔ x.Whole := Writes.length_stored_iff
    rw [← List.singleton_append, leftIn_append, countedIn_append, leftIn_singleton,
      countedIn_singleton, List.length_append, List.singleton_append, List.forall_mem_cons, ← ih,
      ← hwhole]
    by_cases hfile : x.file = file
    · simp only [hfile, if_true, forall_const]
      omega
    · simp [hfile]

end Lists

/-! ## What a log file goes through -/

/-- Text that is in a file stays there. -/
structure KeepsText (disk disk' : Disk) : Prop where
  next : disk.next ≤ disk'.next
  text : ∀ f < disk.next, ∀ bytes, disk.data f = .text bytes → disk'.data f = .text bytes

namespace KeepsText

variable {disk disk' disk'' : Disk} {path : FileName} {n : ℕ}

theorem refl (disk : Disk) : KeepsText disk disk := ⟨le_rfl, fun _ _ _ h => h⟩

theorem trans (h : KeepsText disk disk') (h' : KeepsText disk' disk'') : KeepsText disk disk'' :=
  ⟨h.next.trans h'.next, fun f hf bytes hb =>
    h'.text f (hf.trans_le h.next) bytes (h.text f hf bytes hb)⟩

/-- A flush only adds records, to an index. -/
theorem flush (w : IndexWriter) (disk : Disk) : KeepsText disk (w.flush disk).2 := by
  refine ⟨le_rfl, fun f _ bytes hb => ?_⟩
  change Function.update disk.data w.file _ f = _
  rw [Function.update_apply]
  split
  · rename_i heq
    rw [← heq, hb]
    rfl
  · exact hb

theorem flushIdx (st : LogWriteState) (sh : Shared) :
    KeepsText sh.disk (st.flushIdx sh).2.disk := flush st.idxWriter sh.disk

theorem data_renameSegment (source target : FileName) (disk : Disk) :
    (renameSegment source target disk).data = disk.data := by
  rw [renameSegment, renameFile, renameFile]
  split_ifs <;> rfl

theorem data_shiftSegments : ∀ (m : ℕ) (disk : Disk), (shiftSegments path m disk).data = disk.data
  | 0, _ => rfl
  | m + 1, disk => by rw [shiftSegments, data_shiftSegments m, data_renameSegment]

/-- A rotation moves names only. -/
theorem rotate (path : FileName) (n : ℕ) (disk : Disk) :
    KeepsText disk (rotateLogFiles path n disk) := by
  have hdata : (rotateLogFiles path n disk).data = disk.data :=
    (data_renameSegment _ _ _).trans (data_shiftSegments _ _)
  refine ⟨next_rotateLogFiles.ge, fun f _ bytes hb => ?_⟩
  rwa [hdata]

/-- A new file is none of those before. -/
theorem create {f : FileName} (hf : disk.dir f = none) (c : Content) :
    KeepsText disk (disk.create f c).2 := by
  rw [FileSystem.create, hf]
  refine ⟨Nat.le_succ _, fun i hi bytes hb => ?_⟩
  exact (Function.update_of_ne hi.ne _ _).trans hb

end KeepsText

/-- **Where a capture is**: its files hold what its lines have left there, and each line was indexed
with the count of the lines before it. -/
structure Laid (st : LogWriteState) (disk : Disk) (placed : List Placed) : Prop where
  file : ∃ h, st.file = some h ∧ h < disk.next ∧ disk.data h = .text (leftIn h placed) ∧
    st.bytesWritten = countedIn h placed
  kept : ∀ x ∈ placed, x.file < disk.next ∧ disk.data x.file = .text (leftIn x.file placed)
  offsets : ∀ xs x ys, placed = xs ++ x :: ys → x.record.byteOffset = countedIn x.file xs

namespace Laid

variable {ctx : LogContext} {st : LogWriteState} {sh : Shared} {placed : List Placed}

/-- A log just opened. -/
theorem opened (ctx : LogContext) (disk : Disk) (seq : ℕ) :
    Laid (TornLog.opened ctx disk seq).state (TornLog.opened ctx disk seq).shared.disk [] := by
  have hhead := Head.created ctx.logPath disk seq
  obtain ⟨h, hfile, hdir⟩ := hhead.file
  have hlog := hhead.log
  rw [FileSystem.read, hdir] at hlog
  exact ⟨⟨h, hfile, FileSystem.lt_next _ hdir, Option.some.inj hlog, rfl⟩,
    List.forall_mem_nil _, fun xs x ys hnil => absurd hnil (by simp)⟩

/-- **A rotation** starts a new file, and leaves the others as they are. -/
theorem makeRoom (hx : Rotatable ctx.logPath) (h : Laid st sh.disk placed) (line : String) :
    Laid (st.makeRoom ctx line sh).1 (st.makeRoom ctx line sh).2.disk placed := by
  rw [LogWriteState.makeRoom]
  split
  · let rotated := rotateLogFiles ctx.logPath ctx.maxRotatedFiles (st.flushIdx sh).2.disk
    let created := rotated.create ctx.logPath (.text [])
    have hlog : rotated.dir ctx.logPath = none := dir_rotateLogFiles_log hx
    have hfresh : created = (rotated.next, rotated.link ctx.logPath (.text [])) := by
      rw [show created = rotated.create ctx.logPath (.text []) from rfl, FileSystem.create, hlog]
    have hne : idxPathFor ctx.logPath ≠ ctx.logPath := (ne_idxPathFor _).symm
    have hidx : created.2.dir (idxPathFor ctx.logPath) = none := by
      rw [FileSystem.dir_create, Function.update_of_ne hne]
      exact dir_rotateLogFiles_idx hx
    have hindexed : KeepsText created.2
        (created.2.create (idxPathFor ctx.logPath) (.index sh.seq [])).2 := .create hidx _
    have hrotated : KeepsText sh.disk rotated := (KeepsText.flushIdx st sh).trans (.rotate ..)
    have hkeeps : KeepsText sh.disk
        (created.2.create (idxPathFor ctx.logPath) (.index sh.seq [])).2 :=
      (hrotated.trans (.create hlog _)).trans hindexed
    have hnext : rotated.next < created.2.next := by
      rw [hfresh]
      exact Nat.lt_succ_self _
    have hnew : ∀ x ∈ placed, x.file ≠ rotated.next :=
      fun x hmem => ((h.kept x hmem).1.trans_le hrotated.next).ne
    have hempty : created.2.data rotated.next = .text [] := by
      rw [hfresh]
      exact Function.update_self ..
    refine ⟨⟨rotated.next, ?_, hnext.trans_le hindexed.next, ?_, ?_⟩, fun x hmem => ?_, h.offsets⟩
    · change some created.1 = some rotated.next
      rw [hfresh]
    · rw [leftIn_of_ne hnew]
      exact hindexed.text _ hnext _ hempty
    · rw [countedIn_of_ne hnew]
      rfl
    · obtain ⟨hlt, hdata⟩ := h.kept x hmem
      exact ⟨hlt.trans_le hkeeps.next, hkeeps.text _ hlt _ hdata⟩
  · exact h

/-- A flush changes none of it. -/
theorem flushIdx (h : Laid st sh.disk placed) :
    Laid (st.flushIdx sh).1 (st.flushIdx sh).2.disk placed := by
  have hkeeps := KeepsText.flushIdx st sh
  obtain ⟨i, hfile, hlt, hdata, hbytes⟩ := h.file
  refine ⟨⟨i, hfile, hlt, hkeeps.text i hlt _ hdata, hbytes⟩, fun x hmem => ?_, h.offsets⟩
  obtain ⟨hlt, hdata⟩ := h.kept x hmem
  exact ⟨hlt, hkeeps.text _ hlt _ hdata⟩

/-- **A line**, stored or not, is indexed with the count of those before it. -/
theorem emitTorn (h : Laid st sh.disk placed) (w : Writes) (line : String) :
    Laid (st.emitTorn ctx w line sh).1 (st.emitTorn ctx w line sh).2.disk
      (placed ++ TornLog.place w line st sh) := by
  obtain ⟨i, hfile, hlt, hdata, hbytes⟩ := h.file
  let x : Placed := ⟨st.nextRecord sh, line, w, i⟩
  have hplace : TornLog.place w line st sh = [x] := by
    rw [TornLog.place, hfile]
    rfl
  let disk := sh.disk.modify i (Content.appendBytes (w.stored line))
  let st' : LogWriteState := ⟨some i, st.idxWriter.append x.record,
    st.bytesWritten + lineBytes line, st.linesSinceIdxFlush + 1⟩
  have hstored : Laid st' disk (placed ++ [x]) := by
    have hhere : disk.data i = .text (leftIn i (placed ++ [x])) := by
      rw [leftIn_append, leftIn_singleton, if_pos rfl]
      change Function.update sh.disk.data i _ i = _
      rw [Function.update_self, hdata]
      rfl
    refine ⟨⟨i, rfl, hlt, hhere, ?_⟩, fun y hmem => ?_, fun xs y ys hsplit => ?_⟩
    · rw [countedIn_append, countedIn_singleton, if_pos rfl, ← hbytes]
    · by_cases hy : y.file = i
      · rw [hy]
        exact ⟨hlt, hhere⟩
      · have hold : y ∈ placed := (List.mem_append.mp hmem).resolve_right fun hlast => by
          rw [List.mem_singleton.mp hlast] at hy
          exact hy rfl
        obtain ⟨hylt, hydata⟩ := h.kept y hold
        refine ⟨hylt, ?_⟩
        rw [leftIn_append, leftIn_singleton, if_neg (Ne.symm hy), List.append_nil, ← hydata]
        exact Function.update_of_ne hy ..
    · rcases List.eq_nil_or_concat ys with rfl | ⟨ys, z, rfl⟩
      · obtain ⟨rfl, hlast⟩ := List.append_inj' hsplit rfl
        rw [← (List.cons.inj hlast).1]
        exact hbytes
      · rw [List.concat_eq_append, ← List.cons_append, ← List.append_assoc] at hsplit
        exact h.offsets xs y ys (List.append_inj' hsplit rfl).1
  rw [hplace, LogWriteState.emitTorn, hfile]
  dsimp only
  split
  · have hflushed : Laid (st'.flushIdx ⟨disk, sh.seq + 1,
        sh.sent ++ [⟨ctx.processName, ctx.stream, line⟩]⟩).1 (st'.flushIdx ⟨disk, sh.seq + 1,
        sh.sent ++ [⟨ctx.processName, ctx.stream, line⟩]⟩).2.disk (placed ++ [x]) :=
      flushIdx hstored
    exact ⟨hflushed.file, hflushed.kept, hflushed.offsets⟩
  · exact hstored

/-- **Offsets are where texts begin**, exactly if the lines before were stored whole. -/
theorem wellPlaced_iff {p : TornLog} (h : Laid p.state p.shared.disk p.placed) : WellPlaced p ↔
    ∀ xs x ys, p.placed = xs ++ x :: ys → ∀ y ∈ xs, y.file = x.file → y.Whole := by
  refine forall_congr' fun xs => forall_congr' fun x => forall_congr' fun ys =>
    forall_congr' fun hsplit => ?_
  rw [← countedIn_eq_iff, ← h.offsets xs x ys hsplit]
  have hdata := (h.kept x (hsplit ▸ List.mem_append_right _ List.mem_cons_self)).2
  constructor
  · rintro ⟨after, -, hoffset⟩
    exact hoffset
  · intro hoffset
    refine ⟨leftIn x.file ys, ?_, hoffset⟩
    rw [hdata, hsplit, ← List.singleton_append, leftIn_append, leftIn_append, leftIn_singleton,
      if_pos rfl]
    exact (List.append_assoc ..).symm

end Laid

/-! ## Every run -/

variable {ctx : LogContext} {p p₀ : TornLog} {ts : List (Transition TornLog (Writes × String))}

theorem laid_of_run (hx : Rotatable ctx.logPath) (h₀ : (tornLogs ctx).init p₀)
    (hrun : (tornLogs ctx).Run p₀ ts p) : Laid p.state p.shared.disk p.placed := by
  obtain ⟨disk, seq, rfl⟩ := h₀
  induction hrun with
  | refl => exact .opened ctx disk seq
  | @snoc ts p p' e _ hstep ih =>
    obtain rfl : p' = p.write ctx e.1 e.2 := hstep
    exact (ih.makeRoom hx e.2).emitTorn e.1 e.2

/-- **The index is right, exactly if only last lines are torn**: after any run of writes, each of
which may store any part of its line, every record says where its line's text begins, if and only if
in each log file every line but the last was stored whole. -/
theorem wellPlaced_iff_wholeBefore {name : String} (hdot : name ≠ ".") {stream : Stream}
    {maxBytes maxRotatedFiles : ℕ}
    (h₀ : (tornLogs (.of name stream maxBytes maxRotatedFiles)).init p₀)
    (hrun : (tornLogs (.of name stream maxBytes maxRotatedFiles)).Run p₀ ts p) : WellPlaced p ↔
      ∀ xs x ys, p.placed = xs ++ x :: ys → ∀ y ∈ xs, y.file = x.file → y.Whole :=
  (laid_of_run (rotatable_logPathOf hdot stream) h₀ hrun).wellPlaced_iff

/-- What an indexed read finds at the offset of a line. -/
theorem WellPlaced.read {xs ys : List Placed} {x : Placed} (h : WellPlaced p)
    (hsplit : p.placed = xs ++ x :: ys) (hwhole : x.Whole) (hline : NEWLINE ∉ utf8 x.line) :
    (takeLine NEWLINE ((p.shared.disk.data x.file).bytes.drop x.record.byteOffset)).1 =
      utf8 x.line ++ [NEWLINE] := by
  obtain ⟨after, hbytes, hoffset⟩ := h xs x ys hsplit
  rw [hbytes, hoffset, List.append_assoc, List.drop_left, Placed.stored,
    Writes.stored_of_whole hwhole, List.append_assoc, List.singleton_append, takeLine_line hline]

/-! ## Two lines in one file -/

namespace TwoLines

/-- `web`, without a limit. -/
def log : LogContext := .of "web" .stdout 0 5

/-- A capture into an empty directory. -/
def start : TornLog := .opened log (.empty (.text [])) 0

/-- `abc`, then `xyz`. -/
def after (abc xyz : Writes) : TornLog := (start.write log abc "abc").write log xyz "xyz"

theorem run_after (abc xyz : Writes) : ∃ ts, (tornLogs log).Run start ts (after abc xyz) :=
  ⟨_, (Machine.Run.snoc (M := tornLogs log) (e := (abc, "abc")) .refl rfl).snoc
    (e := (xyz, "xyz")) rfl⟩

end TwoLines

open TwoLines in
/-- Only the last line is torn. -/
theorem wellPlaced_iff_wholeBefore_last : WellPlaced (after ⟨3, true⟩ ⟨1, false⟩) := by
  obtain ⟨ts, hrun⟩ := run_after ⟨3, true⟩ ⟨1, false⟩
  refine (wellPlaced_iff_wholeBefore (by decide) ⟨_, _, rfl⟩ hrun).mpr
    fun xs x ys hsplit y hy _ => ?_
  have hbefore : ∀ y ∈ (after ⟨3, true⟩ ⟨1, false⟩).placed.dropLast, y.writes.Whole y.line := by
    decide +kernel
  rw [hsplit, List.dropLast_append_cons] at hbefore
  exact hbefore y (List.mem_append_left _ hy)

/-- No pattern of failed writes puts a wrong offset into the index. -/
def IndexSurvives : Prop :=
  ∀ name, name ≠ "." → ∀ stream maxBytes maxRotatedFiles p₀ ts p,
    (tornLogs (.of name stream maxBytes maxRotatedFiles)).init p₀ →
    (tornLogs (.of name stream maxBytes maxRotatedFiles)).Run p₀ ts p → WellPlaced p

open TwoLines in
/-- **A line cut short**, and every later line of the file is read from its middle: of `abc⏎` two
bytes are stored, `xyz` begins at 2, and the index says 4. -/
theorem not_indexSurvives : ¬IndexSurvives := by
  intro h
  obtain ⟨ts, hrun⟩ := run_after ⟨2, false⟩ ⟨3, true⟩
  have hplaced : (after ⟨2, false⟩ ⟨3, true⟩).placed =
      [⟨⟨0, 0⟩, "abc", ⟨2, false⟩, 0⟩] ++ [⟨⟨4, 1⟩, "xyz", ⟨3, true⟩, 0⟩] := by decide +kernel
  obtain ⟨-, -, hoffset⟩ := h _ (by decide) _ _ _ _ _ _ ⟨_, _, rfl⟩ hrun _ _ _ hplaced
  exact absurd hoffset (by decide +kernel)

end AgentProcs
