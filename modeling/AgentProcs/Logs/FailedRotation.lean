import AgentProcs.Logs.Writing
import AgentProcs.Machinery.Runs

/-!
# Logs/FailedRotation — when a log or its index cannot be created again

    full ──rotate──▸ create log ──✗──▸ return      no log open, the byte count of the old one
                        │
                        ▾
                     create index ──✗──▸ return    an empty log open, the old index, the old count

Both early returns keep the byte count of the log rotated away.  So the next line that does not fit
rotates again, whatever has become of the log: the segments move up and nothing takes the place of the
newest.  A line that does fit is dropped, or written to a log without an index.
-/

namespace AgentProcs

/-- A capture whose rotations may fail, with what it has done. -/
structure FailingLog where
  state : LogWriteState
  shared : Shared
  /-- The lines written. -/
  written : List String
  /-- Those of them the current log has received. -/
  current : List String
  /-- The lines each cascade shift has moved out of the current log. -/
  shifted : List (List String)

namespace FailingLog

variable (ctx : LogContext)

/-- A capture of a log just opened. -/
def opened (disk : Disk) (seq : ℕ) : FailingLog where
  state := .start (LogSink.openAt ctx.logPath seq disk).1
  shared := ⟨(LogSink.openAt ctx.logPath seq disk).2, seq, []⟩
  written := []
  current := []
  shifted := []

/-- Is the line written? -/
def takes (creates : Creations) (line : String) (p : FailingLog) : Bool :=
  if p.state.Overflows ctx line then creates.log && creates.index else p.state.file.isSome

/-- A call of `write_line`. -/
def write (creates : Creations) (line : String) (p : FailingLog) : FailingLog :=
  let (state, shared) := p.state.writeLine ctx creates line p.shared
  let kept := if p.state.Overflows ctx line then [] else p.current
  { state, shared
    written := if p.takes ctx creates line then p.written ++ [line] else p.written
    current := if p.takes ctx creates line then kept ++ [line] else kept
    shifted := if p.state.Overflows ctx line then p.shifted ++ [p.current] else p.shifted }

/-- The same lines written to the same directory without failures. -/
def unfailing (p : FailingLog) (lines : List String) : LogWriteState × Shared :=
  lines.foldl (fun (state, shared) line => state.writeLine ctx .ok line shared) (p.state, p.shared)

theorem unfailing_append (p : FailingLog) (lines : List String) (line : String) :
    p.unfailing ctx (lines ++ [line]) =
      (p.unfailing ctx lines).1.writeLine ctx .ok line (p.unfailing ctx lines).2 := by
  rw [unfailing, List.foldl_append]
  rfl

end FailingLog

/-- **The captures of a log**: every sequence of lines, every pattern of failures, any directory. -/
def failingLogs (ctx : LogContext) : Machine FailingLog (Creations × String) where
  init p := ∃ disk seq, p = .opened ctx disk seq
  step p e p' := p' = p.write ctx e.1 e.2

/-- **No history destroyed**: each shift has moved a segment that had received lines, and once the log
receives lines again, the directory is that of an unfailing run over the lines written. -/
structure Intact (ctx : LogContext) (start p : FailingLog) : Prop where
  matched : ∀ lines ∈ p.shifted, lines ≠ []
  history : p.current ≠ [] → ∀ i,
    p.shared.disk.read (logName ctx.logPath i) =
      (start.unfailing ctx p.written).2.disk.read (logName ctx.logPath i) ∧
    p.shared.disk.read (idxName ctx.logPath i) =
      (start.unfailing ctx p.written).2.disk.read (idxName ctx.logPath i)

/-- A line that does not fit comes when the current log has received a line; one that does fit is
dropped, or goes to a log with its own index. -/
def Timely (ctx : LogContext) (p : FailingLog) (line : String) : Prop :=
  if p.state.Overflows ctx line then p.current ≠ []
  else p.state.file = none ∨
    p.shared.disk.dir (idxPathFor ctx.logPath) = some p.state.idxWriter.file

instance (ctx : LogContext) (p : FailingLog) (line : String) : Decidable (Timely ctx p line) :=
  inferInstanceAs (Decidable (if p.state.Overflows ctx line then _ else _))

/-! ## Where a failure leaves the capture -/

/-- The capture is as good as one without failures, or waits for a line that does not fit. -/
inductive Health (ctx : LogContext) (start p : FailingLog) : Prop
  | sound {k : ℕ} {cur : Segment} (head : Head ctx.logPath p.state p.shared.disk k cur)
      (same : (p.state, p.shared) = start.unfailing ctx p.written)
      (lines : cur.entries.map Entry.line = p.current)
  | noLog (file : p.state.file = none) (current : p.current = [])
  | noIndex {h k : ℕ} {cur : Segment} (file : p.state.file = some h)
      (dir : p.shared.disk.dir ctx.logPath = some h)
      (empty : p.shared.disk.read ctx.logPath = some (.text []))
      (index : p.shared.disk.dir (idxPathFor ctx.logPath) = none)
      (old : h ≠ p.state.idxWriter.file) (current : p.current = [])
      (head : Head ctx.logPath (start.unfailing ctx p.written).1
        (start.unfailing ctx p.written).2.disk k cur)
      (bytes : p.state.bytesWritten = cur.text.length) (lines : cur.entries ≠ [])

section Health

variable {ctx : LogContext} {start p : FailingLog} {creates : Creations} {line : String}
  {path : FileName} {disk : Disk} {n : ℕ}

/-- A rotation leaves no current log and no current index. -/
theorem dir_rotateLogFiles_log (hx : Rotatable path) :
    (rotateLogFiles path n disk).dir path = none := by
  have h := Directory.rotateBoth_comp_left (d := disk.dir) (n := n) (logName_injective hx)
    (logName_ne_idxName hx)
  rw [dir_rotateLogFiles hx]
  exact (congrFun h 0).trans (Directory.rotate_zero _ _)

theorem dir_rotateLogFiles_idx (hx : Rotatable path) :
    (rotateLogFiles path n disk).dir (idxPathFor path) = none := by
  have h := Directory.rotateBoth_comp_right (d := disk.dir) (n := n) (idxName_injective hx)
    (logName_ne_idxName hx)
  rw [dir_rotateLogFiles hx]
  exact (congrFun h 0).trans (Directory.rotate_zero _ _)

theorem next_renameFile (source target : FileName) (disk : Disk) :
    (renameFile source target disk).next = disk.next := by
  rw [renameFile]
  split_ifs <;> rfl

theorem next_renameSegment (source target : FileName) (disk : Disk) :
    (renameSegment source target disk).next = disk.next := by
  rw [renameSegment, next_renameFile, next_renameFile]

theorem next_shiftSegments : ∀ (m : ℕ) (disk : Disk), (shiftSegments path m disk).next = disk.next
  | 0, _ => rfl
  | m + 1, disk => by rw [shiftSegments, next_shiftSegments m, next_renameSegment]

theorem next_rotateLogFiles : (rotateLogFiles path n disk).next = disk.next :=
  (next_renameSegment _ _ _).trans (next_shiftSegments _ _)

/-- The log created after a rotation is a new file. -/
theorem create_rotateLogFiles (hx : Rotatable path) (c : Content) :
    ((rotateLogFiles path n disk).create path c).1 = disk.next := by
  rw [FileSystem.create, dir_rotateLogFiles_log hx]
  exact next_rotateLogFiles

/-! ### What each kind of call does -/

theorem write_fits (hfits : ¬p.state.Overflows ctx line) :
    p.state.writeLine ctx creates line p.shared = p.state.emit ctx line p.shared := by
  rw [LogWriteState.writeLine, if_neg hfits]

/-- The directory after a rotation. -/
def FailingLog.rotated (ctx : LogContext) (p : FailingLog) : Disk :=
  rotateLogFiles ctx.logPath ctx.maxRotatedFiles (p.state.idxWriter.flush p.shared.disk).2

/-- The log cannot be created: none is open. -/
theorem write_noLog (index : Bool) (hfull : p.state.Overflows ctx line) :
    p.state.writeLine ctx ⟨false, index⟩ line p.shared =
      ({ p.state with file := none, idxWriter := ⟨p.state.idxWriter.file, []⟩ },
        { p.shared with disk := p.rotated ctx }) := by
  rw [LogWriteState.writeLine, if_pos hfull]
  rfl

/-- The index cannot be created: an empty log is open, with the index of the one before. -/
theorem write_noIndex (hfull : p.state.Overflows ctx line) :
    p.state.writeLine ctx ⟨true, false⟩ line p.shared =
      ({ p.state with
          file := some ((p.rotated ctx).create ctx.logPath (.text [])).1
          idxWriter := ⟨p.state.idxWriter.file, []⟩ },
        { p.shared with disk := ((p.rotated ctx).create ctx.logPath (.text [])).2 }) := by
  rw [LogWriteState.writeLine, if_pos hfull]
  rfl

/-- A line for a log not open is dropped. -/
theorem emit_of_none (h : p.state.file = none) :
    p.state.emit ctx line p.shared = (p.state, p.shared) := by
  rw [LogWriteState.emit, h]

end Health

namespace Health

variable {ctx : LogContext} {start p : FailingLog} {creates : Creations} {line : String}

/-- A call without failures. -/
theorem of_takes {k : ℕ} {cur : Segment} (head : Head ctx.logPath p.state p.shared.disk k cur)
    (same : (p.state, p.shared) = start.unfailing ctx p.written)
    (lines : cur.entries.map Entry.line = p.current) (htakes : p.takes ctx creates line = true)
    (hok : p.state.writeLine ctx creates line p.shared =
      p.state.writeLine ctx .ok line p.shared) :
    Health ctx start (p.write ctx creates line) := by
  obtain ⟨k', hhead⟩ := head.writeLine line
  have hhead' : Head ctx.logPath (p.write ctx creates line).state
      (p.write ctx creates line).shared.disk k' (if p.state.Overflows ctx line
        then ⟨p.shared.seq, [⟨line, p.shared.seq⟩]⟩ else cur.put ⟨line, p.shared.seq⟩) := by
    simp only [FailingLog.write, hok]
    exact hhead
  refine .sound hhead' ?_ ?_
  · simp only [FailingLog.write, hok, htakes, if_true]
    rw [FailingLog.unfailing_append, ← same]
  · simp only [FailingLog.write, htakes, if_true]
    split_ifs
    · rfl
    · rw [Segment.entries_put, List.map_append, lines]
      rfl

/-- **A failed creation** of the index. -/
theorem of_noIndex (hx : Rotatable ctx.logPath) {k : ℕ} {cur : Segment}
    (head : Head ctx.logPath p.state p.shared.disk k cur)
    (same : (p.state, p.shared) = start.unfailing ctx p.written) (lines : cur.entries ≠ [])
    (hfull : p.state.Overflows ctx line) :
    Health ctx start (p.write ctx ⟨true, false⟩ line) := by
  have hne : idxPathFor ctx.logPath ≠ ctx.logPath := (logName_ne_idxName hx 0 0).symm
  have hwrite := write_noIndex hfull
  have hwritten : (p.write ctx ⟨true, false⟩ line).written = p.written := by
    simp only [FailingLog.write, FailingLog.takes, if_pos hfull]
    rfl
  set created := (p.rotated ctx).create ctx.logPath (.text []) with hcreated
  have hnext : created.1 = p.shared.disk.next := create_rotateLogFiles hx _
  refine @Health.noIndex _ _ _ created.1 k cur ?_ ?_ ?_ ?_ ?_ ?_ ?_ ?_ lines
  · simp only [FailingLog.write, hwrite]
  · simp only [FailingLog.write, hwrite]
    rw [hcreated, FileSystem.dir_create, Function.update_self]
  · simp only [FailingLog.write, hwrite]
    rw [hcreated, FileSystem.read_create, Function.update_self]
  · simp only [FailingLog.write, hwrite]
    rw [hcreated, FileSystem.dir_create, Function.update_of_ne hne]
    exact dir_rotateLogFiles_idx hx
  · simp only [FailingLog.write, hwrite]
    rw [hnext]
    exact (p.shared.disk.lt_next head.index).ne'
  · simp only [FailingLog.write, FailingLog.takes, if_pos hfull]
    rfl
  · rw [hwritten, ← same]
    exact head
  · simp only [FailingLog.write, hwrite]
    exact head.bytes

/-- **A call on a sound capture.** -/
theorem of_sound (hx : Rotatable ctx.logPath) {k : ℕ} {cur : Segment}
    (head : Head ctx.logPath p.state p.shared.disk k cur)
    (same : (p.state, p.shared) = start.unfailing ctx p.written)
    (lines : cur.entries.map Entry.line = p.current)
    (hcurrent : p.state.Overflows ctx line → p.current ≠ []) :
    Health ctx start (p.write ctx creates line) := by
  obtain ⟨i, hfile, -⟩ := head.file
  by_cases hfull : p.state.Overflows ctx line
  · have hentries : cur.entries ≠ [] := fun hnil => hcurrent hfull (by rw [← lines, hnil]; rfl)
    obtain ⟨log, index⟩ := creates
    cases log with
    | false =>
      refine .noLog ?_ ?_
      · simp only [FailingLog.write, write_noLog index hfull]
      · simp only [FailingLog.write, FailingLog.takes, if_pos hfull]
        rfl
    | true =>
      cases index with
      | false => exact of_noIndex hx head same hentries hfull
      | true => exact of_takes head same lines (if_pos hfull) rfl
  · refine of_takes head same lines ?_ (by rw [write_fits hfull, write_fits hfull])
    rw [FailingLog.takes, if_neg hfull, hfile]
    rfl

/-- **A timely line** keeps the capture healthy. -/
theorem write (hx : Rotatable ctx.logPath) (h : Health ctx start p) (htimely : Timely ctx p line) :
    Health ctx start (p.write ctx creates line) := by
  have hcurrent : p.state.Overflows ctx line → p.current ≠ [] := fun hfull => by
    rwa [Timely, if_pos hfull] at htimely
  cases h with
  | sound head same lines => exact of_sound hx head same lines hcurrent
  | noLog file current =>
    have hfits : ¬p.state.Overflows ctx line := fun hfull => hcurrent hfull current
    refine .noLog ?_ ?_
    · simp only [FailingLog.write, write_fits hfits, emit_of_none file]
      exact file
    · simp only [FailingLog.write, FailingLog.takes, if_neg hfits, file]
      exact current
  | noIndex file dir empty index old current head bytes lines =>
    have hfits : ¬p.state.Overflows ctx line := fun hfull => hcurrent hfull current
    rw [Timely, if_neg hfits, file, index] at htimely
    rcases htimely with hnone | hnone <;> cases hnone

/-- A healthy capture whose shifts were all matched has destroyed nothing. -/
theorem intact (h : Health ctx start p) (hmatched : ∀ lines ∈ p.shifted, lines ≠ []) :
    Intact ctx start p where
  matched := hmatched
  history hcurrent i := by
    cases h with
    | sound head same lines =>
      have hdisk : p.shared.disk = (start.unfailing ctx p.written).2.disk := by rw [← same]
      rw [hdisk]
      exact ⟨rfl, rfl⟩
    | noLog file current => exact absurd current hcurrent
    | noIndex file dir empty index old current => exact absurd current hcurrent

/-- **A line for a log without its index** is not where an unfailing run would have it. -/
theorem read_ne_of_noIndex {h k : ℕ} {cur : Segment}
    (file : p.state.file = some h) (dir : p.shared.disk.dir ctx.logPath = some h)
    (empty : p.shared.disk.read ctx.logPath = some (.text []))
    (old : h ≠ p.state.idxWriter.file)
    (head : Head ctx.logPath (start.unfailing ctx p.written).1
      (start.unfailing ctx p.written).2.disk k cur)
    (bytes : p.state.bytesWritten = cur.text.length) (lines : cur.entries ≠ [])
    (hfits : ¬p.state.Overflows ctx line) :
    (p.state.writeLine ctx creates line p.shared).2.disk.read ctx.logPath ≠
      (start.unfailing ctx (p.written ++ [line])).2.disk.read ctx.logPath := by
  have hfits' : ¬(start.unfailing ctx p.written).1.Overflows ctx line := by
    rw [LogWriteState.Overflows] at hfits ⊢
    rwa [head.bytes, ← bytes]
  obtain ⟨k', hhead⟩ := head.writeLine line
  rw [if_neg hfits'] at hhead
  rw [FailingLog.unfailing_append, hhead.log, write_fits hfits]
  have hread : (p.state.emit ctx line p.shared).2.disk.read ctx.logPath =
      some (.text (utf8 line ++ [NEWLINE])) := by
    have hmodify : (p.shared.disk.modify h (Content.appendBytes (utf8 line ++ [NEWLINE]))).read
        ctx.logPath = some (.text (utf8 line ++ [NEWLINE])) := by
      rw [FileSystem.read_modify dir, Function.update_self, empty]
      rfl
    have hdir : (p.shared.disk.modify h (Content.appendBytes (utf8 line ++ [NEWLINE]))).dir
        ctx.logPath = some h := dir
    rw [LogWriteState.emit, file]
    simp only
    split_ifs
    · rw [LogWriteState.flushIdx, IndexWriter.flush]
      exact (FileSystem.read_modify_of_ne hdir old _).trans hmodify
    · exact hmodify
  rw [hread, Segment.text_put]
  intro heq
  -- the unfailing run has the lines before in the same file
  have hlength := congrArg (fun c => (c.elim [] Content.bytes).length) heq
  have hpositive : 0 < cur.text.length := by
    obtain ⟨e, es, hcons⟩ := List.exists_cons_of_ne_nil lines
    rw [Segment.text, hcons, List.flatMap_cons, List.length_append, Entry.length_bytes, lineBytes]
    omega
  simp only [Option.elim_some, Content.bytes, List.length_append, Entry.bytes] at hlength
  omega

/-- **A line that is not timely** destroys history. -/
theorem not_intact_write (h : Health ctx start p)
    (hnot : ¬Timely ctx p line) : ¬Intact ctx start (p.write ctx creates line) := by
  intro hintact
  by_cases hfull : p.state.Overflows ctx line
  · rw [Timely, if_pos hfull, not_not] at hnot
    refine hintact.matched p.current ?_ hnot
    simp only [FailingLog.write, if_pos hfull]
    exact List.mem_append_right _ List.mem_cons_self
  · rw [Timely, if_neg hfull, not_or] at hnot
    cases h with
    | sound head same lines => exact hnot.2 head.index
    | noLog file current => exact hnot.1 file
    | noIndex file dir empty index old current head bytes lines =>
      have htakes : p.takes ctx creates line = true := by
        rw [FailingLog.takes, if_neg hfull, file]
        rfl
      have hread := (hintact.history (by simp [FailingLog.write, htakes]) 0).1
      simp only [FailingLog.write, htakes, if_true] at hread
      exact read_ne_of_noIndex file dir empty old head bytes lines hfull hread

end Health

/-! ## Whole runs -/

section Runs

variable {ctx : LogContext} {start p : FailingLog} {creates : Creations} {line : String}
  {ts : List (Transition FailingLog (Creations × String))}

theorem matched_write (hmatched : ∀ lines ∈ p.shifted, lines ≠ []) (htimely : Timely ctx p line) :
    ∀ lines ∈ (p.write ctx creates line).shifted, lines ≠ [] := by
  simp only [FailingLog.write]
  split_ifs with hfull
  · rw [Timely, if_pos hfull] at htimely
    intro lines hlines
    rcases List.mem_append.mp hlines with hlines | hlines
    · exact hmatched lines hlines
    · rwa [List.mem_singleton.mp hlines]
  · exact hmatched

/-- A run of timely lines. -/
theorem healthy_of_run (hx : Rotatable ctx.logPath) (hstart : (failingLogs ctx).init start)
    (hrun : (failingLogs ctx).Run start ts p) (htimely : ∀ τ ∈ ts, Timely ctx τ.src τ.ev.2) :
    Health ctx start p ∧ ∀ lines ∈ p.shifted, lines ≠ [] := by
  obtain ⟨disk, seq, rfl⟩ := hstart
  induction hrun with
  | refl => exact ⟨.sound (Head.created _ disk seq) rfl rfl, nofun⟩
  | @snoc ts t u e _ hstep ih =>
    obtain ⟨hts, hlast⟩ := List.forall_mem_append.mp htimely
    have he : Timely ctx t e.2 := hlast _ (List.mem_singleton.mpr rfl)
    obtain ⟨hhealth, hmatched⟩ := ih hts
    obtain rfl : u = t.write ctx e.1 e.2 := hstep
    exact ⟨hhealth.write hx he, matched_write hmatched he⟩

/-- **History is intact all along a run if and only if every line of it is timely.** -/
theorem intact_iff_timely (name : String) (hdot : name ≠ ".") (stream : Stream)
    (maxBytes maxRotatedFiles : ℕ)
    (start p : FailingLog) (ts : List (Transition FailingLog (Creations × String)))
    (hstart : (failingLogs (.of name stream maxBytes maxRotatedFiles)).init start)
    (hrun : (failingLogs (.of name stream maxBytes maxRotatedFiles)).Run start ts p) :
    (∀ τ ∈ ts, Intact (.of name stream maxBytes maxRotatedFiles) start τ.dst) ↔
      ∀ τ ∈ ts, Timely (.of name stream maxBytes maxRotatedFiles) τ.src τ.ev.2 := by
  have hx : Rotatable (LogContext.of name stream maxBytes maxRotatedFiles).logPath :=
    rotatable_logPathOf hdot stream
  induction hrun with
  | refl => exact ⟨fun _ => nofun, fun _ => nofun⟩
  | @snoc ts t u e hrun hstep ih =>
    have hu : u = t.write _ e.1 e.2 := hstep
    rw [List.forall_mem_append, List.forall_mem_append, List.forall_mem_singleton,
      List.forall_mem_singleton]
    refine ⟨fun ⟨hts, hlast⟩ => ?_, fun ⟨hts, hlast⟩ => ?_⟩
    · have htimely := ih.mp hts
      refine ⟨htimely, ?_⟩
      by_contra hnot
      obtain ⟨hhealth, -⟩ := healthy_of_run hx hstart hrun htimely
      subst hu
      exact hhealth.not_intact_write hnot hlast
    · obtain ⟨hhealth, hmatched⟩ := healthy_of_run hx hstart hrun hts
      refine ⟨ih.mpr hts, ?_⟩
      subst hu
      exact (hhealth.write hx hlast).intact (matched_write hmatched hlast)

/-- `web`, four bytes a file. -/
def smallLog : LogContext := .of "web" .stdout 4 5

/-- A capture into an empty directory. -/
def smallStart : FailingLog := .opened smallLog (.empty (.text [])) 0

/-- `web`, five bytes a file. -/
def fiveBytes : LogContext := .of "web" .stdout 5 5

/-- `abc`; `def` in a new file; `ghi`, for which none can be created; and an empty line, dropped. -/
theorem intact_iff_timely_line : ∃ ts p,
    (failingLogs fiveBytes).Run (.opened fiveBytes (.empty (.text [])) 0) ts p ∧
    p.written = ["abc", "def"] ∧ p.shifted = [["abc"], ["def"]] ∧
    ∀ τ ∈ ts, Intact fiveBytes (.opened fiveBytes (.empty (.text [])) 0) τ.dst := by
  have habc := Machine.Run.snoc (M := failingLogs fiveBytes) (e := (.ok, "abc"))
    (.refl (s := .opened fiveBytes (.empty (.text [])) 0)) rfl
  have hdef := habc.snoc (e := (.ok, "def")) rfl
  have hghi := hdef.snoc (e := (⟨false, true⟩, "ghi")) rfl
  have hnone := hghi.snoc (e := (.ok, "")) rfl
  refine ⟨_, _, hnone, by decide +kernel, by decide +kernel, ?_⟩
  refine (intact_iff_timely "web" (by decide) .stdout 5 5 _ _ _ ⟨_, _, rfl⟩ hnone).mpr ?_
  simp only [List.forall_mem_append, List.forall_mem_singleton]
  refine ⟨⟨⟨⟨List.forall_mem_nil _, ?_⟩, ?_⟩, ?_⟩, ?_⟩ <;> decide +kernel

/-- **Two failures** move `abc` up twice: where the newest segment was, nothing is. -/
theorem not_intact : ∃ ts p, (failingLogs smallLog).Run smallStart ts p ∧
    p.written = ["abc"] ∧ p.shifted = [["abc"], []] ∧
    p.shared.disk.dir (rotatedPath smallLog.logPath 1) = none ∧
    p.shared.disk.read (rotatedPath smallLog.logPath 2) = some (.text (utf8 "abc\n")) ∧
    ¬Intact smallLog smallStart p := by
  have habc := Machine.Run.snoc (M := failingLogs smallLog) (e := (.ok, "abc"))
    (.refl (s := smallStart)) rfl
  have hdef := habc.snoc (e := (⟨false, true⟩, "def")) rfl
  have hghi := hdef.snoc (e := (⟨false, true⟩, "ghi")) rfl
  have hshifted : (((smallStart.write smallLog .ok "abc").write smallLog ⟨false, true⟩ "def").write
      smallLog ⟨false, true⟩ "ghi").shifted = [["abc"], []] := by decide +kernel
  refine ⟨_, _, hghi, by decide +kernel, hshifted, by decide +kernel, by decide +kernel,
    fun hintact => ?_⟩
  exact hintact.matched [] (by rw [hshifted]; simp) rfl

end Runs

end AgentProcs
