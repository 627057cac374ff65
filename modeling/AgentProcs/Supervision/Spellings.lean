import AgentProcs.Daemon.Follow
import AgentProcs.Supervision.WaitExit

/-!
# Supervision/Spellings — a process called by its name, or by its id

    find      by name, else by id        has_process · is_process_exited
    verbatim  as it is written           <target>.stdout · line.process = target

The process table knows both spellings.  The log files and the lines of the live output only know the
name, and a request compares its target with them as it came.
-/

namespace AgentProcs

variable {E : RegexEngine} {w : World} {r : ManagedProcess} {target : String}

/-! ## What a request meets -/

/-- A later moment: what the daemon has done since the one before, and what the system answers. -/
structure Moment where
  since : List (Transition World Event)
  world : World
  os : Os

/-- Whether the target has exited by then. -/
def Moment.exited (target : String) (m : Moment) : Option (Option ℤ) :=
  (m.world.actor.pm.isProcessExited m.os target).2

/-- What happens while a wait waits. -/
inductive Happening where
  | recv (line : OutputLine)
  | lagged
  | closed (m : Moment)
  | exitPoll (m : Moment)

namespace Happening

/-- When the table is asked. -/
def moment : Happening → Option Moment
  | closed m => some m
  | exitPoll m => some m
  | _ => none

/-- As a wait for this target sees it. -/
def event (target : String) : Happening → WaitEvent
  | recv line => .recv line
  | lagged => .lagged
  | closed m => .closed (m.exited target)
  | exitPoll m => .exitPoll (m.exited target)

end Happening

/-- The moments follow one another on a run of the daemon. -/
def Succeeding (w : World) : List Moment → Prop
  | [] => True
  | m :: ms => daemon.Run w m.since m.world ∧ m.os.exits = m.world.exits ∧ Succeeding m.world ms

/-- What there is on disk, and what happens from the request on. -/
structure Meanwhile where
  disk : Disk
  first : Moment
  happenings : List Happening

namespace Meanwhile

/-- The moments at which the table is asked, after the request has come. -/
def moments (b : Meanwhile) : List Moment := b.first :: b.happenings.filterMap (·.moment)

/-- What the daemon does until the last of them. -/
def steps (b : Meanwhile) : List (Transition World Event) := b.moments.flatMap (·.since)

/-- What a wait for this target meets. -/
def scene (w : World) (target : String) (b : Meanwhile) : WaitScene where
  hasProcess := w.actor.pm.hasProcess target
  content := b.disk.readToString (logPathOf target .stdout)
  exited := b.first.exited target
  events := b.happenings.map (·.event target)

end Meanwhile

/-- **Both spellings get the same answers**, whatever is on disk and whatever happens. -/
structure Interchangeable (E : RegexEngine) (w : World) (r : ManagedProcess) : Prop where
  waits : ∀ untilPattern regex exit (b : Meanwhile), Succeeding w b.moments →
    handleWait E r.id untilPattern regex exit (b.scene w r.id) =
      handleWait E r.name untilPattern regex exit (b.scene w r.name)
  follows : ∀ all stderrOnly maxLines events,
    handleFollowStream ⟨some r.id, all, stderrOnly, maxLines⟩ events =
      handleFollowStream ⟨some r.name, all, stderrOnly, maxLines⟩ events

/-! ## Following -/

/-- A request for all lines does not look at its target. -/
theorem streamLoop_all (target target' : String) (stderrOnly : Bool) (maxLines : Option ℕ)
    (events : List FollowEvent) (lineCount : ℕ) :
    streamLoop ⟨some target, true, stderrOnly, maxLines⟩ lineCount events =
      streamLoop ⟨some target', true, stderrOnly, maxLines⟩ lineCount events := by
  induction events generalizing lineCount with
  | nil => rfl
  | cons event events ih =>
    cases event with
    | recv line => simp only [streamLoop, ih, Bool.not_true, Bool.false_and, Option.isSome_some]
    | lagged => exact ih lineCount
    | closed => rfl

/-- **A request for one process needs the right spelling.** -/
theorem follows_iff (target target' : String) (all stderrOnly : Bool) (maxLines : Option ℕ) :
    (∀ events, handleFollowStream ⟨some target, all, stderrOnly, maxLines⟩ events =
      handleFollowStream ⟨some target', all, stderrOnly, maxLines⟩ events) ↔
    all = true ∨ target = target' := by
  constructor
  · intro h
    by_contra! hne
    obtain ⟨hall, htarget⟩ := hne
    obtain rfl : all = false := Bool.eq_false_iff.mpr hall
    -- the process prints a line on the stream that is followed
    have hline := h [.recv ⟨target', if stderrOnly then .stderr else .stdout, ""⟩]
    cases stderrOnly <;> simp [handleFollowStream, streamLoop, Ne.symm htarget] at hline
  · rintro (rfl | rfl) events
    · exact congrArg (· ++ [Response.logEnd]) (streamLoop_all ..)
    · rfl

/-! ## Waiting -/

/-- The moment of the request itself. -/
def World.now (w : World) : Moment := ⟨[], w, { Os.quiet 0 with exits := w.exits }⟩

theorem hasProcess_of_record (hr : w.record r.name = some r) :
    w.actor.pm.hasProcess r.name = true := by
  rw [ProcessManager.hasProcess, ProcessManager.find_of_lookup hr]
  rfl

/-- **A wait needs the right spelling.** -/
theorem waits_iff (hr : w.record r.name = some r) :
    (∀ untilPattern regex exit (b : Meanwhile), Succeeding w b.moments →
      handleWait E r.id untilPattern regex exit (b.scene w r.id) =
        handleWait E r.name untilPattern regex exit (b.scene w r.name)) ↔ r.id = r.name := by
  constructor
  · intro h
    by_contra hne
    -- nothing is on disk, and the process prints a line
    let b : Meanwhile := ⟨.empty (.text []), w.now, [.recv ⟨r.name, .stdout, ""⟩]⟩
    have hmatch : handleWait E r.name (some "") false false (b.scene w r.name) = .waitMatch "" := by
      have hline : contains "" "" = true := decide_eq_true (List.infix_refl _)
      simp [handleWait, waitFor, waitLoop, matched, Meanwhile.scene, Happening.event,
        hasProcess_of_record hr, Disk.readToString, FileSystem.read, FileSystem.empty, b, hline]
    have hmiss : handleWait E r.id (some "") false false (b.scene w r.id) ≠ .waitMatch "" := by
      cases hknown : w.actor.pm.hasProcess r.id <;>
        simp [handleWait, waitFor, waitLoop, Meanwhile.scene, Happening.event, hknown,
          Disk.readToString, FileSystem.read, FileSystem.empty, b, Ne.symm hne]
    exact hmiss ((h _ _ _ b ⟨.refl, rfl, trivial⟩).trans hmatch)
  · intro heq _ _ _ b _
    rw [heq]

/-! ## Waiting for an exit -/

/-- A moment is reached by a run of the steps up to it. -/
theorem exists_run_of_succeeding {ms : List Moment} (h : Succeeding w ms) {m : Moment}
    (hm : m ∈ ms) : ∃ ts, daemon.Run w ts m.world ∧ ∀ τ ∈ ts, τ ∈ ms.flatMap (·.since) := by
  induction ms generalizing w with
  | nil => exact absurd hm List.not_mem_nil
  | cons m₀ ms ih =>
    obtain ⟨hrun, -, hlater⟩ := h
    rcases List.mem_cons.mp hm with rfl | hm
    · exact ⟨m.since, hrun, fun τ hτ => List.mem_append_left _ hτ⟩
    · obtain ⟨ts, hts, hsub⟩ := ih hlater hm
      refine ⟨m₀.since ++ ts, hrun.append hts, fun τ hτ => ?_⟩
      rcases List.mem_append.mp hτ with hτ | hτ
      · exact List.mem_append_left _ hτ
      · exact List.mem_append_right _ (hsub τ hτ)

/-- A wait that looks for no line does not look at its target either. -/
theorem waitLoop_exit (target target' : String) (waitExit : Bool) (hs : List Happening)
    (hexited : ∀ m ∈ hs.filterMap (·.moment), m.exited target = m.exited target') :
    waitLoop E target none none waitExit (hs.map (·.event target)) =
      waitLoop E target' none none waitExit (hs.map (·.event target')) := by
  induction hs with
  | nil => rfl
  | cons h hs ih =>
    cases h with
    | recv line =>
      have hskip (target : String) (events : List WaitEvent) :
          waitLoop E target none none waitExit (.recv line :: events) =
            waitLoop E target none none waitExit events := by
        rw [waitLoop]
        exact ite_self _
      exact (hskip _ _).trans ((ih hexited).trans (hskip _ _).symm)
    | lagged => exact ih hexited
    | closed m =>
      have hm := hexited m List.mem_cons_self
      simp only [List.map_cons, Happening.event, waitLoop, hm]
    | exitPoll m =>
      have hm := hexited m List.mem_cons_self
      have ih := ih fun m' hm' => hexited m' (List.mem_cons_of_mem _ hm')
      rw [List.map_cons, List.map_cons, Happening.event, Happening.event, hm]
      cases waitExit with
      | false => exact ih
      | true => cases m.exited target' with
        | none => exact ih
        | some code => rfl

/-- **Only the table is asked by a wait for an exit**, and it knows both spellings: they get the same
answer as long as the record is there, holds the same incarnation, and no record is called like its
id. -/
theorem exitWait_same (hw : daemon.Reachable w) (hr : w.record r.name = some r)
    (hfree : w.record r.id = none) {b : Meanwhile} (hb : Succeeding w b.moments)
    (hstopAll : ∀ τ ∈ b.steps, ¬FinishesStopAll τ.src τ.ev) (hnewer : NoneNewer r b.steps)
    (hname : ∀ τ ∈ b.steps, τ.dst.record r.id = none) (regex exit : Bool) :
    handleWait E r.id none regex exit (b.scene w r.id) =
      handleWait E r.name none regex exit (b.scene w r.name) := by
  have hid : w.actor.pm.find r.id = some r := find_of_id (ids_of_reachable hw) hr hfree
  have hexited (m : Moment) (hm : m ∈ b.moments) : m.exited r.id = m.exited r.name := by
    obtain ⟨ts, hrun, hsub⟩ := exists_run_of_succeeding hb hm
    obtain ⟨q, hfound, hq, -⟩ := find_of_run hw hid hrun (fun τ hτ => hnewer τ (hsub τ hτ))
      (fun τ hτ => hstopAll τ (hsub τ hτ)) (.inr fun τ hτ => hname τ (hsub τ hτ))
    rw [Moment.exited, Moment.exited, isProcessExited_eq, isProcessExited_eq, hfound,
      ProcessManager.find_of_lookup hq]
  have hknown : w.actor.pm.hasProcess r.id = true := by
    rw [ProcessManager.hasProcess, hid]
    rfl
  have hfirst : b.first.exited r.id = b.first.exited r.name := hexited _ List.mem_cons_self
  have hloop := waitLoop_exit (E := E) r.id r.name exit b.happenings
    fun m hm => hexited m (List.mem_cons_of_mem _ hm)
  cases regex <;> simp only [handleWait, waitFor, Meanwhile.scene, hknown, hasProcess_of_record hr,
    hfirst, hloop, Option.bind_none, Bool.true_eq_false, if_false]

/-- **Names and ids are interchangeable for one record, exactly if they are the same**: the answers
to every wait and every follow request agree, whatever is on disk and whatever happens, if and only if
the record's id is its name. -/
theorem interchangeable_iff (hr : w.record r.name = some r) :
    Interchangeable E w r ↔ r.id = r.name := by
  constructor
  · exact fun h => (waits_iff hr).mp h.waits
  · intro heq
    exact ⟨(waits_iff hr).mpr heq, fun all stderrOnly maxLines =>
      (follows_iff r.id r.name all stderrOnly maxLines).mpr (.inr heq)⟩

/-- A process run without a name is called by its id. -/
theorem interchangeable_iff_unnamed : ∃ r, ((World.new "s").receive (.quiet 7)
    (.spawn "srv" none none none none none none 0)).record "p1" = some r ∧ ∀ E,
    Interchangeable E ((World.new "s").receive (.quiet 7)
      (.spawn "srv" none none none none none none 0)) r :=
  ⟨_, rfl, fun _ => (interchangeable_iff rfl).mpr rfl⟩

/-- A process can be called by its name or by its id. -/
def NamesAndIdsInterchangeable : Prop :=
  ∀ E w r, daemon.Reachable w → w.record r.name = some r → Interchangeable E w r

/-- **An id finds the process, but not its lines.** -/
theorem not_namesAndIdsInterchangeable : ¬NamesAndIdsInterchangeable := by
  intro h
  have hweb := h ⟨Unit, fun _ => .ok (), fun _ _ => false⟩ AwaitedWeb.spawned AwaitedWeb.record
    AwaitedWeb.reachable_spawned rfl
  have hsame := (follows_iff "p1" "web" false false none).mp (hweb.follows false false none)
  exact absurd hsame (by decide)

end AgentProcs
