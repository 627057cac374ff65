import AgentProcs.Daemon.Wait
import AgentProcs.Logs.NewestSegment

/-!
# Logs/WaitTiming — when a line is printed, and whether a `Wait` finds it

                  captured before          after the subscription
    stdout        in <name>.stdout?        delivered
    stderr        not looked at            delivered

A line that arrives while the request waits is found on either stream.  One that was there before is
found in the current file of stdout only; and there a pattern that does not compile is looked for as
it stands.
-/

namespace AgentProcs

/-- The pattern of a request is found in this line. -/
def Satisfies (E : RegexEngine) (pattern : String) (regex : Bool) (line : String) : Prop :=
  match regex with
  | true => ∃ re, E.new pattern = .ok re ∧ E.isMatch re line = true
  | false => contains line pattern = true

/-- A regex that does not compile. -/
def InvalidPattern (E : RegexEngine) (pattern : String) (regex : Bool) : Prop :=
  regex = true ∧ ∃ e, E.new pattern = .error e

/-- The lines a reader of the file sees where this line was written. -/
def Entry.shownLines (e : Entry) : List String := textLines (e.line ++ "\n")

/-! ## What the file reads -/

section Text

theorem Entry.bytes_eq (e : Entry) : e.bytes = utf8 (e.line ++ "\n") := by
  rw [utf8_append]
  rfl

/-- **The file of written lines** is text, and its lines are theirs. -/
theorem utf8?_flatMap_bytes (es : List Entry) : ∃ content,
    utf8? (es.flatMap Entry.bytes) = some content ∧
      textLines content = es.flatMap Entry.shownLines := by
  have hfile : ∀ es : List Entry, ∃ content, es.flatMap Entry.bytes = utf8 content ∧
      textLines content = es.flatMap Entry.shownLines := by
    intro es
    induction es with
    | nil => exact ⟨"", rfl, rfl⟩
    | cons e es ih =>
      obtain ⟨content, hbytes, hlines⟩ := ih
      refine ⟨(e.line ++ "\n") ++ content, ?_, ?_⟩
      · rw [List.flatMap_cons, hbytes, e.bytes_eq, ← utf8_append]
      · have hend : Terminated '\n' (e.line ++ "\n").toList :=
          .inr ⟨e.line.toList, String.toList_append⟩
        rw [List.flatMap_cons, ← hlines, textLines, String.toList_append, splitLines_append hend,
          List.map_append]
        rfl
  obtain ⟨content, hbytes, hlines⟩ := hfile es
  exact ⟨content, hbytes ▸ utf8?_utf8 content, hlines⟩

variable {name : String} {maxBytes maxRotatedFiles : ℕ} {p : ProcessLogs} {directory : Disk → Prop}

/-- **What the historical scan looks through**: the newest lines of stdout. -/
theorem readToString_newest
    (h : (processLogs name maxBytes maxRotatedFiles directory).Reachable p) (s : Stream) :
    ∃ content, p.shared.disk.readToString (logPathOf name s) = some content ∧
      textLines content = (p.newest maxBytes s).flatMap Entry.shownLines := by
  obtain ⟨content, hcontent, hlines⟩ := utf8?_flatMap_bytes (p.newest maxBytes s)
  exact ⟨content, by rw [Disk.readToString, read_newest h s]; exact hcontent, hlines⟩

end Text

/-! ## The two scans decide -/

section Scans

variable {E : RegexEngine} {pattern : String} {regex exit : Bool} {content target : String}

/-- A pattern that compiles is looked for as what it compiles to. -/
theorem scanLog_isSome_iff (h : ¬InvalidPattern E pattern regex) :
    (scanLog E pattern regex content).isSome = true ↔
      ∃ l ∈ textLines content, Satisfies E pattern regex l := by
  rw [scanLog, List.find?_isSome]
  cases regex with
  | false => exact Iff.rfl
  | true =>
    cases hnew : E.new pattern with
    | error e => exact absurd ⟨rfl, e, hnew⟩ h
    | ok re => simp [Satisfies, hnew, matched, Except.toOption]

/-- One that does not is looked for as it stands. -/
theorem scanLog_isSome_of_invalid (content : String) (h : InvalidPattern E pattern regex) :
    (scanLog E pattern regex content).isSome = true ↔
      ∃ l ∈ textLines content, contains l pattern = true := by
  obtain ⟨rfl, e, hnew⟩ := h
  rw [scanLog, List.find?_isSome, hnew]
  exact Iff.rfl

/-- Nothing but output and the timeout ends this wait. -/
structure Uninterrupted (exit : Bool) (w : WaitScene) : Prop where
  known : w.hasProcess = true
  running : exit = true → w.exited = none
  unclosed : ∀ exited, .closed exited ∉ w.events
  polls : exit = true → ∀ exited, .exitPoll exited ∈ w.events → exited = none

/-- **The live scan** finds a line of the process that arrives and satisfies the pattern. -/
theorem waitLoop_found_iff {compiled : Option E.Regex} {events : List WaitEvent}
    (hmatch : ∀ l, matched E compiled pattern l = true ↔ Satisfies E pattern regex l)
    (hclosed : ∀ exited, .closed exited ∉ events)
    (hpolls : exit = true → ∀ exited, .exitPoll exited ∈ events → exited = none) :
    (waitLoop E target (some pattern) compiled exit events).kind = .found ↔
      ∃ o, .recv o ∈ events ∧ o.process = target ∧ Satisfies E pattern regex o.line := by
  induction events with
  | nil => simp [waitLoop, Response.kind]
  | cons event events ih =>
    have ih := ih (fun x hx => hclosed x (List.mem_cons_of_mem _ hx))
      fun hexit x hx => hpolls hexit x (List.mem_cons_of_mem _ hx)
    cases event with
    | recv o =>
      by_cases hown : o.process = target
      · by_cases hsat : matched E compiled pattern o.line = true
        · have hyes := (hmatch o.line).mp hsat
          simp only [waitLoop, hown, ne_eq, not_true_eq_false, if_false, hsat, if_true,
            Response.kind, true_iff]
          exact ⟨o, List.mem_cons_self, hown, hyes⟩
        · have hno := mt (hmatch o.line).mpr hsat
          simp only [waitLoop, hown, ne_eq, not_true_eq_false, if_false, hsat,
            List.mem_cons, WaitEvent.recv.injEq]
          grind
      · simp only [waitLoop, ne_eq, hown, not_false_eq_true, if_true, ih, List.mem_cons,
          WaitEvent.recv.injEq]
        grind
    | lagged => simpa [waitLoop] using ih
    | closed x => exact absurd List.mem_cons_self (hclosed x)
    | exitPoll x =>
      have hgo : waitLoop E target (some pattern) compiled exit (.exitPoll x :: events) =
          waitLoop E target (some pattern) compiled exit events := by
        cases exit with
        | false => rfl
        | true =>
          obtain rfl := hpolls rfl x List.mem_cons_self
          rfl
      rw [hgo, ih]
      simp

/-- The live scan compiles the pattern, or fails. -/
theorem waitFor_of_valid (target : String) {w : WaitScene} (hw : Uninterrupted exit w)
    (h : ¬InvalidPattern E pattern regex) : ∃ compiled,
      (∀ l, matched E compiled pattern l = true ↔ Satisfies E pattern regex l) ∧
      waitFor E target (some pattern) regex exit w.exited w.events =
        waitLoop E target (some pattern) compiled exit w.events := by
  cases regex with
  | false =>
    refine ⟨none, fun l => Iff.rfl, ?_⟩
    cases exit with
    | false => rfl
    | true => simp [waitFor, hw.running rfl]
  | true =>
    cases hnew : E.new pattern with
    | error e => exact absurd ⟨rfl, e, hnew⟩ h
    | ok re =>
      refine ⟨some re, fun l => by simp [Satisfies, hnew, matched], ?_⟩
      rw [waitFor, hnew]
      cases exit with
      | false => rfl
      | true => rw [hw.running rfl]; rfl

theorem waitFor_of_invalid {w : WaitScene} (h : InvalidPattern E pattern regex) :
    (waitFor E target (some pattern) regex exit w.exited w.events).kind = .failed := by
  obtain ⟨rfl, e, hnew⟩ := h
  rw [waitFor, hnew]
  rfl

theorem handleWait_eq {w : WaitScene} (hknown : w.hasProcess = true)
    (hcontent : w.content = some content) :
    handleWait E target (some pattern) regex exit w =
      match scanLog E pattern regex content with
      | some line => .waitMatch line
      | none => waitFor E target (some pattern) regex exit w.exited w.events := by
  rw [handleWait, if_neg (by simp [hknown]), hcontent]
  rfl

/-- **What an uninterrupted wait finds**, before the subscription or after. -/
theorem handleWait_found_iff {w : WaitScene} (hw : Uninterrupted exit w)
    (hcontent : w.content = some content) (h : ¬InvalidPattern E pattern regex) :
    (handleWait E target (some pattern) regex exit w).kind = .found ↔
      (∃ l ∈ textLines content, Satisfies E pattern regex l) ∨
        ∃ o, .recv o ∈ w.events ∧ o.process = target ∧ Satisfies E pattern regex o.line := by
  rw [← scanLog_isSome_iff h, handleWait_eq hw.known hcontent]
  cases scanLog E pattern regex content with
  | some line => simp [Response.kind]
  | none =>
    obtain ⟨compiled, hmatch, hlive⟩ := waitFor_of_valid target hw h
    simp only [Option.isSome_none, Bool.false_eq_true, false_or, hlive]
    exact waitLoop_found_iff hmatch hw.unclosed hw.polls

/-- **A pattern that does not compile** fails unless the file holds it as it stands. -/
theorem handleWait_failed_iff {w : WaitScene} (hknown : w.hasProcess = true)
    (hcontent : w.content = some content) (h : InvalidPattern E pattern regex) :
    (handleWait E target (some pattern) regex exit w).kind = .failed ↔
      ∀ l ∈ textLines content, contains l pattern = false := by
  have hscan := scanLog_isSome_of_invalid content h
  rw [handleWait_eq hknown hcontent]
  cases hfound : scanLog E pattern regex content with
  | some line =>
    obtain ⟨l, hl, hcontains⟩ := hscan.mp (by rw [hfound]; rfl)
    refine iff_of_false nofun fun hnone => ?_
    rw [hnone l hl] at hcontains
    cases hcontains
  | none =>
    refine iff_of_true (waitFor_of_invalid h) fun l hl => ?_
    by_contra hcontains
    have hsome := hscan.mpr ⟨l, hl, by simpa using hcontains⟩
    rw [hfound] at hsome
    cases hsome

end Scans

/-! ## One line, captured before the request or after -/

section Timing

/-- The line was printed before the request, and nothing printed later satisfies it. -/
structure CapturedBefore (E : RegexEngine) (pattern : String) (regex exit : Bool) (name : String)
    (p : ProcessLogs) (s : Stream) (line : String) (w : WaitScene) : Prop where
  uninterrupted : Uninterrupted exit w
  content : w.content = p.shared.disk.readToString (logPathOf name .stdout)
  captured : ∃ seq, ⟨line, seq⟩ ∈ p.lines s
  silent : ∀ o, .recv o ∈ w.events → o.process = name → ¬Satisfies E pattern regex o.line

/-- The line is printed while the request waits. -/
structure DeliveredAfter (exit : Bool) (name : String) (p : ProcessLogs) (s : Stream)
    (line : String) (w : WaitScene) : Prop where
  uninterrupted : Uninterrupted exit w
  content : w.content = p.shared.disk.readToString (logPathOf name .stdout)
  delivered : .recv ⟨name, s, line⟩ ∈ w.events

/-- **The answer does not depend on when the line was printed.** -/
structure TimingFree (E : RegexEngine) (pattern : String) (regex : Bool) (line : String)
    (before after : Response) : Prop where
  same : Satisfies E pattern regex line → before.kind = after.kind
  invalid : InvalidPattern E pattern regex → before.kind = .failed ∧ after.kind = .failed

variable {E : RegexEngine} {pattern : String} {regex exit : Bool} {name line : String}
  {maxBytes maxRotatedFiles : ℕ} {p q : ProcessLogs} {s : Stream} {before after : WaitScene}
  {directory : Disk → Prop}

theorem Satisfies.valid (h : Satisfies E pattern regex line) : ¬InvalidPattern E pattern regex := by
  rintro ⟨rfl, e, hnew⟩
  obtain ⟨re, hre, -⟩ := h
  rw [hnew] at hre
  cases hre

/-- **A line captured before** is found if the newest lines of stdout satisfy the pattern. -/
theorem CapturedBefore.found_iff
    (hp : (processLogs name maxBytes maxRotatedFiles directory).Reachable p)
    (h : CapturedBefore E pattern regex exit name p s line before)
    (hvalid : ¬InvalidPattern E pattern regex) :
    (handleWait E name (some pattern) regex exit before).kind = .found ↔
      ∃ e ∈ p.newest maxBytes .stdout, ∃ l ∈ e.shownLines, Satisfies E pattern regex l := by
  obtain ⟨content, hcontent, hlines⟩ := readToString_newest hp .stdout
  rw [handleWait_found_iff h.uninterrupted (h.content.trans hcontent) hvalid, hlines]
  have hsilent : ¬∃ o, .recv o ∈ before.events ∧ o.process = name ∧
      Satisfies E pattern regex o.line := fun ⟨o, hmem, hown, hsat⟩ => h.silent o hmem hown hsat
  rw [or_iff_left hsilent]
  simp only [List.mem_flatMap]
  grind

/-- **A line delivered after** is found, on either stream. -/
theorem DeliveredAfter.found
    (hq : (processLogs name maxBytes maxRotatedFiles directory).Reachable q)
    (h : DeliveredAfter exit name q s line after) (hsat : Satisfies E pattern regex line) :
    (handleWait E name (some pattern) regex exit after).kind = .found := by
  obtain ⟨content, hcontent, -⟩ := readToString_newest hq .stdout
  exact (handleWait_found_iff h.uninterrupted (h.content.trans hcontent) hsat.valid).mpr
    (.inr ⟨_, h.delivered, rfl, hsat⟩)

/-- An invalid pattern fails where the newest lines of stdout do not hold it. -/
theorem failed_iff_newest
    (hp : (processLogs name maxBytes maxRotatedFiles directory).Reachable p) {w : WaitScene}
    (hw : Uninterrupted exit w)
    (hcontent : w.content = p.shared.disk.readToString (logPathOf name .stdout))
    (hinvalid : InvalidPattern E pattern regex) :
    (handleWait E name (some pattern) regex exit w).kind = .failed ↔
      ∀ e ∈ p.newest maxBytes .stdout, ∀ l ∈ e.shownLines, contains l pattern = false := by
  obtain ⟨content, hread, hlines⟩ := readToString_newest hp .stdout
  rw [handleWait_failed_iff hw.known (hcontent.trans hread) hinvalid, hlines]
  simp only [List.mem_flatMap]
  grind

/-- **When a `Wait` does not depend on the time of the line**: a line that satisfies the pattern is
among the newest of stdout, and no newest line of stdout holds a pattern that does not compile. -/
theorem timingFree_iff_newest
    (hp : (processLogs name maxBytes maxRotatedFiles directory).Reachable p)
    (hq : (processLogs name maxBytes maxRotatedFiles directory).Reachable q)
    (hbefore : CapturedBefore E pattern regex exit name p s line before)
    (hafter : DeliveredAfter exit name q s line after) :
    TimingFree E pattern regex line (handleWait E name (some pattern) regex exit before)
        (handleWait E name (some pattern) regex exit after) ↔
      (Satisfies E pattern regex line →
        ∃ e ∈ p.newest maxBytes .stdout, ∃ l ∈ e.shownLines, Satisfies E pattern regex l) ∧
      (InvalidPattern E pattern regex →
        ∀ e ∈ p.newest maxBytes .stdout ++ q.newest maxBytes .stdout,
          ∀ l ∈ e.shownLines, contains l pattern = false) := by
  have hsame : (Satisfies E pattern regex line →
      (handleWait E name (some pattern) regex exit before).kind =
        (handleWait E name (some pattern) regex exit after).kind) ↔
      (Satisfies E pattern regex line →
        ∃ e ∈ p.newest maxBytes .stdout, ∃ l ∈ e.shownLines, Satisfies E pattern regex l) := by
    refine forall_congr' fun hsat => ?_
    rw [hafter.found hq hsat]
    exact hbefore.found_iff hp hsat.valid
  have hinvalid : (InvalidPattern E pattern regex →
      (handleWait E name (some pattern) regex exit before).kind = .failed ∧
        (handleWait E name (some pattern) regex exit after).kind = .failed) ↔
      (InvalidPattern E pattern regex →
        ∀ e ∈ p.newest maxBytes .stdout ++ q.newest maxBytes .stdout,
          ∀ l ∈ e.shownLines, contains l pattern = false) := by
    refine forall_congr' fun hinvalid => ?_
    rw [failed_iff_newest hp hbefore.uninterrupted hbefore.content hinvalid,
      failed_iff_newest hq hafter.uninterrupted hafter.content hinvalid]
    exact List.forall_mem_append.symm
  exact ⟨fun h => ⟨hsame.mp h.same, hinvalid.mp h.invalid⟩,
    fun h => ⟨hsame.mpr h.1, hinvalid.mpr h.2⟩⟩

end Timing

/-! ## A line on stderr, and a pattern that does not compile -/

/-- Patterns without special characters, and one that does not compile. -/
def plainRegex : RegexEngine where
  Regex := String
  new pattern := if pattern = "[" then .error "unclosed character class" else .ok pattern
  isMatch pattern line := contains line pattern

/-- The logs of a process that has printed nothing. -/
def unprinted : ProcessLogs := .opened "web" (.empty (.text [])) [] 0 fun _ => []

/-- The logs of a process that has just printed its first line. -/
def printed (s : Stream) (line : String) : ProcessLogs :=
  unprinted.emit (.of "web" s DEFAULT_MAX_LOG_BYTES DEFAULT_MAX_ROTATED_FILES) s line

theorem reachable_unprinted : (processLogs "web" DEFAULT_MAX_LOG_BYTES DEFAULT_MAX_ROTATED_FILES
    fun _ => True).Reachable unprinted := .init ⟨_, trivial, rfl⟩

theorem reachable_printed {s : Stream} {line : String}
    (hline : lineBytes line ≤ DEFAULT_MAX_LOG_BYTES) :
    (processLogs "web" DEFAULT_MAX_LOG_BYTES DEFAULT_MAX_ROTATED_FILES
      fun _ => True).Reachable (printed s line) := by
  refine reachable_unprinted.step (LogsStep.write rfl rfl ?_)
  rintro ⟨-, hfull⟩
  have hzero : (unprinted.state s).bytesWritten = 0 := by cases s <;> rfl
  rw [hzero, Nat.zero_add] at hfull
  exact absurd hline (Nat.not_le.mpr hfull)

/-- A wait that only sees these lines until its timeout. -/
def sceneOf (p : ProcessLogs) (lines : List OutputLine) : WaitScene :=
  ⟨true, p.shared.disk.readToString (logPathOf "web" .stdout), none, lines.map .recv⟩

theorem uninterrupted_sceneOf (p : ProcessLogs) (lines : List OutputLine) (exit : Bool) :
    Uninterrupted exit (sceneOf p lines) where
  known := rfl
  running _ := rfl
  unclosed _ := by simp [sceneOf]
  polls _ _ := by simp [sceneOf]

theorem capturedBefore_printed {E : RegexEngine} {pattern line : String} {regex : Bool}
    {s : Stream} :
    CapturedBefore E pattern regex false "web" (printed s line) s line
      (sceneOf (printed s line) []) where
  uninterrupted := uninterrupted_sceneOf _ _ _
  content := rfl
  captured := ⟨_, by rw [printed, ProcessLogs.lines_emit_self]; exact List.mem_concat_self⟩
  silent _ := by simp [sceneOf]

theorem deliveredAfter_unprinted {line : String} {s : Stream} :
    DeliveredAfter false "web" unprinted s line (sceneOf unprinted [⟨"web", s, line⟩]) where
  uninterrupted := uninterrupted_sceneOf _ _ _
  content := rfl
  delivered := by simp [sceneOf]

theorem satisfies_ready : Satisfies plainRegex "ready" false "ready" :=
  (by decide +kernel : contains "ready" "ready" = true)

/-- A line on stdout is found at both times. -/
theorem timingFree_iff_newest_ready : TimingFree plainRegex "ready" false "ready"
    (handleWait plainRegex "web" (some "ready") false false (sceneOf (printed .stdout "ready") []))
    (handleWait plainRegex "web" (some "ready") false false
      (sceneOf unprinted [⟨"web", .stdout, "ready"⟩])) := by
  refine (timingFree_iff_newest (reachable_printed (by decide)) reachable_unprinted
    capturedBefore_printed deliveredAfter_unprinted).mpr ⟨fun _ => ?_, fun h => nomatch h.1⟩
  exact ⟨⟨"ready", 0⟩, by decide +kernel, "ready", by decide +kernel, satisfies_ready⟩

/-- **The answer depends on the time**: a line on stderr is found only while the request waits, and
an invalid pattern that the log holds as it stands is found instead of refused. -/
theorem not_timingFree :
    ¬TimingFree plainRegex "ready" false "ready"
      (handleWait plainRegex "web" (some "ready") false false (sceneOf (printed .stderr "ready") []))
      (handleWait plainRegex "web" (some "ready") false false
        (sceneOf unprinted [⟨"web", .stderr, "ready"⟩])) ∧
    ¬TimingFree plainRegex "[" true "["
      (handleWait plainRegex "web" (some "[") true false (sceneOf (printed .stdout "[") []))
      (handleWait plainRegex "web" (some "[") true false
        (sceneOf unprinted [⟨"web", .stdout, "["⟩])) := by
  constructor
  · intro h
    have hbefore := (h.same satisfies_ready).trans
      (deliveredAfter_unprinted.found reachable_unprinted satisfies_ready)
    obtain ⟨e, he, -⟩ := (capturedBefore_printed.found_iff (reachable_printed (by decide))
      satisfies_ready.valid).mp hbefore
    have hnone : (printed .stderr "ready").newest DEFAULT_MAX_LOG_BYTES .stdout = [] := rfl
    rw [hnone] at he
    cases he
  · intro h
    have hinvalid : InvalidPattern plainRegex "[" true := ⟨rfl, _, rfl⟩
    have hprinted := @reachable_printed .stdout "[" (by decide)
    have hfree := (failed_iff_newest hprinted (uninterrupted_sceneOf _ [] false) rfl hinvalid).mp
      (h.invalid hinvalid).1
    exact absurd (hfree ⟨"[", 0⟩ (by decide +kernel) "[" (by decide +kernel)) (by decide +kernel)

end AgentProcs
