import AgentProcs.Daemon.Follow
import Mathlib.Data.List.Basic
import Mathlib.Tactic.SplitIfs

/-!
# Daemon/FollowLimit — how many lines a follow request passes on

    received    a₀ b₀ a₁ b₁ a₂ ⋯            selected   a₀ a₁ a₂ ⋯
    limit 2     ──▸ LogLine a₀, LogLine a₁, LogEnd
    limit 0     ──▸ LogLine a₀, LogEnd

The count is compared after a line is sent, so the first selected line always goes out.  The
connection may fail at any response, and the timeout may come while a line is being sent.
-/

namespace AgentProcs

/-- Why a response does not get through. -/
inductive Interruption where
  /-- The connection fails. -/
  | failure
  /-- The timeout comes in the middle of the send. -/
  | timeout
  deriving DecidableEq, Repr

/-- A follow request's first response that does not get through, counted from 0, and why. -/
abbrev Interrupted := Option (ℕ × Interruption)

/-- `streamLoop`, where sending may be interrupted: the lines that get through. -/
def streamLoopUntil (req : FollowRequest) (interrupted : Interrupted) (lineCount : ℕ) :
    List FollowEvent → List Response
  | [] => []
  | .recv line :: events =>
    if !req.all && req.target.any (line.process != ·) then
      streamLoopUntil req interrupted lineCount events
    else if req.stderrOnly && line.stream != .stderr then
      streamLoopUntil req interrupted lineCount events
    else if !req.stderrOnly && (!req.all || req.target.isSome) && line.stream != .stdout then
      streamLoopUntil req interrupted lineCount events
    else if interrupted.any (·.1 = lineCount) then []
    else .logLine line.process line.stream line.line ::
      if req.maxLines.any (lineCount + 1 ≥ ·) then []
      else streamLoopUntil req interrupted (lineCount + 1) events
  | .lagged :: events => streamLoopUntil req interrupted lineCount events
  | .closed :: _ => []

/-- What the client gets; after a failure not even the end. -/
def handleFollowStreamUntil (req : FollowRequest) (interrupted : Interrupted)
    (events : List FollowEvent) : List Response :=
  let lines := streamLoopUntil req interrupted 0 events
  if interrupted = some (lines.length, .failure) then lines else lines ++ [.logEnd]

/-! ## What a request asks for -/

/-- The lines received before the channel closes. -/
def FollowEvent.received : List FollowEvent → List OutputLine
  | [] => []
  | .recv line :: events => line :: received events
  | .lagged :: events => received events
  | .closed :: _ => []

namespace FollowRequest

/-- **The selection**: the target's lines, or all; standard error if asked for, both streams of all
processes, and else standard output. -/
def selects (req : FollowRequest) (line : OutputLine) : Bool :=
  (req.all || req.target.all (line.process == ·)) &&
    (if req.stderrOnly then line.stream == .stderr
      else req.all && req.target.isNone || line.stream == .stdout)

def selected (req : FollowRequest) (events : List FollowEvent) : List OutputLine :=
  (FollowEvent.received events).filter req.selects

/-- The first lines of the selection, as many as the limit allows. -/
def wanted (req : FollowRequest) (events : List FollowEvent) : List OutputLine :=
  req.maxLines.elim (req.selected events) fun n => (req.selected events).take n

end FollowRequest

/-- A line as it is sent. -/
def OutputLine.toResponse (line : OutputLine) : Response :=
  .logLine line.process line.stream line.line

/-- **What the client is to get**: the lines wanted and one end; only those before a failure, if the
connection fails. -/
def FollowRequest.due (req : FollowRequest) (interrupted : Interrupted)
    (events : List FollowEvent) : List Response :=
  match interrupted with
  | some (i, .failure) =>
    if i ≤ (req.wanted events).length then ((req.wanted events).take i).map OutputLine.toResponse
    else (req.wanted events).map OutputLine.toResponse ++ [.logEnd]
  | _ => (req.wanted events).map OutputLine.toResponse ++ [.logEnd]

/-! ## What the loop sends -/

section Loop

variable {req : FollowRequest} {interrupted : Interrupted} {lineCount : ℕ} {line : OutputLine}
  {events : List FollowEvent}

/-- The loop's three tests are the selection. -/
theorem selects_iff : req.selects line ↔ ¬(!req.all && req.target.any (line.process != ·)) ∧
    ¬(req.stderrOnly && line.stream != .stderr) ∧
    ¬(!req.stderrOnly && (!req.all || req.target.isSome) && line.stream != .stdout) := by
  obtain ⟨target, all, stderrOnly, maxLines⟩ := req
  obtain ⟨process, stream, text⟩ := line
  cases target <;> cases all <;> cases stderrOnly <;> cases stream <;>
    simp [FollowRequest.selects]

theorem streamLoopUntil_recv : streamLoopUntil req interrupted lineCount (.recv line :: events) =
    if req.selects line then
      if interrupted.any (·.1 = lineCount) then []
      else line.toResponse :: if req.maxLines.any (lineCount + 1 ≥ ·) then []
        else streamLoopUntil req interrupted (lineCount + 1) events
    else streamLoopUntil req interrupted lineCount events := by
  rw [streamLoopUntil]
  by_cases hselects : req.selects line
  · obtain ⟨htarget, hstderr, hstdout⟩ := selects_iff.mp hselects
    rw [if_neg htarget, if_neg hstderr, if_neg hstdout, if_pos hselects]
    rfl
  · rw [if_neg hselects]
    split_ifs with htarget hstderr hstdout
    · rfl
    · rfl
    · rfl
    all_goals exact absurd (selects_iff.mpr ⟨htarget, hstderr, hstdout⟩) hselects

/-- **Nothing interrupted, the loop is `streamLoop`.** -/
theorem streamLoopUntil_none : streamLoopUntil req none lineCount events =
    streamLoop req lineCount events := by
  induction events generalizing lineCount with
  | nil => rfl
  | cons event events ih =>
    cases event with
    | recv line => simp only [streamLoopUntil, streamLoop, ih, Option.any_none, Bool.false_eq_true,
        if_false]
    | lagged => exact ih
    | closed => rfl

theorem handleFollowStreamUntil_none :
    handleFollowStreamUntil req none events = handleFollowStream req events := by
  rw [handleFollowStreamUntil, handleFollowStream, streamLoopUntil_none, if_neg (by simp)]

/-- How many more lines the loop sends at most, `lineCount` sent: at least one. -/
def allowed (req : FollowRequest) (lineCount : ℕ) (lines : List OutputLine) : List OutputLine :=
  req.maxLines.elim lines fun n => lines.take (max (n - lineCount) 1)

/-- The lines before the interruption. -/
def uninterrupted (interrupted : Interrupted) (lineCount : ℕ) (lines : List OutputLine) :
    List OutputLine :=
  interrupted.elim lines fun x => lines.take (x.1 - lineCount)

@[simp] theorem allowed_nil : allowed req lineCount [] = [] := by
  rw [allowed]
  cases req.maxLines with
  | none => rfl
  | some n => exact List.take_nil

theorem allowed_cons (lines : List OutputLine) : allowed req lineCount (line :: lines) =
    line :: if req.maxLines.any (lineCount + 1 ≥ ·) then [] else allowed req (lineCount + 1) lines := by
  rw [allowed, allowed]
  cases req.maxLines with
  | none => rfl
  | some n =>
    simp only [Option.elim_some, Option.any_some, decide_eq_true_eq]
    split_ifs with hlast
    · have hone : max (n - lineCount) 1 = 1 := by omega
      rw [hone]
      rfl
    · have hmore : max (n - lineCount) 1 = max (n - (lineCount + 1)) 1 + 1 := by omega
      rw [hmore, List.take_succ_cons]

@[simp] theorem uninterrupted_nil : uninterrupted interrupted lineCount [] = [] := by
  rw [uninterrupted]
  cases interrupted with
  | none => rfl
  | some x => exact List.take_nil

/-- The line is not sent. -/
theorem uninterrupted_now (h : interrupted.any (·.1 = lineCount)) (lines : List OutputLine) :
    uninterrupted interrupted lineCount lines = [] := by
  cases interrupted with
  | none => exact absurd h (by simp)
  | some x =>
    have hx : x.1 = lineCount := by simpa using h
    rw [uninterrupted, Option.elim_some, hx, Nat.sub_self, List.take_zero]

theorem uninterrupted_cons (h : ¬interrupted.any (·.1 = lineCount))
    (hbefore : ∀ x ∈ interrupted, lineCount ≤ x.1) (lines : List OutputLine) :
    uninterrupted interrupted lineCount (line :: lines) =
      line :: uninterrupted interrupted (lineCount + 1) lines := by
  cases interrupted with
  | none => rfl
  | some x =>
    have hne : x.1 ≠ lineCount := fun heq => h (by simp [heq])
    have hle := hbefore x rfl
    have hsucc : x.1 - lineCount = x.1 - (lineCount + 1) + 1 := by omega
    simp only [uninterrupted, Option.elim_some, hsucc, List.take_succ_cons]

/-- **The loop sends the first selected lines**, at least one if there is one, up to the
interruption. -/
theorem streamLoopUntil_eq (hbefore : ∀ x ∈ interrupted, lineCount ≤ x.1) :
    streamLoopUntil req interrupted lineCount events =
      (uninterrupted interrupted lineCount (allowed req lineCount (req.selected events))).map
        OutputLine.toResponse := by
  induction events generalizing lineCount with
  | nil =>
    have hselected : req.selected [] = [] := rfl
    rw [hselected, allowed_nil, uninterrupted_nil]
    rfl
  | cons event events ih =>
    cases event with
    | lagged => exact ih hbefore
    | closed =>
      have hselected : req.selected (.closed :: events) = [] := rfl
      rw [hselected, allowed_nil, uninterrupted_nil]
      rfl
    | recv line =>
      rw [streamLoopUntil_recv]
      by_cases hselects : req.selects line
      · have hselected : req.selected (.recv line :: events) = line :: req.selected events :=
          List.filter_cons_of_pos hselects
        rw [if_pos hselects, hselected, allowed_cons]
        by_cases hnow : interrupted.any (·.1 = lineCount)
        · rw [if_pos hnow, uninterrupted_now hnow]
          rfl
        have hlater : ∀ x ∈ interrupted, lineCount + 1 ≤ x.1 := fun x hx =>
          Nat.lt_of_le_of_ne (hbefore x hx) fun heq => hnow (by
            rw [Option.mem_def.mp hx]
            simp [heq])
        rw [if_neg hnow, uninterrupted_cons hnow hbefore, List.map_cons]
        split_ifs with hlast
        · rw [uninterrupted_nil, List.map_nil]
        · rw [ih hlater]
      · have hselected : req.selected (.recv line :: events) = req.selected events :=
          List.filter_cons_of_neg hselects
        rw [if_neg hselects, hselected]
        exact ih hbefore

end Loop

/-! ## When the client gets what is due -/

section Due

variable {req : FollowRequest} {interrupted : Interrupted} {events : List FollowEvent}

theorem map_toResponse_injective : (List.map OutputLine.toResponse).Injective :=
  List.map_injective_iff.mpr fun a b h => by
    obtain ⟨hprocess, hstream, hline⟩ := Response.logLine.inj h
    cases a
    cases b
    simp_all

theorem handleFollowStreamUntil_eq : handleFollowStreamUntil req interrupted events =
    let lines := uninterrupted interrupted 0 (allowed req 0 (req.selected events))
    if interrupted = some (lines.length, .failure) then lines.map OutputLine.toResponse
    else lines.map OutputLine.toResponse ++ [.logEnd] := by
  rw [handleFollowStreamUntil, streamLoopUntil_eq fun _ _ => Nat.zero_le _]
  simp only [List.length_map]

/-- A limit other than 0 is kept, and of no lines none is sent. -/
theorem allowed_eq_wanted (h : req.maxLines = some 0 → req.selected events = []) :
    allowed req 0 (req.selected events) = req.wanted events := by
  rw [allowed, FollowRequest.wanted]
  cases hmax : req.maxLines with
  | none => rfl
  | some n =>
    cases n with
    | zero => rw [h hmax]; rfl
    | succ n =>
      have hmore : max (n + 1 - 0) 1 = n + 1 := by omega
      rw [Option.elim_some, Option.elim_some, hmore]

/-- Where the limit is kept, only the timeout keeps a line from the client. -/
theorem due_iff_of_allowed (h : allowed req 0 (req.selected events) = req.wanted events) :
    handleFollowStreamUntil req interrupted events = req.due interrupted events ↔
      ∀ i, interrupted = some (i, .timeout) → (req.wanted events).length ≤ i := by
  rw [handleFollowStreamUntil_eq, h]
  cases interrupted with
  | none => exact iff_of_true rfl nofun
  | some x =>
    obtain ⟨i, why⟩ := x
    cases why with
    | failure =>
      refine iff_of_true ?_ nofun
      simp only [uninterrupted, Option.elim_some, Nat.sub_zero, FollowRequest.due,
        List.length_take, Option.some_inj, Prod.mk.injEq, and_true]
      by_cases hle : i ≤ (req.wanted events).length
      · rw [if_pos (by omega), if_pos hle]
      · rw [if_neg (by omega), if_neg hle, List.take_of_length_le (by omega)]
    | timeout =>
      simp only [uninterrupted, Option.elim_some, Nat.sub_zero, FollowRequest.due, Option.some_inj,
        Prod.mk.injEq, reduceCtorEq, and_false, if_false, List.append_cancel_right_eq,
        map_toResponse_injective.eq_iff, List.take_eq_self_iff, and_true]
      exact ⟨fun hle j hj => hj ▸ hle, fun hle => hle i rfl⟩

theorem wanted_zero (h : req.maxLines = some 0) : req.wanted events = [] := by
  rw [FollowRequest.wanted, h]
  rfl

/-- With a limit of 0 and a line to send, the line is sent. -/
theorem not_due_of_zero {line : OutputLine} {lines : List OutputLine} (hmax : req.maxLines = some 0)
    (hselected : req.selected events = line :: lines) (hfirst : ∀ why, interrupted ≠ some (0, why)) :
    handleFollowStreamUntil req interrupted events ≠ req.due interrupted events := by
  have hallowed : allowed req 0 (req.selected events) = [line] := by
    rw [allowed, hmax, hselected]
    rfl
  have hsent : uninterrupted interrupted 0 [line] = [line] := by
    cases interrupted with
    | none => rfl
    | some x =>
      have hpos : 0 < x.1 := Nat.pos_of_ne_zero fun h => hfirst x.2 (congrArg some (Prod.ext h rfl))
      exact List.take_of_length_le hpos
  have hdue : req.due interrupted events = [.logEnd] := by
    rcases interrupted with _ | ⟨i, _ | _⟩
    · simp [FollowRequest.due, wanted_zero hmax]
    · have hpos : i ≠ 0 := fun h => hfirst .failure (by rw [h])
      simp [FollowRequest.due, wanted_zero hmax, hpos]
    · simp [FollowRequest.due, wanted_zero hmax]
  rw [handleFollowStreamUntil_eq, hallowed, hsent, hdue]
  simp only
  split_ifs <;> simp [OutputLine.toResponse]

/-- **A follow request gets its first lines and one end**, as many as its limit and no more, exactly
if the limit is not 0 while there is a line to send, and the timeout does not come in the middle of
one. -/
theorem follow_due_iff : handleFollowStreamUntil req interrupted events = req.due interrupted events ↔
    (req.maxLines = some 0 → req.selected events = [] ∨ ∃ why, interrupted = some (0, why)) ∧
    ∀ i, interrupted = some (i, .timeout) → (req.wanted events).length ≤ i := by
  by_cases hzero : req.maxLines = some 0 → req.selected events = []
  · rw [due_iff_of_allowed (allowed_eq_wanted hzero)]
    exact ⟨fun h => ⟨fun hmax => .inl (hzero hmax), h⟩, fun h => h.2⟩
  obtain ⟨hmax, hne⟩ := Classical.not_imp.mp hzero
  obtain ⟨line, lines, hselected⟩ := List.exists_cons_of_ne_nil hne
  by_cases hfirst : ∃ why, interrupted = some (0, why)
  · obtain ⟨why, rfl⟩ := hfirst
    have hwanted : req.wanted events = [] := wanted_zero hmax
    refine iff_of_true ?_ ⟨fun _ => .inr ⟨why, rfl⟩, fun i _ => hwanted ▸ Nat.zero_le i⟩
    rw [handleFollowStreamUntil_eq]
    cases why <;> simp [FollowRequest.due, hwanted, uninterrupted]
  · refine iff_of_false (not_due_of_zero hmax hselected fun why h => hfirst ⟨why, h⟩) fun h => ?_
    exact (h.1 hmax).elim hne hfirst

/-- **A limit of 0 lets one line through.** -/
theorem not_follow_due : handleFollowStreamUntil ⟨some "web", false, false, some 0⟩ none
    [.recv ⟨"web", .stdout, "a"⟩, .closed] ≠
      FollowRequest.due ⟨some "web", false, false, some 0⟩ none
        [.recv ⟨"web", .stdout, "a"⟩, .closed] := by
  decide

end Due

end AgentProcs
