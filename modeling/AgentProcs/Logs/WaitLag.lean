import AgentProcs.Logs.WaitTiming
import AgentProcs.Machinery.Broadcast

/-!
# Logs/WaitLag — a wait for a line, on a channel that everyone shares

    web:  ready
    db:         x x x ⋯ x                    as many lines as the channel holds
    wait: ────────────────▸ lagged ──▸ x x ⋯ x ──▸ WaitTimeout

The waiter and every capture task share one bounded channel.  What the waiter's turns come to is
decided by the order of prints and turns alone; a line it has lost it never looks for again.
-/

namespace AgentProcs

open Broadcast

/-- What happens from the subscription of a wait to its timeout. -/
inductive WaitTurn where
  | printed (line : OutputLine)
  /-- The loop looks at the channel. -/
  | turn
  | exitPoll (exited : Option (Option ℤ))
  deriving DecidableEq, Repr

/-- The part of it that the channel sees. -/
def WaitTurn.traffic : WaitTurn → Option (ChannelEvent OutputLine)
  | printed line => some (.sent line)
  | turn => some .turn
  | exitPoll _ => none

def Received.event : Received OutputLine → WaitEvent
  | message line => .recv line
  | lagged => .lagged

/-- What the loop meets. -/
def deliveries (capacity : ℕ) : List OutputLine → List WaitTurn → List WaitEvent
  | _, [] => []
  | unread, .printed line :: ts => deliveries capacity (unread ++ [line]) ts
  | unread, .turn :: ts =>
    (recv capacity unread).1.toList.map Received.event ++
      deliveries capacity (recv capacity unread).2 ts
  | unread, .exitPoll exited :: ts => .exitPoll exited :: deliveries capacity unread ts

variable {capacity : ℕ} {schedule : List WaitTurn} {unread : List OutputLine}

theorem recv_mem_deliveries {o : OutputLine} : .recv o ∈ deliveries capacity unread schedule ↔
    .message o ∈ received capacity unread (schedule.filterMap (·.traffic)) := by
  induction schedule generalizing unread with
  | nil => simp [deliveries, received]
  | cons t ts ih =>
    cases t with
    | printed line => exact ih
    | turn =>
      have hevent : .recv o ∈ (recv capacity unread).1.toList.map Received.event ↔
          .message o ∈ (recv capacity unread).1.toList := by
        rw [List.mem_map]
        constructor
        · rintro ⟨r, hr, hevent⟩
          cases r with
          | message line => rwa [← WaitEvent.recv.inj hevent]
          | lagged => exact WaitEvent.noConfusion hevent
        · exact fun hmem => ⟨_, hmem, rfl⟩
      change _ ↔ .message o ∈ (recv capacity unread).1.toList ++ received capacity _ _
      rw [deliveries, List.mem_append, List.mem_append, hevent, ih]
    | exitPoll exited =>
      rw [deliveries, List.mem_cons, or_iff_right WaitEvent.noConfusion]
      exact ih

theorem closed_notMem_deliveries (exited : Option (Option ℤ)) :
    .closed exited ∉ deliveries capacity unread schedule := by
  induction schedule generalizing unread with
  | nil => exact List.not_mem_nil
  | cons t ts ih =>
    cases t with
    | printed line => exact ih
    | turn =>
      rw [deliveries, List.mem_append, List.mem_map, not_or]
      refine ⟨?_, ih⟩
      rintro ⟨r, -, hevent⟩
      cases r <;> exact WaitEvent.noConfusion hevent
    | exitPoll exited =>
      rw [deliveries, List.mem_cons, not_or]
      exact ⟨WaitEvent.noConfusion, ih⟩

theorem exitPoll_mem_deliveries {exited : Option (Option ℤ)}
    (h : .exitPoll exited ∈ deliveries capacity unread schedule) : .exitPoll exited ∈ schedule := by
  induction schedule generalizing unread with
  | nil => exact absurd h List.not_mem_nil
  | cons t ts ih =>
    refine List.mem_cons.mpr ?_
    cases t with
    | printed line => exact .inr (ih h)
    | turn =>
      rw [deliveries, List.mem_append, List.mem_map] at h
      refine .inr (ih (h.resolve_left ?_))
      rintro ⟨r, -, hevent⟩
      cases r <;> exact WaitEvent.noConfusion hevent
    | exitPoll other =>
      rw [deliveries, List.mem_cons] at h
      exact h.imp (fun heq => by rw [WaitEvent.exitPoll.inj heq]) ih

/-! ## One wait -/

/-- A wait that subscribes, meets this schedule, and sees no exit before its timeout. -/
structure OnSchedule (exit : Bool) (capacity : ℕ) (schedule : List WaitTurn) (w : WaitScene) :
    Prop where
  known : w.hasProcess = true
  events : w.events = deliveries capacity [] schedule
  running : exit = true → w.exited = none ∧ ∀ exited, .exitPoll exited ∈ schedule → exited = none

variable {E : RegexEngine} {pattern target name : String} {regex exit : Bool} {w : WaitScene}

theorem OnSchedule.uninterrupted (h : OnSchedule exit capacity schedule w) :
    Uninterrupted exit w where
  known := h.known
  running hexit := (h.running hexit).1
  unclosed exited := h.events ▸ closed_notMem_deliveries exited
  polls hexit exited hmem := (h.running hexit).2 exited (exitPoll_mem_deliveries (h.events ▸ hmem))

/-- **The wait gets to a line**: its target prints one that satisfies the pattern, and a turn comes
to it before the channel has lost it. -/
def GetsTo (E : RegexEngine) (pattern : String) (regex : Bool) (target : String) (capacity : ℕ)
    (schedule : List WaitTurn) : Prop :=
  ∃ before o after, schedule = before ++ .printed o :: after ∧ o.process = target ∧
    Satisfies E pattern regex o.line ∧
    Reached capacity (backlog capacity 0 (before.filterMap (·.traffic))) 0
      (after.filterMap (·.traffic))

/-- The log on disk holds a line that satisfies the pattern. -/
def InLog (E : RegexEngine) (pattern : String) (regex : Bool) (w : WaitScene) : Prop :=
  ∃ content, w.content = some content ∧ ∃ l ∈ textLines content, Satisfies E pattern regex l

theorem traffic_eq_sent_iff {t : WaitTurn} {o : OutputLine} :
    t.traffic = some (.sent o) ↔ t = .printed o := by
  cases t <;> simp [WaitTurn.traffic]

/-- A line that is delivered is one the wait gets to. -/
theorem recv_mem_deliveries_iff {o : OutputLine} : .recv o ∈ deliveries capacity [] schedule ↔
    ∃ before after, schedule = before ++ .printed o :: after ∧
      Reached capacity (backlog capacity 0 (before.filterMap (·.traffic))) 0
        (after.filterMap (·.traffic)) := by
  rw [recv_mem_deliveries, mem_received_iff, or_iff_right]
  · constructor
    · rintro ⟨b, a, hsplit, hreached⟩
      obtain ⟨before, rest, rfl, rfl, hrest⟩ := List.filterMap_eq_append_iff.mp hsplit
      obtain ⟨skipped, t, after, rfl, hskipped, ht, rfl⟩ := List.filterMap_eq_cons_iff.mp hrest
      obtain rfl := traffic_eq_sent_iff.mp ht
      refine ⟨before ++ skipped, after, (List.append_assoc ..).symm, ?_⟩
      rwa [List.filterMap_append, List.filterMap_eq_nil_iff.mpr hskipped, List.append_nil]
    · rintro ⟨before, after, rfl, hreached⟩
      exact ⟨_, _, by rw [List.filterMap_append, List.filterMap_cons]; rfl, hreached⟩
  · rintro ⟨us, vs, hsplit, -⟩
    exact absurd hsplit (by simp)

/-- **What decides a wait for a line**: the log, and the order of prints and turns. -/
theorem kind_found_iff (h : OnSchedule exit capacity schedule w)
    (hvalid : ¬InvalidPattern E pattern regex) :
    (handleWait E target (some pattern) regex exit w).kind = .found ↔
      InLog E pattern regex w ∨ GetsTo E pattern regex target capacity schedule := by
  have hlive : (∃ o, .recv o ∈ w.events ∧ o.process = target ∧ Satisfies E pattern regex o.line) ↔
      GetsTo E pattern regex target capacity schedule := by
    rw [h.events]
    constructor
    · rintro ⟨o, hmem, hown, hsat⟩
      obtain ⟨before, after, hsplit, hreached⟩ := recv_mem_deliveries_iff.mp hmem
      exact ⟨before, o, after, hsplit, hown, hsat, hreached⟩
    · rintro ⟨before, o, after, hsplit, hown, hsat, hreached⟩
      exact ⟨o, recv_mem_deliveries_iff.mpr ⟨before, after, hsplit, hreached⟩, hown, hsat⟩
  rw [← hlive]
  cases hcontent : w.content with
  | some content =>
    rw [handleWait_found_iff h.uninterrupted hcontent hvalid]
    refine or_congr ?_ Iff.rfl
    simp [InLog, hcontent]
  | none =>
    have hnone : ¬InLog E pattern regex w := fun ⟨content, hsome, _⟩ => by simp [hcontent] at hsome
    obtain ⟨compiled, hmatch, hfor⟩ := waitFor_of_valid target h.uninterrupted hvalid
    rw [or_iff_right hnone, ← waitLoop_found_iff hmatch h.uninterrupted.unclosed
      h.uninterrupted.polls, ← hfor]
    simp [handleWait, h.known, hcontent]

/-- **A wait for a line misses none, exactly if it gets to one**: its process prints a line that
satisfies the pattern while it waits; it is answered with a match if and only if the log holds one
already, or its turns come to such a line before as many have been sent behind it as the channel
holds. -/
theorem found_iff_getsTo (h : OnSchedule exit capacity schedule w)
    (hprinted : ∃ o, .printed o ∈ schedule ∧ o.process = name ∧ Satisfies E pattern regex o.line) :
    (handleWait E target (some pattern) regex exit w).kind = .found ↔
      InLog E pattern regex w ∨ GetsTo E pattern regex target capacity schedule := by
  obtain ⟨o, -, -, hsat⟩ := hprinted
  exact kind_found_iff h hsat.valid

/-- **A waiter that catches up** gets to every line of its target. -/
theorem getsTo_of_catchesUp (hcatches : CatchesUp capacity 0 (schedule.filterMap (·.traffic)))
    (hprinted : ∃ o, .printed o ∈ schedule ∧ o.process = target ∧ Satisfies E pattern regex o.line) :
    GetsTo E pattern regex target capacity schedule := by
  obtain ⟨o, hmem, hown, hsat⟩ := hprinted
  obtain ⟨before, after, rfl⟩ := List.append_of_mem hmem
  refine ⟨before, o, after, rfl, hown, hsat, ?_⟩
  rw [List.filterMap_append] at hcatches
  have hafter : CatchesUp capacity (backlog capacity 0 (before.filterMap (·.traffic)) + 1 + 0)
      (after.filterMap (·.traffic)) := hcatches.after
  exact hafter.reached

/-! ## A line, and a burst behind it -/

/-- A wait on a process that has no log yet. -/
def sceneOn (capacity : ℕ) (schedule : List WaitTurn) : WaitScene :=
  ⟨true, none, none, deliveries capacity [] schedule⟩

theorem onSchedule_sceneOn : OnSchedule false capacity schedule (sceneOn capacity schedule) :=
  ⟨rfl, rfl, nofun⟩

def ready : OutputLine := ⟨"web", .stdout, "ready"⟩

/-- The waiter's turn comes right after the line. -/
theorem found_iff_getsTo_prompt : (handleWait plainRegex "web" (some "ready") false false
    (sceneOn 1024 [.printed ready, .turn])).kind = .found := by
  have hprinted : ∃ o, WaitTurn.printed o ∈ [WaitTurn.printed ready, .turn] ∧ o.process = "web" ∧
      Satisfies plainRegex "ready" false o.line := ⟨ready, List.mem_cons_self, rfl, satisfies_ready⟩
  exact (found_iff_getsTo onSchedule_sceneOn hprinted).mpr
    (.inr (getsTo_of_catchesUp ⟨by decide, rfl⟩ hprinted))

/-- A wait for a line misses none that is printed while it waits. -/
def NeverMisses : Prop :=
  ∀ E pattern regex target capacity schedule w, OnSchedule false capacity schedule w →
    (∃ o, .printed o ∈ schedule ∧ o.process = target ∧ Satisfies E pattern regex o.line) →
    (handleWait E target (some pattern) regex false w).kind = .found

/-- So many lines of another process. -/
def burst (n : ℕ) : List OutputLine := List.replicate n ⟨"db", .stdout, "x"⟩

/-- A line, as many others as the channel holds, and turns for all that it still holds. -/
def overrun (capacity : ℕ) : List WaitTurn :=
  .printed ready :: ((burst capacity).map .printed ++ List.replicate (capacity + 1) .turn)

theorem not_getsTo_overrun (capacity : ℕ) :
    ¬GetsTo plainRegex "ready" false "web" capacity (overrun capacity) := by
  rintro ⟨before, o, after, hsplit, hown, -, hreached⟩
  cases before with
  | nil =>
    obtain ⟨-, rfl⟩ := List.cons.inj hsplit
    have hburst : ((burst capacity).map WaitTurn.printed).filterMap (·.traffic) =
        (burst capacity).map .sent := by
      rw [List.filterMap_map]
      exact congrFun List.filterMap_eq_map (burst capacity)
    have hturns : (List.replicate (capacity + 1) WaitTurn.turn).filterMap (·.traffic) =
        .turn :: List.replicate capacity .turn := List.filterMap_replicate_of_some rfl
    rw [List.filterMap_append, hburst, hturns] at hreached
    exact not_reached_of_burst (by rw [burst, List.length_replicate]) 0 hreached
  | cons t before =>
    obtain ⟨-, htail⟩ := List.cons.inj hsplit
    have hmem : WaitTurn.printed o ∈
        (burst capacity).map .printed ++ List.replicate (capacity + 1) .turn :=
      htail ▸ List.mem_append_right _ List.mem_cons_self
    rcases List.mem_append.mp hmem with hmem | hmem
    · obtain ⟨line, hline, heq⟩ := List.mem_map.mp hmem
      obtain rfl := WaitTurn.printed.inj heq
      rw [List.eq_of_mem_replicate hline] at hown
      exact absurd hown (by decide)
    · exact WaitTurn.noConfusion (List.eq_of_mem_replicate hmem)

/-- **A burst takes the line away**, and the waiter never looks for it again. -/
theorem not_neverMisses : ¬NeverMisses := by
  intro h
  have hfound := h plainRegex "ready" false "web" 1024 (overrun 1024) _ onSchedule_sceneOn
    ⟨ready, List.mem_cons_self, rfl, satisfies_ready⟩
  rcases (kind_found_iff onSchedule_sceneOn satisfies_ready.valid).mp hfound with
    ⟨content, hcontent, -⟩ | hgets
  · exact absurd hcontent nofun
  · exact not_getsTo_overrun 1024 hgets

end AgentProcs
