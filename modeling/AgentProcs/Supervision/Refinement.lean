import AgentProcs.Supervision.Handlers
import AgentProcs.Daemon.World

/-!
# Supervision/Refinement — the daemon refines the custodian

    w ──────────────step──────────────▸ w'
    │ desk                              │ desk
    ▼                                   ▼
    d ──move──▸ · ──move──▸ ⋯ ──move──▸ d'

Every step of the daemon is a chain of moves, so its ledgers balance in every reachable state
(`sound_of_reachable`).  Between two steps no handler is at work: nothing is in hand, no report is
due, and no name is leaving the batch.
-/

namespace AgentProcs

namespace World

/-- The books between two steps. -/
def books (w : World) : Books := ⟨[], [], [], w.tornDown, w.requests⟩

def desk (w : World) : Desk := ⟨w.books, w.actor.holdings⟩

/-- The record called `n`. -/
def record (w : World) (n : String) : Option ManagedProcess := w.actor.pm.processes.lookup n

end World

/-- Whom an event may set up for a respawn, and why. -/
def Event.revives (w : World) : Event → String → RespawnReason → Prop
  | .client _ (.restart target _) => w.actor.Named target
  | .deliver _ (.autoRestart name generation) => w.actor.Timed name generation
  | .deliver _ (.watchRestart name generation) => w.actor.Watched name generation
  | _ => Nobody

/-- Whom an event may spawn an incarnation into. -/
def Event.launches (w : World) : Event → String → Launch → Prop
  | .client _ (.spawn ..) => w.actor.Creates
  | .deliver _ (.stopFinished name _ _) => w.actor.Relaunches name
  | _ => Nobody

/-! ## One step -/

variable {w w' : World}

/-- A client's command, its channel in the handler's hands. -/
theorem client_moves (os : Os) {cmd : PmCommand} {reply : Reply} (hreply : cmd.reply = some reply)
    {b : Books} (hleaving : b.leaving = [])
    (hs : Sound { b with hand := reply :: b.hand } w.actor.holdings) :
    Moves (Move.Within os.exits ((Event.client os cmd).revives w) ((Event.client os cmd).launches w))
      ⟨{ b with hand := reply :: b.hand }, w.actor.holdings⟩
      ⟨b, (w.actor.handleCommand os cmd).holdings⟩ := by
  cases cmd with
  | autoRestart | watchRestart | stopFinished => exact absurd hreply (by simp [PmCommand.reply])
  | spawn =>
    obtain rfl := Option.some.inj hreply
    exact Actor.handleSpawn_moves os _ _ _ _ _ _ _ _ hs
  | stop =>
    obtain rfl := Option.some.inj hreply
    exact (Actor.handleStop_moves os _ _ hs).within
  | stopAll =>
    obtain rfl := Option.some.inj hreply
    exact (Actor.handleStopAll_moves os _ hleaving).within
  | restart =>
    obtain rfl := Option.some.inj hreply
    exact Actor.handleRestart_moves os _ _
  | status | statusSnapshot =>
    obtain rfl := Option.some.inj hreply
    exact (Actor.handleStatus_moves os _).within
  | isProcessExited =>
    obtain rfl := Option.some.inj hreply
    exact (Actor.handleIsProcessExited_moves os _ _).within
  | enableProxy =>
    obtain rfl := Option.some.inj hreply
    exact (Actor.handleEnableProxy_moves _ _).within
  | hasProcess | sessionName | subscribe =>
    obtain rfl := Option.some.inj hreply
    exact (Actor.answer_moves ..).within

/-- Taking a command off the queue puts its report, if it is one, in the actor's hands. -/
theorem take_moves {cmd : PmCommand} {R : String → RespawnReason → Prop}
    {L : String → Launch → Prop} {E : Incarnation → Option (Option ℤ)}
    (hmem : cmd ∈ w.actor.inFlight) : Moves (Move.Within E R L) w.desk
      ⟨{ w.books with due := cmd.report.toList }, (w.take cmd).actor.holdings⟩ := by
  have hmove : Custody ⟨w.books, w.actor.holdings⟩ (.deliver cmd) _ := .deliver hmem
  rw [show w.books.due = [] from rfl, List.append_nil] at hmove
  exact .one hmove trivial

theorem sound_take {cmd : PmCommand} (hs : Sound w.books w.actor.holdings)
    (hmem : cmd ∈ w.actor.inFlight) :
    Sound { w.books with due := cmd.report.toList } (w.take cmd).actor.holdings :=
  (take_moves (R := Nobody) (L := Nobody) (E := w.exits) hmem).sound hs

/-- A command in flight, once taken off the queue. -/
theorem deliver_moves (os : Os) {cmd : PmCommand} (hs : Sound w.books w.actor.holdings)
    (hmem : cmd ∈ w.actor.inFlight) :
    Moves (Move.Within os.exits ((Event.deliver os cmd).revives w) ((Event.deliver os cmd).launches w))
      w.desk (w.deliver os cmd).desk := by
  refine (take_moves hmem).trans ?_
  have hs' := sound_take hs hmem
  obtain ⟨n, g, hstamp, hissued⟩ := hs.stamps.inFlight cmd hmem
  cases cmd with
  | autoRestart name generation =>
    obtain ⟨rfl, rfl⟩ := Prod.mk.inj (Option.some.inj hstamp)
    exact Actor.handleAutoRestart_moves hissued
  | watchRestart name generation =>
    obtain ⟨rfl, rfl⟩ := Prod.mk.inj (Option.some.inj hstamp)
    exact Actor.handleWatchRestart_moves hissued
  | stopFinished name generation code =>
    exact Actor.finishTeardown_moves (b := w.books) os code hs' rfl
  | _ => exact absurd hstamp (by simp [PmCommand.stamp])

/-- **A step of the daemon is a chain of moves.** -/
theorem step_moves {e : Event} (hs : Sound w.books w.actor.holdings) (h : Step w e w') :
    Moves (Move.Within w.exits (e.revives w) (e.launches w)) w.desk w'.desk := by
  cases h with
  | @client os cmd hos hreply =>
    rw [← hos]
    have hreceive : Custody w.desk .receive
        ⟨{ w.books with hand := [w.requests], requests := w.requests + 1 }, w.actor.holdings⟩ :=
      .receive
    have hreceived : Moves (Move.Within os.exits ((Event.client os cmd).revives w)
        ((Event.client os cmd).launches w)) _ _ := .one hreceive trivial
    exact hreceived.trans (client_moves os hreply (b := { w.books with requests := w.requests + 1 })
      rfl (hreceived.sound hs))
  | deliver hos hmem => exact hos ▸ deliver_moves _ hs hmem
  | tick hos => exact hos ▸ (Actor.tick_moves _).within
  | exit => exact .refl _
  | fileChanged hmem => exact .one (.fileChanged hmem) trivial
  | teardownDone hmem hcode => exact .one (.teardownDone hmem) trivial

/-! ## Every reachable state -/

/-- The ledgers of a daemon that has just started. -/
theorem sound_new (session : String) :
    Sound (World.new session).books (World.new session).actor.holdings where
  stamps := by
    refine ⟨fun n p hp => absurd hp (by simp [World.new, Actor.new, Actor.holdings,
      ProcessManager.new]), fun m n p q hp => absurd hp (by simp [World.new, Actor.new,
      Actor.holdings, ProcessManager.new]), fun t ht => absurd ht List.not_mem_nil,
      fun c hc => absurd hc List.not_mem_nil, fun w hw => absurd hw List.not_mem_nil⟩
  custody k := rfl
  reports n g := rfl
  replies r := rfl
  records n p hp := absurd hp (by simp [World.new, Actor.new, Actor.holdings, ProcessManager.new])
  batch := batch_none rfl
  dropped := rfl
  calm := rfl

/-- **The ledgers balance in every reachable state.** -/
theorem sound_of_reachable (h : daemon.Reachable w) : Sound w.books w.actor.holdings := by
  refine h.invariant (P := fun w => Sound w.books w.actor.holdings) ?_ fun w e w' _ hs hstep => ?_
  · rintro w ⟨session, rfl⟩
    exact sound_new session
  · exact (step_moves hs hstep).sound hs

end AgentProcs
