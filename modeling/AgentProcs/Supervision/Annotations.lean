import AgentProcs.Supervision.Answers

/-!
# Supervision/Annotations — what the actor writes into the logs of its processes

    spawn     a watcher that could not be set up
    respawn   why, and the attempt
    tick      no restart is left

The capture tasks take these lines from the supervisor channels.  Only the first quotes something the
actor has not made up itself.
-/

namespace AgentProcs

theorem Notes.publish (a : Actor) : Notes a a.publishProxyState :=
  (Speaks.publish a : Speaks Answer.Plain a _).toNotes

namespace Actor

variable {a : Actor}

theorem handleEnableProxy_notes (proxyPort : ℕ) (reply : Reply) :
    Notes a (a.handleEnableProxy proxyPort reply) := by
  rw [handleEnableProxy]
  split
  · exact .of_eq rfl
  · have hturned : Notes a { a with proxyPort := some proxyPort, pm := a.pm.enableProxy } := .of_eq rfl
    exact (hturned.trans (.publish _)).trans (.of_eq rfl)

theorem finishTeardown_notes (os : Os) (name : String) (generation : ℕ) (code : Option ℤ) :
    Notes a (a.finishTeardown os name generation code) := by
  have hreport (a' : Actor) (resp : Response) (ws : List Waiter) (h : Notes a a') :
      Notes a ((ws.foldl (answerWaiter name resp) a').leaveBatch name).publishProxyState := by
    have hanswers := h.trans (foldl_answerWaiter_speaks name resp ws a').toNotes
    exact (hanswers.trans (leaveBatch_speaks name).toNotes).trans (.publish _)
  rw [finishTeardown]
  split
  · exact .of_eq rfl
  rename_i p hp
  split
  · have hparked : Notes a { a with pm := a.pm.setLife p.name (.exited code .manual none false) } :=
      .of_eq rfl
    dsimp only
    split
    · rename_i andThen waiters hlife
      cases andThen with
      | park => exact hreport _ _ waiters hparked
      | respawn reason => exact hreport _ _ waiters (hparked.trans (respawn_speaks ..).toNotes)
    · exact .of_eq rfl
  · exact .of_eq rfl

theorem handleSpawn_notes (os : Os) (command : String) (name cwd : Option String)
    (env : Option (List (String × String))) (port : Option ℕ) (restart : Option RestartPolicy)
    (watch : Option WatchConfig) (reply : Reply) :
    Notes a (a.handleSpawn os command name cwd env port restart watch reply) := by
  have hanswer (a' : Actor) (h : Notes a a') (resp : Response) :
      Notes a (a'.publishProxyState.respond reply resp) :=
    (h.trans (.publish a')).trans (.of_eq rfl)
  rcases handleSpawn_cases os command name cwd env port restart watch reply a with ⟨-, hspawn⟩ |
    ⟨-, ⟨pm, code, message, -, hspawn⟩ | ⟨pm, p, id, pid, port', url, url', -, -, -, hspawn⟩⟩
  · exact hspawn ▸ .of_eq rfl
  · have htable : Notes a { a with pm } := .of_eq rfl
    exact hspawn ▸ hanswer _ htable _
  · have htable : Notes a { a with pm } := .of_eq rfl
    have houtfit : Speaks Answer.Plain _ (outfit os p.name restart watch { a with pm }) := .outfit ..
    exact hspawn ▸ hanswer _ (htable.trans houtfit.toNotes) _

theorem handleCommand_notes (os : Os) (cmd : PmCommand) : Notes a (a.handleCommand os cmd) := by
  cases cmd with
  | spawn => exact handleSpawn_notes ..
  | stop => exact (handleStop_speaks ..).toNotes
  | stopAll => exact (handleStopAll_speaks ..).toNotes
  | restart => exact (handleRestart_speaks ..).toNotes
  | status | statusSnapshot => exact (handleStatus_speaks ..).toNotes
  | hasProcess | sessionName | subscribe => exact .of_eq rfl
  | isProcessExited => exact (handleIsProcessExited_speaks ..).toNotes
  | enableProxy => exact handleEnableProxy_notes ..
  | autoRestart => exact (handleAutoRestart_speaks ..).toNotes
  | watchRestart => exact (handleWatchRestart_speaks ..).toNotes
  | stopFinished => exact finishTeardown_notes ..

end Actor

/-- **The actor writes nothing else**, in no run of the daemon. -/
theorem supervisorMessage_of_reachable {w : World} (h : daemon.Reachable w) :
    ∀ x ∈ w.actor.annotations, SupervisorMessage x.2 := by
  refine h.invariant (P := fun w => ∀ x ∈ w.actor.annotations, SupervisorMessage x.2) ?_
    fun w e w' _ hw hstep => ?_
  · rintro w ⟨session, rfl⟩
    exact nofun
  · have hnotes : Notes w.actor w'.actor := by
      cases hstep with
      | client => exact Actor.handleCommand_notes ..
      | @deliver os cmd =>
        have htake : Notes w.actor (w.take cmd).actor := .of_eq rfl
        exact htake.trans (Actor.handleCommand_notes ..)
      | tick => exact (Actor.tick_speaks _).toNotes
      | exit => exact .of_eq rfl
      | fileChanged => exact .of_eq rfl
      | teardownDone => exact .of_eq rfl
    exact fun x hx => (hnotes.new x hx).elim (hw x) id

end AgentProcs
