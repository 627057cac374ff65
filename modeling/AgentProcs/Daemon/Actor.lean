import AgentProcs.Daemon.ProcessManager

/-!
# Daemon/Actor — the actor that owns the process table

Commands are handled one at a time, each to its end, so a handler is a function of the actor's
state.  What a handler starts in the background or sends away is recorded in that state: the
teardown tasks it spawned, the commands its timers and watchers will send back (`inFlight`), the
answers it gave.  An `unreachable!` arm sets `panicked`.
-/

namespace AgentProcs

/-- What goes back over a reply channel. -/
inductive Answer where
  | response (r : Response)
  | flag (b : Bool)
  | text (s : String)
  | exited (code : Option (Option ℤ))
  | proxy (existing : Option ℕ)
  | subscription
  deriving DecidableEq, Repr

/-- Commands sent to the actor; the last three are internal. -/
inductive PmCommand where
  | spawn (command : String) (name cwd : Option String) (env : Option (List (String × String)))
      (port : Option ℕ) (restart : Option RestartPolicy) (watch : Option WatchConfig)
      (reply : Reply)
  | stop (target : String) (reply : Reply)
  | stopAll (reply : Reply)
  | restart (target : String) (reply : Reply)
  | status (reply : Reply)
  | statusSnapshot (reply : Reply)
  | hasProcess (target : String) (reply : Reply)
  | sessionName (reply : Reply)
  | isProcessExited (target : String) (reply : Reply)
  | enableProxy (proxyPort : ℕ) (reply : Reply)
  | subscribe (reply : Reply)
  | autoRestart (name : String) (generation : ℕ)
  | watchRestart (name : String) (generation : ℕ)
  | stopFinished (name : String) (generation : ℕ) (code : Option ℤ)
  deriving DecidableEq, Repr

/-- The channel a client's command is answered on. -/
def PmCommand.reply : PmCommand → Option Reply
  | spawn _ _ _ _ _ _ _ r => some r
  | stop _ r => some r
  | stopAll r => some r
  | restart _ r => some r
  | status r => some r
  | statusSnapshot r => some r
  | hasProcess _ r => some r
  | sessionName r => some r
  | isProcessExited _ r => some r
  | enableProxy _ r => some r
  | subscribe r => some r
  | autoRestart .. => none
  | watchRestart .. => none
  | stopFinished .. => none

/-- A teardown task: the incarnation it owns, and whom it reports for. -/
structure Teardown where
  name : String
  generation : ℕ
  inc : Option Incarnation
  leaderExit : Option (Option ℤ)
  deriving DecidableEq, Repr

/-- A `stop-all` waiting for the teardowns it started. -/
structure StopAllBatch where
  remaining : Finset String
  replies : List Reply

def notFound (target : String) : Response := .error .notFound s!"process not found: {target}"

def stopped (name : String) : Response := .ok s!"stopped {name}"

def actorError (msg : String) : Response := .error .general msg

def stopAllInProgress : Response := actorError "stop-all in progress"

def allStopped : Response := .ok "all processes stopped"

structure Actor where
  pm : ProcessManager
  proxyPort : Option ℕ
  stopAll : Option StopAllBatch
  /-- The port map last sent on the proxy watch channel. -/
  published : PortMap
  teardowns : List Teardown
  /-- Commands sent to the actor by its own timers, watchers and teardowns, or still to be sent. -/
  inFlight : List PmCommand
  /-- Every watcher ever set up. -/
  watchers : List WatchHandle
  answers : List (Reply × Answer)
  /-- Lines offered to the capture tasks over the supervisor channels. -/
  annotations : List (Incarnation × String)
  broadcasts : List OutputLine
  panicked : Bool

namespace Actor

def new (session : String) : Actor where
  pm := .new session
  proxyPort := none
  stopAll := none
  published := ∅
  teardowns := []
  inFlight := []
  watchers := []
  answers := []
  annotations := []
  broadcasts := []
  panicked := false

/-! ## Small steps -/

/-- Send an answer. -/
def answer (reply : Reply) (ans : Answer) (a : Actor) : Actor :=
  { a with answers := (reply, ans) :: a.answers }

/-- Send a response. -/
def respond (reply : Reply) (r : Response) (a : Actor) : Actor := a.answer reply (.response r)

/-- Look at the running leaders. -/
def refresh (os : Os) (a : Actor) : Actor := { a with pm := (a.pm.refreshExitStates os).1 }

/-- Change the record called `name`. -/
def update (name : String) (f : ManagedProcess → ManagedProcess) (a : Actor)
    (hf : ∀ p, (f p).name = p.name := by exact fun _ => rfl) : Actor :=
  { a with pm := a.pm.update name f hf }

/-- Publish the current port map, unless it is the one last published. -/
def publishProxyState (a : Actor) : Actor :=
  if a.published = a.pm.runningPorts then a else { a with published := a.pm.runningPorts }

/-- Offer a line to the log of the incarnation `name` holds. -/
def annotate (name : String) (msg : String) (a : Actor) : Actor :=
  match (a.pm.find name).bind (·.life.inc) with
  | some inc => { a with annotations := (inc, msg) :: a.annotations }
  | none => a

/-- Set up a file watcher, if the record has a watch config.  A config whose watcher cannot be
created is cleared. -/
def setupWatcher (os : Os) (name : String) (a : Actor) : Actor × Except String Unit :=
  match a.pm.find name with
  | none => (a, .ok ())
  | some p =>
    if p.watchConfig.isNone then (a, .ok ())
    else match os.watch with
      | .ok () =>
        let handle : WatchHandle := ⟨name, p.generation⟩
        ({ a.update p.name fun p => { p with watchHandle := some handle } with
            watchers := handle :: a.watchers }, .ok ())
      | .error e => (a.update p.name fun p => { p with watchConfig := none }, .error e)

/-! ## Teardowns -/

/-- Hand the incarnation of `name` to a teardown task. -/
def startTeardown (name : String) (andThen : AfterStop) (waiter : Option Waiter) (a : Actor) :
    Actor :=
  match a.pm.find name with
  | none => a
  | some p =>
    let take (inc : Option Incarnation) (leaderExit : Option (Option ℤ)) : Actor :=
      { a.update p.name fun p =>
          { p with watchHandle := none, life := .stopping leaderExit andThen waiter.toList } with
        teardowns := ⟨name, p.generation, inc, leaderExit⟩ :: a.teardowns }
    match p.life with
    | .running inc => take (some inc) none
    | .exited code _ inc _ => take inc (some code)
    | .stopping .. => { a with panicked := true }

/-- The line an automatic restart leaves in the log. -/
def restartMarker (p : ManagedProcess) (prevCode : Option ℤ) : String :=
  let exit := match prevCode with
    | some c => toString c
    | none => "signal"
  match p.restartPolicy.bind (·.maxRestarts) with
  | some m => s!"[agent-procs] Restarted (exit {exit}, attempt {p.restartCount}/{m})"
  | none => s!"[agent-procs] Restarted (exit {exit}, attempt {p.restartCount})"

def respawn (os : Os) (name : String) (reason : RespawnReason) (prevCode : Option ℤ) (a : Actor) :
    Actor × Response :=
  let a := if reason = .manual then a.update name fun p => { p with restartCount := 0 } else a
  let (pm, resp) := a.pm.respawn os name (reason != .manual)
  let a := { a with pm }
  match resp, reason with
  | .runOk .., .manual => ((a.setupWatcher os name).1, resp)
  | .runOk .., .watch =>
    (((a.annotate name "[agent-procs] File changed, restarted").setupWatcher os name).1, resp)
  | .runOk .., .auto =>
    let a := match a.pm.find name with
      | some p => a.annotate name (restartMarker p prevCode)
      | none => a
    ((a.setupWatcher os name).1, resp)
  | .error _ message, .auto =>
    ({ a with broadcasts :=
        ⟨name, .stdout, s!"[agent-procs] Restart failed: {message}"⟩ :: a.broadcasts }, resp)
  | .error _ message, .watch =>
    ({ a with broadcasts :=
        ⟨name, .stdout, s!"[agent-procs] Watch restart failed: {message}"⟩ :: a.broadcasts }, resp)
  | _, _ => (a, resp)

/-- Answer a waiter of the record `name`: a stop is done, a restart got `restartReply`. -/
def answerWaiter (name : String) (restartReply : Response) (a : Actor) : Waiter → Actor
  | .stop reply => a.respond reply (stopped name)
  | .restart reply => a.respond reply restartReply

/-- Forget the records and answer everyone waiting for the batch. -/
def finishStopAll (a : Actor) : Actor :=
  match a.stopAll with
  | none => a
  | some batch =>
    batch.replies.foldl (fun a reply => a.respond reply allStopped)
      { a with stopAll := none, pm := a.pm.clear }

/-- Strike `name` off the running batch, and finish the batch when it was the last. -/
def leaveBatch (name : String) (a : Actor) : Actor :=
  match a.stopAll with
  | none => a
  | some batch =>
    let remaining := batch.remaining.erase name
    let a := { a with stopAll := some { batch with remaining } }
    if remaining = ∅ then a.finishStopAll else a

def finishTeardown (os : Os) (name : String) (generation : ℕ) (code : Option ℤ) (a : Actor) :
    Actor :=
  match a.pm.find name with
  | none => a
  | some p =>
    if p.generation = generation then
      let parked := { a with pm := a.pm.setLife p.name (.exited code .manual none false) }
      match p.life with
      | .stopping _ andThen waiters =>
        let (a, restartReply) := match andThen with
          | .park => (parked, actorError "restart superseded by stop")
          | .respawn reason => parked.respawn os name reason code
        let a := waiters.foldl (answerWaiter name restartReply) a
        (a.leaveBatch name).publishProxyState
      | _ => { parked with panicked := true }
    else a

/-! ## Stop-all -/

/-- What `handle_stop_all` does with one record; the set collects the names it waits for. -/
def stopOne (st : Actor × Finset String) (name : String) : Actor × Finset String :=
  match st.1.pm.find name with
  | none => st
  | some p =>
    match p.life with
    | .stopping leaderExit _ waiters =>
      ({ st.1 with pm := st.1.pm.setLife p.name (.stopping leaderExit .park waiters) },
        insert name st.2)
    | .exited _ _ none _ => st
    | .running _ => (st.1.startTeardown name .park none, insert name st.2)
    | .exited _ _ (some _) _ => (st.1.startTeardown name .park none, insert name st.2)

def handleStopAll (os : Os) (reply : Reply) (a : Actor) : Actor :=
  match a.stopAll with
  | some batch => { a with stopAll := some { batch with replies := batch.replies ++ [reply] } }
  | none =>
    let a := a.refresh os
    let (a, remaining) := a.pm.names.foldl stopOne (a, ∅)
    let a := { a with stopAll := some ⟨remaining, [reply]⟩ }
    let a := if remaining = ∅ then a.finishStopAll else a
    a.publishProxyState

/-! ## Commands -/

/-- What a spawn gives a fresh record: its policy, its watch config, and its watcher if it is to
have one. -/
def outfit (os : Os) (name : String) (restart : Option RestartPolicy) (watch : Option WatchConfig)
    (a : Actor) : Actor :=
  let a := a.update name fun p => { p with restartPolicy := restart, watchConfig := watch }
  if watch.isSome then
    match a.setupWatcher os name with
    | (a, .ok ()) => a
    | (a, .error e) => a.annotate name s!"[agent-procs] Watch setup failed: {e}"
  else a

def handleSpawn (os : Os) (command : String) (name cwd : Option String)
    (env : Option (List (String × String))) (port : Option ℕ) (restart : Option RestartPolicy)
    (watch : Option WatchConfig) (reply : Reply) (a : Actor) : Actor :=
  if a.stopAll.isSome then a.respond reply stopAllInProgress
  else
    let (pm, resp) := a.pm.spawnProcess os command name cwd env port
    let a := { a with pm }
    match resp with
    | .runOk name id pid port url =>
      let a := a.outfit os name restart watch
      let url := match port, a.proxyPort with
        | some p, some pp => some (processUrl name p (some pp))
        | _, _ => url
      a.publishProxyState.respond reply (.runOk name id pid port url)
    | resp => a.publishProxyState.respond reply resp

def handleStop (os : Os) (target : String) (reply : Reply) (a : Actor) : Actor :=
  let a := a.refresh os
  match a.pm.find target with
  | none => a.respond reply (notFound target)
  | some p =>
    match p.life with
    | .stopping leaderExit _ waiters =>
      { a with pm := a.pm.setLife p.name (.stopping leaderExit .park (waiters ++ [.stop reply])) }
    | .exited _ _ none _ =>
      (a.update p.name fun p => { p with watchHandle := none }).respond reply (stopped p.name)
    | .running _ => a.startTeardown p.name .park (some (.stop reply))
    | .exited _ _ (some _) _ => a.startTeardown p.name .park (some (.stop reply))

def handleRestart (os : Os) (target : String) (reply : Reply) (a : Actor) : Actor :=
  if a.stopAll.isSome then a.respond reply stopAllInProgress
  else
    let a := a.refresh os
    match a.pm.find target with
    | none => a.respond reply (notFound target)
    | some p =>
      match p.life with
      | .stopping leaderExit _ waiters =>
        let joined := .stopping leaderExit (.respawn .manual) (waiters ++ [.restart reply])
        { a with pm := a.pm.setLife p.name joined }
      | _ => a.startTeardown p.name (.respawn .manual) (some (.restart reply))

/-- A status response with proxy URLs. -/
def rewriteUrls (proxyPort : Option ℕ) : Response → Response
  | .status processes =>
    match proxyPort with
    | none => .status processes
    | some pp => .status (processes.map fun p =>
        match p.port with
        | some port => { p with url := some (processUrl p.name port (some pp)) }
        | none => p)
  | resp => resp

def handleStatus (os : Os) (reply : Reply) (a : Actor) : Actor :=
  let changed := (a.pm.refreshExitStates os).2
  let a := a.refresh os
  let a := if changed then a.publishProxyState else a
  a.respond reply (rewriteUrls a.proxyPort (a.pm.statusSnapshot os))

def handleIsProcessExited (os : Os) (target : String) (reply : Reply) (a : Actor) : Actor :=
  let (pm, exited) := a.pm.isProcessExited os target
  ({ a with pm }).publishProxyState.answer reply (.exited exited)

def handleEnableProxy (proxyPort : ℕ) (reply : Reply) (a : Actor) : Actor :=
  match a.proxyPort with
  | some existing => a.answer reply (.proxy (some existing))
  | none =>
    ({ a with proxyPort := some proxyPort, pm := a.pm.enableProxy }).publishProxyState.answer reply
      (.proxy none)

def handleAutoRestart (name : String) (generation : ℕ) (a : Actor) : Actor :=
  if a.stopAll.isSome then a
  else match a.pm.find name with
    | none => a
    | some p =>
      if p.generation = generation then
        match p.life with
        | .exited _ .natural _ true =>
          (a.update p.name fun p => { p with restartCount := p.restartCount + 1 }).startTeardown
            name (.respawn .auto) none
        | _ => a
      else a

/-- Watch restarts are intentional, so they reset the crash budget. -/
def handleWatchRestart (name : String) (generation : ℕ) (a : Actor) : Actor :=
  if a.stopAll.isSome then a
  else match a.pm.find name with
    | none => a
    | some p =>
      if p.generation = generation then
        match p.life with
        | .stopping .. => a
        | .exited _ .manual _ _ => a
        | _ =>
          (a.update p.name fun p => { p with restartCount := 0 }).startTeardown
            name (.respawn .watch) none
      else a

def handleCommand (os : Os) (cmd : PmCommand) (a : Actor) : Actor :=
  match cmd with
  | .spawn command name cwd env port restart watch reply =>
    a.handleSpawn os command name cwd env port restart watch reply
  | .stop target reply => a.handleStop os target reply
  | .stopAll reply => a.handleStopAll os reply
  | .restart target reply => a.handleRestart os target reply
  | .status reply => a.handleStatus os reply
  | .statusSnapshot reply => a.handleStatus os reply
  | .hasProcess target reply => a.answer reply (.flag (a.pm.hasProcess target))
  | .sessionName reply => a.answer reply (.text a.pm.session)
  | .isProcessExited target reply => a.handleIsProcessExited os target reply
  | .enableProxy proxyPort reply => a.handleEnableProxy proxyPort reply
  | .subscribe reply => a.answer reply .subscription
  | .autoRestart name generation => a.handleAutoRestart name generation
  | .watchRestart name generation => a.handleWatchRestart name generation
  | .stopFinished name generation code => a.finishTeardown os name generation code

/-! ## The tick -/

/-- Mark a record failed, with a line in its log. -/
def exhaust (a : Actor) (name : String) : Actor :=
  let a := match (a.pm.find name).bind fun p => p.restartPolicy.bind (·.maxRestarts) with
    | some max => a.annotate name s!"[agent-procs] Max restarts ({max}) exhausted"
    | none => a
  { a with pm := a.pm.markFailed name }

/-- Set the restart timer of a record; when it fires it sends `AutoRestart`. -/
def armTimer (a : Actor) (name : String) : Actor :=
  match a.pm.find name with
  | none => a
  | some p =>
    match p.life with
    | .exited code why inc _ =>
      { a with
        pm := a.pm.setLife p.name (.exited code why inc true)
        inFlight := .autoRestart name p.generation :: a.inFlight }
    | _ => a

def scheduleRestarts (a : Actor) : Actor :=
  if a.stopAll.isSome then a
  else
    let (restartable, exhausted) := a.pm.classifyRestartCandidates
    let a := exhausted.foldl exhaust a
    let a := if exhausted.isEmpty then a else a.publishProxyState
    restartable.foldl armTimer a

/-- One turn of the periodic refresh. -/
def tick (os : Os) (a : Actor) : Actor :=
  let changed := (a.pm.refreshExitStates os).2
  let a := a.refresh os
  (if changed then a.publishProxyState else a).scheduleRestarts

end Actor

end AgentProcs
