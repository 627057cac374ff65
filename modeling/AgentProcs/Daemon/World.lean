import AgentProcs.Daemon.Actor
import AgentProcs.Machinery.Runs

/-!
# Daemon/World — the actor among its clients, timers, watchers and teardown tasks

    client / deliver / tick ──▸ the actor handles something
    exit / fileChanged / teardownDone ──▸ the world moves

A step is any client command, the periodic tick, the exit of any leader, a file change seen by any
watcher, the end of any teardown task, or the delivery, in any order, of a command in flight.  A
client's reply channel is named by the number of requests received before it.
-/

namespace AgentProcs

structure World where
  actor : Actor
  /-- The leaders that have exited. -/
  exits : Incarnation → Option (Option ℤ)
  /-- How many client requests the actor has received. -/
  requests : ℕ
  /-- The incarnations whose teardown has ended. -/
  tornDown : List Incarnation

inductive Event where
  | client (os : Os) (cmd : PmCommand)
  | deliver (os : Os) (cmd : PmCommand)
  | tick (os : Os)
  | exit (inc : Incarnation) (code : Option ℤ)
  | fileChanged (handle : WatchHandle)
  | teardownDone (t : Teardown) (code : Option ℤ)

/-- The event asks the actor to turn the proxy on. -/
def Event.EnablesProxy : Event → Prop
  | .client _ (.enableProxy ..) => True
  | _ => False

/-- An operating system on which every spawn works, as `pid`, and no leader has exited. -/
def Os.quiet (pid : ℕ) : Os where
  exits := fun _ => none
  waitidFails := fun _ => false
  spawn := .ok pid
  watch := .ok ()
  bind := fun _ => true
  now := 0

namespace World

def new (session : String) : World where
  actor := .new session
  exits := fun _ => none
  requests := 0
  tornDown := []

/-- The actor takes a command off its queue. -/
def take (cmd : PmCommand) (w : World) : World :=
  { w with actor := { w.actor with inFlight := w.actor.inFlight.erase cmd } }

/-- The actor handles a command. -/
def handle (os : Os) (cmd : PmCommand) (w : World) : World :=
  { w with actor := w.actor.handleCommand os cmd }

/-- A client's request is received and handled. -/
def receive (os : Os) (cmd : PmCommand) (w : World) : World :=
  { w.handle os cmd with requests := w.requests + 1 }

/-- A command in flight arrives and is handled. -/
def deliver (os : Os) (cmd : PmCommand) (w : World) : World := (w.take cmd).handle os cmd

def tick (os : Os) (w : World) : World := { w with actor := w.actor.tick os }

/-- A leader exits. -/
def leaderExit (inc : Incarnation) (code : Option ℤ) (w : World) : World :=
  { w with exits := Function.update w.exits inc (some code) }

/-- A watcher sees a file change. -/
def fileChanged (handle : WatchHandle) (w : World) : World :=
  { w with actor := { w.actor with
      inFlight := .watchRestart handle.name handle.generation :: w.actor.inFlight } }

/-- A teardown task ends: its incarnation is gone, and its report is on the way. -/
def finish (t : Teardown) (code : Option ℤ) (w : World) : World :=
  { w with
    actor := { w.actor with
      teardowns := w.actor.teardowns.erase t
      inFlight := .stopFinished t.name t.generation code :: w.actor.inFlight }
    tornDown := t.inc.toList ++ w.tornDown }

end World

/-- The codes a teardown may report: the one it was given, or nothing if it panicked; the leader's
own when it was still running; and without an incarnation, the one it was given. -/
def Teardown.mayReport (t : Teardown) (code : Option ℤ) : Prop :=
  match t.inc, t.leaderExit with
  | none, leaderExit => code = leaderExit.join
  | some _, some c => code = c ∨ code = none
  | some _, none => True

inductive Step : World → Event → World → Prop
  | client {w : World} {os : Os} {cmd : PmCommand} (hos : os.exits = w.exits)
      (hreply : cmd.reply = some w.requests) : Step w (.client os cmd) (w.receive os cmd)
  | deliver {w : World} {os : Os} {cmd : PmCommand} (hos : os.exits = w.exits)
      (hmem : cmd ∈ w.actor.inFlight) : Step w (.deliver os cmd) (w.deliver os cmd)
  | tick {w : World} {os : Os} (hos : os.exits = w.exits) : Step w (.tick os) (w.tick os)
  | exit {w : World} {inc : Incarnation} {code : Option ℤ}
      (hspawned : inc.serial < w.actor.pm.spawned) (hrunning : w.exits inc = none) :
      Step w (.exit inc code) (w.leaderExit inc code)
  | fileChanged {w : World} {handle : WatchHandle} (hmem : handle ∈ w.actor.watchers) :
      Step w (.fileChanged handle) (w.fileChanged handle)
  | teardownDone {w : World} {t : Teardown} {code : Option ℤ} (hmem : t ∈ w.actor.teardowns)
      (hcode : t.mayReport code) : Step w (.teardownDone t code) (w.finish t code)

/-- The daemon: its actor and everything around it. -/
def daemon : Machine World Event where
  init w := ∃ session, w = .new session
  step := Step

/-! ## Reachable states, one step at a time -/

namespace World

variable {w : World} {os : Os} {cmd : PmCommand}

theorem reachable_new (session : String) : daemon.Reachable (.new session) := .init ⟨session, rfl⟩

theorem reachable_receive (h : daemon.Reachable w) (hos : os.exits = w.exits)
    (hreply : cmd.reply = some w.requests) : daemon.Reachable (w.receive os cmd) :=
  h.step (M := daemon) (Step.client hos hreply)

theorem reachable_deliver (h : daemon.Reachable w) (hos : os.exits = w.exits)
    (hmem : cmd ∈ w.actor.inFlight) : daemon.Reachable (w.deliver os cmd) :=
  h.step (M := daemon) (Step.deliver hos hmem)

theorem reachable_finish (h : daemon.Reachable w) {t : Teardown} {code : Option ℤ}
    (hmem : t ∈ w.actor.teardowns) (hcode : t.mayReport code) :
    daemon.Reachable (w.finish t code) :=
  h.step (M := daemon) (Step.teardownDone hmem hcode)

end World

end AgentProcs
