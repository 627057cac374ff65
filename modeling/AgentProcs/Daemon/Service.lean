import AgentProcs.Daemon.Server
import AgentProcs.Daemon.World

/-!
# Daemon/Service — a shutdown on its way from a connection through the actor to the server loop

    connection ──StopAll──▸ actor ──answer──▸ connection ──notify_one()──▸ server loop ──▸ ended

The actor and the accept loops run side by side, and a `Shutdown` ties them together: its connection
waits for the answer of a stop-all, and only then notifies.  Everyone else's requests reach the actor
as before, also between the answer and the notification, and between that and the loop's end; what
comes over the proxy is not counted among the connections, so a command needs no free one.
-/

namespace AgentProcs

structure Service where
  world : World
  server : Server
  /-- Where connections wait for the stop-all of their `Shutdown`. -/
  shuttingDown : List Reply

inductive ServiceEvent where
  | world (e : Event)
  | loops (e : ServerEvent)
  | shutdown (os : Os)
  | notify (r : Reply)

/-- A connection that is not waiting for a stop-all. -/
def Service.hasFree (s : Service) : Prop := s.shuttingDown.length < s.server.activeConnections

/-- The event is a connection's. -/
def ServerEvent.connects : ServerEvent → Prop
  | request _ => True
  | disconnect => True
  | _ => False

inductive ServiceStep : Service → ServiceEvent → Service → Prop
  | world {s : Service} {e : Event} {w : World} (h : Step s.world e w) :
      ServiceStep s (.world e) { s with world := w }
  | loops {s : Service} {e : ServerEvent} {server : Server} (h : ServerStep s.server e server)
      (hother : e ≠ .request .shutdown) (hfree : e.connects → s.hasFree) :
      ServiceStep s (.loops e) { s with server }
  | shutdown {s : Service} {os : Os} (hos : os.exits = s.world.exits) (hfree : s.hasFree) :
      ServiceStep s (.shutdown os) { s with
        world := s.world.receive os (.stopAll s.world.requests)
        shuttingDown := s.world.requests :: s.shuttingDown }
  | notify {s : Service} {r : Reply} (hmem : r ∈ s.shuttingDown)
      (hanswered : (r, .response allStopped) ∈ s.world.actor.answers) :
      ServiceStep s (.notify r) { s with
        server := s.server.handleRequest .shutdown
        shuttingDown := s.shuttingDown.erase r }

/-- The daemon with its accept loops. -/
def service : Machine Service ServiceEvent where
  init s := ∃ session, s = ⟨.new session, .new, []⟩
  step := ServiceStep

end AgentProcs
