import AgentProcs.Machinery.Notify
import AgentProcs.Machinery.Runs

/-!
# Daemon/Server — the accept loops and the connections that share one shutdown notification

    server loop ──accept──▸ connection ──EnableProxy──▸ proxy loop
         │ notified()            └──────Shutdown──────▸ notify_one()
         ▼                                 proxy loop │ notified()
       ended                                          ▼ ended

Each turn of a loop is a `select!` of `accept` and `notified`.  It polls `notified` at most once
before it waits; when `accept` completes instead, the waiter is dropped and the next turn makes a new
one.  The connections only matter here through their number and the requests they handle.
-/

namespace AgentProcs

def maxConcurrentConnections : ℕ := 64

/-- The two accept loops. -/
inductive Loop where
  | server
  | proxy
  deriving DecidableEq, Repr

/-- Where a loop stands: its turn has begun, it waits in the `select!`, or it has ended. -/
inductive LoopState where
  | turning
  | waiting
  | ended
  deriving DecidableEq, Repr

/-- A request, as far as the loops can feel it. -/
inductive LoopRequest where
  | shutdown
  /-- What binding the proxy's port gives, and whether the proxy can listen on it. -/
  | enableProxy (bound : Except String ℕ) (listens : Bool)
  | other

structure Server where
  shutdown : Notify Loop
  server : LoopState
  /-- The proxy loop, once it has been started. -/
  proxy : Option LoopState
  proxyPort : Option ℕ
  activeConnections : ℕ
  /-- How many `Shutdown` requests have been handled. -/
  shutdowns : ℕ
  deriving DecidableEq, Repr

namespace Server

def new : Server where
  shutdown := .new
  server := .turning
  proxy := none
  proxyPort := none
  activeConnections := 0
  shutdowns := 0

def loop : Loop → Server → Option LoopState
  | .server, s => some s.server
  | .proxy, s => s.proxy

def setLoop (l : Loop) (st : LoopState) (s : Server) : Server :=
  match l with
  | .server => { s with server := st }
  | .proxy => { s with proxy := some st }

/-- The loop polls `notified`: it takes the permit and ends, or waits. -/
def poll (l : Loop) (s : Server) : Server :=
  if s.shutdown.permit then { s with shutdown := s.shutdown.take }.setLoop l .ended
  else { s with shutdown := s.shutdown.join l }.setLoop l .waiting

/-- The loop has been notified, and ends. -/
def wake (l : Loop) (s : Server) : Server :=
  { s with shutdown := s.shutdown.run l }.setLoop l .ended

/-- Another branch of the `select!` completes: the waiter is dropped, the next turn begins. -/
def turn (l : Loop) (s : Server) : Server :=
  { s with shutdown := s.shutdown.leave l }.setLoop l .turning

/-- A new connection is served, unless there are too many. -/
def serve (l : Loop) (s : Server) : Server :=
  match l with
  | .server =>
    if s.activeConnections ≥ maxConcurrentConnections then s
    else { s with activeConnections := s.activeConnections + 1 }
  | .proxy => s

/-- A connection ends. -/
def disconnect (s : Server) : Server := { s with activeConnections := s.activeConnections - 1 }

/-- A connection handles a request; after a `Shutdown` it notifies the loops and returns. -/
def handleRequest (r : LoopRequest) (s : Server) : Server :=
  match r with
  | .shutdown =>
    { s with shutdown := s.shutdown.notifyOne, shutdowns := s.shutdowns + 1 }.disconnect
  | .enableProxy (.error _) _ => s
  | .enableProxy (.ok port) listens =>
    match s.proxyPort with
    | some _ => s
    | none =>
      { s with proxyPort := some port, proxy := if listens then some .turning else s.proxy }
  | .other => s

end Server

inductive ServerEvent where
  | poll (l : Loop)
  | wake (l : Loop)
  | accept (l : Loop)
  | acceptError (l : Loop)
  | request (r : LoopRequest)
  | disconnect

inductive ServerStep : Server → ServerEvent → Server → Prop
  | poll {s : Server} {l : Loop} (hturning : s.loop l = some .turning) :
      ServerStep s (.poll l) (s.poll l)
  | wake {s : Server} {l : Loop} (hwaiting : s.loop l = some .waiting)
      (hwoken : l ∈ s.shutdown.woken) : ServerStep s (.wake l) (s.wake l)
  | accept {s : Server} {l : Loop} {st : LoopState} (hloop : s.loop l = some st)
      (halive : st ≠ .ended) : ServerStep s (.accept l) ((s.turn l).serve l)
  | acceptError {s : Server} {l : Loop} {st : LoopState} (hloop : s.loop l = some st)
      (halive : st ≠ .ended) : ServerStep s (.acceptError l) (s.turn l)
  | request {s : Server} {r : LoopRequest} (hactive : 0 < s.activeConnections) :
      ServerStep s (.request r) (s.handleRequest r)
  | disconnect {s : Server} (hactive : 0 < s.activeConnections) :
      ServerStep s .disconnect s.disconnect

/-- The accept loops and everything that connects to them. -/
def acceptLoops : Machine Server ServerEvent where
  init s := s = .new
  step := ServerStep

end AgentProcs
