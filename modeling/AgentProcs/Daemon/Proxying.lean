import AgentProcs.Daemon.World

/-!
# Daemon/Proxying — an `EnableProxy` on its way from a connection to the actor and back

    EnableProxy ──bind──▸ bound ──actor──▸ asked ──▸ Ok, and the proxy listens
                  └─────▸ Error              └─────▸ Ok, and the listener is dropped

A connection binds a port first and asks the actor second; between the two, and before it reads the
actor's reply, everyone else moves.  What a bind gives is up to the operating system, but a port on
which the daemon itself holds a listener cannot be bound again.  Port 0 stands for whichever port
the operating system picks.
-/

namespace AgentProcs

def proxyPortMin : ℕ := 9090

def proxyPortMax : ℕ := 9190

/-- The ports tried when none is given. -/
def proxyPorts : List ℕ := List.range' proxyPortMin (proxyPortMax + 1 - proxyPortMin)

/-- Bind an available port for the proxy listener. -/
def bindProxyPort (bind : ℕ → Except String Unit) (explicit : Option ℕ) : Except String ℕ :=
  match explicit with
  | some port =>
    match bind port with
    | .ok () => .ok port
    | .error source => .error s!"requested proxy port {port} is not available: {source}"
  | none =>
    match proxyPorts.find? fun port => (bind port).isOk with
    | some port => .ok port
    | none => .error s!"no free proxy port available in range {proxyPortMin}-{proxyPortMax}"

/-- Where a request stands; a port it has bound is its own until it is answered. -/
inductive Enabling where
  | bound (port : ℕ)
  | asked (port : ℕ) (existing : Option ℕ)
  | answered (resp : Response)

def Enabling.port : Enabling → Option ℕ
  | .bound port => some port
  | .asked port _ => some port
  | .answered _ => none

structure Proxying where
  world : World
  /-- The `EnableProxy` requests received, each under a number of its own. -/
  requests : ℕ → Option Enabling
  /-- What the proxy listens on while it does. -/
  listener : Option ℕ

namespace Proxying

def new (session : String) : Proxying where
  world := .new session
  requests := fun _ => none
  listener := none

def setRequest (k : ℕ) (st : Enabling) (s : Proxying) : Proxying :=
  { s with requests := Function.update s.requests k (some st) }

/-- The daemon has a listener on the port. -/
def Holds (s : Proxying) (port : ℕ) : Prop :=
  s.listener = some port ∨ ∃ k, (s.requests k).bind (·.port) = some port

/-- A connection receives a request, and binds a port. -/
def receive (k : ℕ) (bind : ℕ → Except String Unit) (proxyPort : Option ℕ) (s : Proxying) :
    Proxying :=
  match bindProxyPort bind proxyPort with
  | .ok port => s.setRequest k (.bound port)
  | .error e => s.setRequest k (.answered (.error .general e))

/-- The actor handles what the connection sends it, and replies. -/
def ask (k port : ℕ) (existing : Option ℕ) (os : Os) (s : Proxying) : Proxying :=
  { s with world := s.world.receive os (.enableProxy port s.world.requests) }.setRequest k
    (.asked port existing)

/-- The connection has the actor's reply. -/
def finish (k port : ℕ) (existing : Option ℕ) (s : Proxying) : Proxying :=
  match existing with
  | some existing => s.setRequest k
      (.answered (.ok s!"Proxy already listening on http://localhost:{existing}"))
  | none => { s with listener := some port }.setRequest k
      (.answered (.ok s!"Proxy listening on http://localhost:{port}"))

end Proxying

inductive ProxyingEvent where
  | daemon (e : Event)
  | receive (k : ℕ) (bind : ℕ → Except String Unit) (proxyPort : Option ℕ)
  | ask (k : ℕ) (os : Os)
  | finish (k : ℕ)
  | listenerEnds

inductive ProxyingStep : Proxying → ProxyingEvent → Proxying → Prop
  | daemon {s : Proxying} {e : Event} {w : World} (h : Step s.world e w)
      (hother : ¬ e.EnablesProxy) : ProxyingStep s (.daemon e) { s with world := w }
  | receive {s : Proxying} {k : ℕ} {bind : ℕ → Except String Unit} {proxyPort : Option ℕ}
      (hnew : s.requests k = none) (hheld : ∀ port ≠ 0, s.Holds port → (bind port).isOk = false) :
      ProxyingStep s (.receive k bind proxyPort) (s.receive k bind proxyPort)
  | ask {s : Proxying} {k port : ℕ} {existing : Option ℕ} {os : Os}
      (hbound : s.requests k = some (.bound port)) (hos : os.exits = s.world.exits)
      (hreply : (s.world.requests, .proxy existing) ∈
        (s.world.receive os (.enableProxy port s.world.requests)).actor.answers) :
      ProxyingStep s (.ask k os) (s.ask k port existing os)
  | finish {s : Proxying} {k port : ℕ} {existing : Option ℕ}
      (hasked : s.requests k = some (.asked port existing)) :
      ProxyingStep s (.finish k) (s.finish k port existing)
  | listenerEnds {s : Proxying} : ProxyingStep s .listenerEnds { s with listener := none }

/-- The daemon and the connections that turn its proxy on. -/
def proxying : Machine Proxying ProxyingEvent where
  init s := ∃ session, s = .new session
  step := ProxyingStep

end AgentProcs
