import Mathlib.Data.Finmap
import Mathlib.Data.Int.Notation

/-!
# Protocol/Messages — what the daemon and its clients say to each other

The requests a client sends, the policies it attaches to a process, and the responses the daemon
sends back.  The wire encoding is not modelled here: a message is its value.
-/

namespace AgentProcs

/-- Typed error codes for `Response.error`. -/
inductive ErrorCode where
  | general
  | notFound
  deriving DecidableEq, Repr

/-- When a process should be automatically restarted. -/
inductive RestartMode where
  | always
  | onFailure
  | never
  deriving DecidableEq, Repr

/-- Whether this mode should trigger a restart given the exit code (`none`: killed by a signal). -/
def RestartMode.shouldRestart (mode : RestartMode) (exitCode : Option ℤ) : Bool :=
  match mode with
  | .never => false
  | .always => true
  | .onFailure => exitCode != some 0

/-- Restart behaviour for supervised processes. -/
structure RestartPolicy where
  mode : RestartMode
  maxRestarts : Option ℕ
  restartDelayMs : ℕ
  deriving DecidableEq, Repr

/-- File-watch configuration for auto-restart on changes. -/
structure WatchConfig where
  paths : List String
  ignore : Option (List String)
  deriving DecidableEq, Repr

/-- The canonical URL of a managed process: its subdomain on the proxy, or its own port. -/
def processUrl (name : String) (port : ℕ) (proxyPort : Option ℕ) : String :=
  match proxyPort with
  | some pp => s!"http://{name}.localhost:{pp}"
  | none => s!"http://127.0.0.1:{port}"

/-- A client-to-daemon request. -/
inductive Request where
  | run (command : String) (name cwd : Option String) (env : Option (List (String × String)))
      (port : Option ℕ) (restart : Option RestartPolicy) (watch : Option WatchConfig)
  | stop (target : String)
  | stopAll
  | restart (target : String)
  | status
  | logs (target : Option String) (tail : ℕ) (follow stderr all : Bool) (timeoutSecs : Option ℕ)
      (lines : Option ℕ)
  | wait (target : String) (untilPattern : Option String) (regex exit : Bool)
      (timeoutSecs : Option ℕ)
  | shutdown
  | enableProxy (proxyPort : Option ℕ)
  | hello (version : ℕ)
  | unknown
  deriving DecidableEq, Repr

inductive Stream where
  | stdout
  | stderr
  deriving DecidableEq, Repr

inductive ProcessState where
  | running
  | exited
  | failed
  | unknown
  deriving DecidableEq, Repr

structure ProcessInfo where
  name : String
  id : String
  pid : ℕ
  state : ProcessState
  exitCode : Option ℤ
  uptimeSecs : Option ℕ
  command : String
  port : Option ℕ
  url : Option String
  restartCount : Option ℕ
  maxRestarts : Option ℕ
  restartPolicy : Option String
  watched : Option Bool
  deriving DecidableEq, Repr

/-- A daemon-to-client response. -/
inductive Response where
  | ok (message : String)
  | runOk (name id : String) (pid : ℕ) (port : Option ℕ) (url : Option String)
  | status (processes : List ProcessInfo)
  | logLine (process : String) (stream : Stream) (line : String)
  | logEnd
  | waitMatch (line : String)
  | waitExited (exitCode : Option ℤ)
  | waitTimeout
  | error (code : ErrorCode) (message : String)
  | hello (version : ℕ)
  | unknown
  deriving DecidableEq, Repr

/-- A line of output from a child process, as subscribers receive it. -/
structure OutputLine where
  process : String
  stream : Stream
  line : String
  deriving DecidableEq, Repr

/-- Running process name ↦ backend port, as published to the proxy. -/
abbrev PortMap := Finmap fun _ : String => ℕ

end AgentProcs
