import AgentProcs.Config.Up
import AgentProcs.Supervision.EnableTwice
import AgentProcs.Supervision.Launch

/-!
# Supervision/Deployment — `up`, the daemon, and everybody else

    up      ──ask db──▸       ──▸ RunOk ──▸ ⋯ ──ask api──▸       ──▸ RunOk ──▸ exit 0
    daemon            create db                           create api
    others      stop-all         restart db     run tmp

`up` learns that a process runs only from the daemon's answer, and the daemon answers a `Run` with a
`RunOk` only where it created the record.  Everybody else may do what they like in between: what was
started may be stopped again before `up` is done.
-/

namespace AgentProcs

/-- The command that the actor is sent for a request, where it is sent one. -/
def Request.command (reply : Reply) : Request → Option PmCommand
  | run command name cwd env port restartPolicy watchConfig =>
    some (.spawn command name cwd env port restartPolicy watchConfig reply)
  | stop target => some (.stop target reply)
  | stopAll => some (.stopAll reply)
  | restart target => some (.restart target reply)
  | status => some (.status reply)
  | _ => none

structure Deployment where
  work : Work UpTask ClientResult ℤ
  world : World
  /-- The channel on which the `Run` of a process is answered, once the daemon has it. -/
  channels : String → Option Reply

inductive DeploymentEvent where
  | up (e : WorkEvent UpTask ClientResult)
  | serve (os : Os) (n : String)
  | daemon (e : Event)

namespace Deployment

/-- The daemon has said so: a response to a `Run` is the one it sent. -/
def Told (s : Deployment) : WorkEvent UpTask ClientResult → Prop
  | .answer (.start n) (.ok resp) => ∃ reply, s.channels n = some reply ∧
      (reply, .response resp) ∈ s.world.actor.answers
  | _ => True

/-- The daemon receives the `Run` of a process. -/
def serve (os : Os) (n : String) (cmd : PmCommand) (s : Deployment) : Deployment :=
  { s with
    world := s.world.receive os cmd
    channels := Function.update s.channels n (some s.world.requests) }

end Deployment

section Machine

variable (config : ConfigFile) (args : UpArgs) (groups : List (List String))

end Machine

/-- **The step created the record of the process**, as the config has it. -/
structure Creates (config : ConfigFile) (τ : Transition Deployment DeploymentEvent) (n : String) :
    Prop where
  created : ∃ os settings r, τ.ev = .serve os n ∧ config.settings n = some settings ∧
    RunTo os (some n) settings.port τ.src.world τ.dst.world r ∧ r.name = n ∧
    SetUpBy settings.cmd (settings.cwd.map (resolveCwd config.directory))
      (if settings.env = [] then none else some settings.env)
      (settings.autorestart.map fun mode =>
        .fromArgs mode settings.maxRestarts settings.restartDelay)
      (settings.watch.bind fun paths => WatchConfig.fromArgs paths (settings.watchIgnore.getD [])) r

/-! ## Answers are kept -/

section Answers

variable {w w' : World} {x : Reply × Answer}

end Answers

/-! ## The parts of a run -/

section Parts

variable {config : ConfigFile} {args : UpArgs} {groups : List (List String)}
  {orders : ℕ → IterationOrder} {s₀ s : Deployment} {ts us vs : Deploying} {n d : String}

namespace Lone

def webOnly : ConfigFile where
  directory := "."
  processes := [("web", { Shop.db with cmd := "npm start", ready := none })]
  nodup := by decide
  proxy := none
  proxyPort := none

theorem order : webOnly.project.startupOrder Shop.shopOrders = .ok [["web"]] := by
  have hgraph : webOnly.project.dependencyGraph = .ok ⟨[("web", 0)], fun _ => []⟩ := rfl
  have hweb : readyNames (Shop.shopOrders 0) [("web", 0)] = ["web"] := rfl
  have hend : startupLoop (fun _ => []) Shop.shopOrders 1 [] = .ok [] := by
    rw [startupLoop, dif_pos (by decide), if_pos rfl]
  rw [ProjectConfig.startupOrder, hgraph]
  change startupLoop _ Shop.shopOrders 0 _ = _
  have htake : takeLayer (fun _ => []) [("web", 0)]
    (readyNames (Shop.shopOrders 0) [("web", 0)]) = .ok [] := rfl
  rw [startupLoop_layer _ _ (by decide) htake, hend, hweb, List.mergeSort_singleton]
  rfl

end Lone

end Parts

end AgentProcs
