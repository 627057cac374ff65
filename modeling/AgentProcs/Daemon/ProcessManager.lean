import AgentProcs.Daemon.Life
import AgentProcs.Daemon.PortAllocator
import AgentProcs.Machinery.Ledger

/-!
# Daemon/ProcessManager — the table of managed processes

One record a name.  What the operating system answers while a command is handled (which leaders
have exited, whether a spawn works, …) is the argument `Os`; everything else is computed here as
`process_manager.rs` computes it.  Counters are unbounded.

Two fields are not in the code: `spawned` numbers the incarnations, and `dropped` collects those
that went out of scope without a teardown, because the life holding them was overwritten or its
record removed.
-/

namespace AgentProcs

/-- The operating system's answers while one command or tick is handled. -/
structure Os where
  /-- The leaders that have exited, with their exit codes. -/
  exits : Incarnation → Option (Option ℤ)
  /-- The leaders a `waitid` fails on just now. -/
  waitidFails : Incarnation → Bool
  /-- A spawn: the leader's pid, or why it failed. -/
  spawn : Except String ℕ
  /-- The creation of a file watcher. -/
  watch : Except String Unit
  bind : ℕ → Bool
  /-- The clock, in seconds. -/
  now : ℕ

/-- Reports the leader's exit without reaping it. -/
def Os.peekExit (os : Os) (i : Incarnation) : Option (Option ℤ) :=
  if os.waitidFails i then none else os.exits i

/-- A DNS label: 1-63 lowercase alphanumeric or hyphen characters, no hyphen at either end. -/
def isValidDnsLabel (name : String) : Bool :=
  if name.isEmpty || name.utf8ByteSize > 63 then false
  else if name.toList.head? == some '-' || name.toList.getLast? == some '-' then false
  else name.toList.all fun c => c.isLower || c.isDigit || c == '-'

/-- A name that could leave the log directory. -/
def traverses (name : String) : Bool :=
  name.toList.contains '/' || name.toList.contains '\\' || decide (['.', '.'] <:+: name.toList) ||
    name.toList.contains '\x00'

structure ProcessManager where
  processes : Table ManagedProcess.name
  idCounter : ℕ
  nextGeneration : ℕ
  session : String
  portAllocator : PortAllocator
  spawned : ℕ
  dropped : List Incarnation

/-- The exit of this record's leader, if there is one to see. -/
def ManagedProcess.exitSeen (os : Os) (p : ManagedProcess) : Option (Option ℤ) :=
  match p.life with
  | .running inc => os.peekExit inc
  | _ => none

/-- What one pass of `refresh_exit_states` makes of a record. -/
def ManagedProcess.observeExit (os : Os) (p : ManagedProcess) : ManagedProcess :=
  match p.exitSeen os with
  | some code => { p with life := .exited code .natural p.life.inc false }
  | none => p

@[simp] theorem ManagedProcess.observeExit_name (os : Os) (p : ManagedProcess) :
    (p.observeExit os).name = p.name := by
  rw [observeExit]
  split <;> rfl

@[simp] theorem ManagedProcess.observeExit_id (os : Os) (p : ManagedProcess) :
    (p.observeExit os).id = p.id := by
  rw [observeExit]
  split <;> rfl

@[simp] theorem ManagedProcess.observeExit_port (os : Os) (p : ManagedProcess) :
    (p.observeExit os).port = p.port := by
  rw [observeExit]
  split <;> rfl

/-- A natural exit the policy restarts, with no timer set for it yet. -/
def ManagedProcess.restartDue (p : ManagedProcess) : Bool :=
  match p.life, p.restartPolicy with
  | .exited code .natural _ false, some policy => policy.mode.shouldRestart code
  | _, _ => false

/-- The policy's crash budget is used up. -/
def ManagedProcess.budgetSpent (p : ManagedProcess) : Bool :=
  match p.restartPolicy.bind (·.maxRestarts) with
  | some max => decide (p.restartCount ≥ max)
  | none => false

/-- What a status response says about a record. -/
def ManagedProcess.info (os : Os) (p : ManagedProcess) : ProcessInfo :=
  let running := p.life.leaderAlive
  let (state, exitCode) : ProcessState × Option ℤ :=
    if running then (.running, none)
    else match p.life with
      | .exited code .exhausted _ _ => (.failed, code)
      | .exited code .spawnFailed _ _ => (.failed, code)
      | .exited code _ _ _ => (.exited, code)
      | .stopping (some code) _ _ => (.exited, code)
      | .running _ => (.running, none)
      | .stopping none _ _ => (.running, none)
  { name := p.name
    id := p.id
    pid := p.pid
    state
    exitCode
    uptimeSecs := if running then some (os.now - p.startedAt) else none
    command := p.command
    port := p.port
    url := p.port.map fun port => processUrl p.name port none
    restartCount := if p.restartCount > 0 then some p.restartCount else none
    maxRestarts := p.restartPolicy.bind (·.maxRestarts)
    restartPolicy := p.restartPolicy.map fun rp => match rp.mode with
      | .always => "always"
      | .onFailure => "on-failure"
      | .never => "never"
    watched := if p.watchConfig.isSome then some true else none }

namespace ProcessManager

def new (session : String) : ProcessManager where
  processes := .empty
  idCounter := 1
  nextGeneration := 0
  session := session
  portAllocator := .new
  spawned := 0
  dropped := []

/-! ## Looking up -/

/-- A record by name, else by id. -/
def find (target : String) (pm : ProcessManager) : Option ManagedProcess :=
  (pm.processes.lookup target).or (pm.processes.values.find? fun p => p.id == target)

def hasProcess (target : String) (pm : ProcessManager) : Bool := (pm.find target).isSome

def names (pm : ProcessManager) : List String := pm.processes.keys

/-- Running process name ↦ port, for the records whose leader is alive. -/
def runningPorts (pm : ProcessManager) : PortMap :=
  (pm.processes.values.filterMap fun p =>
    if p.life.leaderAlive then p.port.map fun port => (⟨p.name, port⟩ : Σ _ : String, ℕ)
    else none).toFinmap

def buildProcessInfos (os : Os) (pm : ProcessManager) : List ProcessInfo :=
  (pm.processes.values.map (·.info os)).mergeSort fun a b => decide (a.name ≤ b.name)

def statusSnapshot (os : Os) (pm : ProcessManager) : Response := .status (pm.buildProcessInfos os)

/-- The names due a restart, and the names whose budget is exhausted. -/
def classifyRestartCandidates (pm : ProcessManager) : List String × List String :=
  let due := pm.processes.values.filter (·.restartDue)
  ((due.filter fun p => !p.budgetSpent).map (·.name),
    (due.filter fun p => p.budgetSpent).map (·.name))

/-! ## Changing records -/

/-- Change the record called `name`, as the code does through `find_mut`; no change renames. -/
def update (name : String) (f : ManagedProcess → ManagedProcess) (pm : ProcessManager)
    (hf : ∀ p, (f p).name = p.name := by exact fun _ => rfl) : ProcessManager :=
  { pm with processes := pm.processes.update name f hf }

/-- Give the record called `name` a new life. -/
def setLife (name : String) (life : Life) (pm : ProcessManager) : ProcessManager :=
  pm.update name fun p => { p with life }

/-- Look at every running leader; the flag says whether one was seen to have exited. -/
def refreshExitStates (os : Os) (pm : ProcessManager) : ProcessManager × Bool :=
  ({ pm with processes := pm.processes.map (·.observeExit os) (ManagedProcess.observeExit_name os) },
    pm.processes.values.any fun p => (p.exitSeen os).isSome)

/-- `none`: no such record, or still running. -/
def isProcessExited (os : Os) (target : String) (pm : ProcessManager) :
    ProcessManager × Option (Option ℤ) :=
  let pm := (pm.refreshExitStates os).1
  (pm, (pm.find target).bind fun p => match p.life with
    | .running _ => none
    | .stopping none _ _ => none
    | .exited code _ _ _ => some code
    | .stopping (some code) _ _ => some code)

/-- Mark a process as failed (max restarts exhausted). -/
def markFailed (target : String) (pm : ProcessManager) : ProcessManager :=
  match pm.find target with
  | some p =>
    match p.life with
    | .exited code _ inc timer => pm.setLife p.name (.exited code .exhausted inc timer)
    | _ => pm
  | none => pm

/-- Forget every record; an incarnation a record still holds is dropped with it. -/
def clear (pm : ProcessManager) : ProcessManager :=
  { pm with
    processes := .empty
    dropped := pm.processes.values.filterMap (·.life.inc) ++ pm.dropped }

/-- The next id, and the counter after it. -/
def nextId (pm : ProcessManager) : String × ProcessManager :=
  (s!"p{pm.idCounter}", { pm with idCounter := pm.idCounter + 1 })

/-- Resolve the port of a new process: the explicit one, one of the range when the proxy is on, or
none. -/
def resolvePort (os : Os) (port : Option ℕ) (pm : ProcessManager) :
    Except String (Option ℕ × ProcessManager) :=
  match port with
  | some p => .ok (some p, pm)
  | none =>
    if pm.portAllocator.isProxyEnabled then
      let assigned := (pm.processes.values.filter (·.life.holdsPort)).filterMap (·.port)
      match pm.portAllocator.autoAssignPort os.bind assigned with
      | .ok (p, alloc) => .ok (some p, { pm with portAllocator := alloc })
      | .error e => .error e
    else .ok (none, pm)

/-- The record of a fresh process. -/
def freshProcess (os : Os) (command name id : String) (cwd : Option String)
    (env : Option (List (String × String))) (port : Option ℕ) (pid : ℕ) (pm : ProcessManager) :
    ManagedProcess where
  name := name
  id := id
  command := command
  cwd := cwd
  env := env.getD []
  pid := pid
  startedAt := os.now
  port := port
  restartPolicy := none
  watchConfig := none
  restartCount := 0
  generation := pm.nextGeneration + 1
  life := .running ⟨pm.spawned, pid⟩
  watchHandle := none

def spawnProcess (os : Os) (command : String) (name : Option String) (cwd : Option String)
    (env : Option (List (String × String))) (port : Option ℕ) (pm : ProcessManager) :
    ProcessManager × Response :=
  let (id, pm) := pm.nextId
  let name := name.getD id
  if traverses name then
    (pm, .error .general s!"invalid process name: {name}")
  else if pm.portAllocator.isProxyEnabled && !isValidDnsLabel name then
    (pm, .error .general (s!"invalid process name for proxy: '{name}' " ++
      "(must be lowercase alphanumeric/hyphens, max 63 chars)"))
  else match pm.resolvePort os port with
    | .error e => (pm, .error .general e)
    | .ok (resolved, pm) =>
      if (pm.processes.lookup name).isSome then
        (pm, .error .general s!"process already exists: {name}")
      else match os.spawn with
        | .error message => (pm, .error .general message)
        | .ok pid =>
          ({ pm with
              processes := pm.processes.insert
                (pm.freshProcess os command name id cwd env resolved pid)
              nextGeneration := pm.nextGeneration + 1
              spawned := pm.spawned + 1 },
            .runOk name id pid resolved (resolved.map fun p => processUrl name p none))

/-- Spawn a fresh incarnation into an existing record.  The assignment drops the life that was
there.  `rotate` only concerns the previous incarnation's log files. -/
def respawn (os : Os) (name : String) (_rotate : Bool) (pm : ProcessManager) :
    ProcessManager × Response :=
  match pm.processes.lookup name with
  | none => (pm, .error .notFound s!"process not found: {name}")
  | some old =>
    let generation := pm.nextGeneration + 1
    let (id, pm) := pm.nextId
    let pm := { pm with
      nextGeneration := generation
      dropped := old.life.inc.toList ++ pm.dropped }
    match os.spawn with
    | .ok pid =>
      ({ pm.update name fun p =>
            { p with id, pid, startedAt := os.now, generation, life := .running ⟨pm.spawned, pid⟩ }
          with spawned := pm.spawned + 1 },
        .runOk name id pid old.port (old.port.map fun port => processUrl name port none))
    | .error message =>
      let code := match old.life with
        | .exited code _ _ _ => code
        | _ => none
      (pm.update name fun p => { p with pid := 0, life := .exited code .spawnFailed none false },
        .error .general message)

def enableProxy (pm : ProcessManager) : ProcessManager :=
  { pm with portAllocator := pm.portAllocator.enableProxy }

end ProcessManager

end AgentProcs
