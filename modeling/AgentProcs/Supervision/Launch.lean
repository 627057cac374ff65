import AgentProcs.Supervision.Lineage

/-!
# Supervision/Launch — what a process is run with, from its Run on

    Run web "npm start" in ./app   ──▸ record web ──exit, respawn──▸ record web ──▸ ⋯
    sh -c "npm start", ./app, PORT     sh -c "npm start", ./app, PORT

A record is the one that some `Run` created, and its command, directory, environment, port and
restart policy are those of that `Run`, however often it has been respawned since.  Only its watch
config may be cleared, where a watcher could not be set up.
-/

namespace AgentProcs

/-- A command that is about to be spawned. -/
structure ShellCommand where
  program : String
  args : List String
  currentDir : Option String
  /-- Added to the daemon's own environment. -/
  envs : List (String × String)
  deriving DecidableEq, Repr

/-- The environment of a process: `PORT` and `HOST` if it has a port, unless they are given. -/
def mergedEnv (env : List (String × String)) (port : Option ℕ) : List (String × String) :=
  match port with
  | some port =>
    env ++ [("PORT", toString port), ("HOST", "127.0.0.1")].filter fun e => e.1 ∉ env.map (·.1)
  | none => env

/-- The command of an incarnation. -/
def spawnIncarnation (command : String) (cwd : Option String) (env : List (String × String))
    (port : Option ℕ) : ShellCommand where
  program := "sh"
  args := ["-c", command]
  currentDir := cwd
  envs := mergedEnv env port

/-- What a respawn of the record runs. -/
def ManagedProcess.shellCommand (p : ManagedProcess) : ShellCommand :=
  spawnIncarnation p.command p.cwd p.env p.port

/-- **The same settings**: what the record was created with. -/
structure SameSetup (p q : ManagedProcess) : Prop where
  name : q.name = p.name
  command : q.command = p.command
  cwd : q.cwd = p.cwd
  env : q.env = p.env
  port : q.port = p.port
  restartPolicy : q.restartPolicy = p.restartPolicy
  watchConfig : q.watchConfig = p.watchConfig ∨ q.watchConfig = none

namespace SameSetup

variable {p q r : ManagedProcess}

@[refl] theorem refl (p : ManagedProcess) : SameSetup p p :=
  ⟨rfl, rfl, rfl, rfl, rfl, rfl, .inl rfl⟩

theorem trans (h : SameSetup p q) (h' : SameSetup q r) : SameSetup p r where
  name := h'.name.trans h.name
  command := h'.command.trans h.command
  cwd := h'.cwd.trans h.cwd
  env := h'.env.trans h.env
  port := h'.port.trans h.port
  restartPolicy := h'.restartPolicy.trans h.restartPolicy
  watchConfig := by
    rcases h'.watchConfig with hsame | hnone
    · rw [hsame]
      exact h.watchConfig
    · exact .inr hnone

theorem shellCommand (h : SameSetup p q) : q.shellCommand = p.shellCommand := by
  rw [ManagedProcess.shellCommand, ManagedProcess.shellCommand, h.command, h.cwd, h.env, h.port]

end SameSetup

theorem RecordChange.sameSetup {p q : ManagedProcess} (h : RecordChange p q) : SameSetup p q := by
  cases h with
  | observe os p =>
    rw [ManagedProcess.observeExit]
    split <;> exact ⟨rfl, rfl, rfl, rfl, rfl, rfl, .inl rfl⟩
  | recount | begin | join | park | mark | unwatch => exact ⟨rfl, rfl, rfl, rfl, rfl, rfl, .inl rfl⟩

theorem Changed.sameSetup {p q : ManagedProcess} (h : Changed p q) : SameSetup p q := by
  induction h with
  | refl => rfl
  | tail _ hchange ih => exact ih.trans hchange.sameSetup

namespace Actor

/-- **Every record left was there**, with the same settings. -/
def KeepsSetup (a a' : Actor) : Prop :=
  ∀ n q, a'.pm.processes.lookup n = some q →
    ∃ p, a.pm.processes.lookup n = some p ∧ SameSetup p q

namespace KeepsSetup

variable {a a' a'' : Actor} {p : ManagedProcess} {name : String}

theorem of_pm (h : a'.pm.processes = a.pm.processes) : KeepsSetup a a' :=
  fun _ q hq => ⟨q, h ▸ hq, .refl q⟩

theorem trans (h : KeepsSetup a a') (h' : KeepsSetup a' a'') : KeepsSetup a a'' := by
  intro n r hr
  obtain ⟨q, hq, hqr⟩ := h' n r hr
  obtain ⟨p, hp, hpq⟩ := h n q hq
  exact ⟨p, hp, hpq.trans hqr⟩

theorem update (f : ManagedProcess → ManagedProcess) (hsame : ∀ p, SameSetup p (f p))
    (hpm : a'.pm.processes = a.pm.processes.update name f fun p => (hsame p).name) :
    KeepsSetup a a' := by
  intro n q hq
  rw [hpm, Table.lookup_update] at hq
  split at hq
  · obtain ⟨p, hp, rfl⟩ := Option.map_eq_some_iff.mp hq
    exact ⟨p, hp, hsame p⟩
  · exact ⟨q, hq, .refl q⟩

end KeepsSetup

variable {a : Actor} {p : ManagedProcess}

theorem setupWatcher_keepsSetup (os : Os) (name : String) (a : Actor) :
    KeepsSetup a (a.setupWatcher os name).1 := by
  rw [setupWatcher]
  split
  · exact .of_pm rfl
  split
  · exact .of_pm rfl
  · cases os.watch with
    | ok =>
      exact .update (fun p => { p with watchHandle := some _ })
        (fun _ => ⟨rfl, rfl, rfl, rfl, rfl, rfl, .inl rfl⟩) rfl
    | error =>
      exact .update (fun p => { p with watchConfig := none })
        (fun _ => ⟨rfl, rfl, rfl, rfl, rfl, rfl, .inr rfl⟩) rfl

theorem respawn_keepsSetup (os : Os) (name : String) (reason : RespawnReason) (code : Option ℤ)
    (a : Actor) : KeepsSetup a (a.respawn os name reason code).1 := by
  have hcount : KeepsSetup a (a.settleCount name reason) :=
    .update (fun p => { p with restartCount := reason.settle p.restartCount })
      (fun _ => ⟨rfl, rfl, rfl, rfl, rfl, rfl, .inl rfl⟩) rfl
  rcases h : (a.settleCount name reason).pm.respawn os name (reason != .manual) with ⟨pm, resp⟩
  refine respawn_rule (P := KeepsSetup a) code h (fun broadcasts => hcount.trans ?_)
    (fun a' msg _ hkept => hkept.trans (.of_pm (congrArg _ (pm_annotate name msg a'))))
    fun a' _ hkept => hkept.trans (setupWatcher_keepsSetup os name _)
  rw [ProcessManager.respawn] at h
  split at h
  · obtain ⟨rfl, -⟩ := Prod.mk.inj h
    exact .of_pm rfl
  dsimp only at h
  split at h
  · obtain ⟨rfl, -⟩ := Prod.mk.inj h
    exact .update (fun p => { p with
      id := _, pid := _, startedAt := _, generation := _, life := .running _ })
      (fun _ => ⟨rfl, rfl, rfl, rfl, rfl, rfl, .inl rfl⟩) rfl
  · obtain ⟨rfl, -⟩ := Prod.mk.inj h
    exact .update (fun p => { p with pid := 0, life := _ })
      (fun _ => ⟨rfl, rfl, rfl, rfl, rfl, rfl, .inl rfl⟩) rfl

theorem told_keepsSetup (name : String) (resp : Response) (ws : List Waiter) (a : Actor) :
    KeepsSetup a (a.told name resp ws) := by
  rcases pm_told name resp ws a with hsame | hclear
  · exact .of_pm (congrArg _ hsame)
  · intro n q hq
    rw [hclear] at hq
    exact absurd hq (by simp [ProcessManager.clear])

/-- **A report** keeps the settings of every record, also of the one it respawns. -/
theorem finishTeardown_keepsSetup (os : Os) (name : String) (generation : ℕ) (code : Option ℤ)
    (a : Actor) : KeepsSetup a (a.finishTeardown os name generation code) := by
  rw [finishTeardown]
  split
  · exact .of_pm rfl
  rename_i p _
  have hparked : KeepsSetup a
      { a with pm := a.pm.setLife p.name (.exited code .manual none false) } :=
    .update (fun p => { p with life := .exited code .manual none false })
      (fun _ => ⟨rfl, rfl, rfl, rfl, rfl, rfl, .inl rfl⟩) rfl
  split
  · dsimp only
    split
    · rename_i andThen ws _
      cases andThen with
      | park => exact hparked.trans (told_keepsSetup name _ ws _)
      | respawn reason =>
        have hrespawned := hparked.trans (respawn_keepsSetup os name reason code _)
        exact hrespawned.trans (told_keepsSetup name _ ws _)
    · exact hparked
  · exact .of_pm rfl

end Actor

/-! ## A Run -/

/-- **The record has the settings of this `Run`**; its watch config may have been cleared. -/
structure SetUpBy (command : String) (cwd : Option String) (env : Option (List (String × String)))
    (restart : Option RestartPolicy) (watch : Option WatchConfig) (q : ManagedProcess) : Prop where
  command : q.command = command
  cwd : q.cwd = cwd
  env : q.env = env.getD []
  restartPolicy : q.restartPolicy = restart
  watchConfig : q.watchConfig = watch ∨ q.watchConfig = none

section Run

variable {os : Os} {command : String} {name cwd : Option String}
  {env : Option (List (String × String))} {port : Option ℕ} {restart : Option RestartPolicy}
  {watch : Option WatchConfig} {reply : Reply} {p q : ManagedProcess}

theorem SetUpBy.same (h : SetUpBy command cwd env restart watch p) (hsame : SameSetup p q) :
    SetUpBy command cwd env restart watch q where
  command := hsame.command.trans h.command
  cwd := hsame.cwd.trans h.cwd
  env := hsame.env.trans h.env
  restartPolicy := hsame.restartPolicy.trans h.restartPolicy
  watchConfig := by
    rcases hsame.watchConfig with heq | hnone
    · rw [heq]
      exact h.watchConfig
    · exact .inr hnone

/-- The record that a spawn adds has what the spawn was given. -/
theorem spawnProcess_record {pm pm' : ProcessManager} {n id : String} {pid : ℕ} {port' : Option ℕ}
    {url : Option String}
    (h : pm.spawnProcess os command name cwd env port = (pm', .runOk n id pid port' url)) :
    ∃ r, pm'.processes.lookup n = some r ∧ r.command = command ∧ r.cwd = cwd ∧
      r.env = env.getD [] := by
  rw [ProcessManager.spawnProcess] at h
  dsimp only [ProcessManager.nextId] at h
  split at h
  · cases (Prod.mk.inj h).2
  split at h
  · cases (Prod.mk.inj h).2
  split at h
  · cases (Prod.mk.inj h).2
  split at h
  · cases (Prod.mk.inj h).2
  split at h
  · cases (Prod.mk.inj h).2
  · obtain ⟨rfl, hresp⟩ := Prod.mk.inj h
    obtain ⟨rfl, -⟩ := Response.runOk.inj hresp
    exact ⟨_, (Table.lookup_insert ..).trans (if_pos rfl), rfl, rfl, rfl⟩

theorem outfit_keepsSetup (n : String) (a : Actor) : Actor.KeepsSetup
    (a.update n fun p => { p with restartPolicy := restart, watchConfig := watch })
    (a.outfit os n restart watch) :=
  Actor.outfit_rule (P := Actor.KeepsSetup _) (fun _ => .of_pm rfl)
    (fun _ => Actor.setupWatcher_keepsSetup os n _)
    fun a' msg _ hkept => hkept.trans (.of_pm (congrArg _ (Actor.pm_annotate n msg a')))

/-- **A `Run`** leaves the records that were there, and gives its own what it was asked to. -/
theorem handleSpawn_setup {a : Actor} {n : String}
    (hq : (a.handleSpawn os command name cwd env port restart watch reply).pm.processes.lookup n =
      some q) :
    a.pm.processes.lookup n = some q ∨ SetUpBy command cwd env restart watch q := by
  rcases Actor.handleSpawn_cases os command name cwd env port restart watch reply a with
    ⟨-, hspawn⟩ | ⟨-, ⟨pm, code, message, herror, hspawn⟩ |
      ⟨pm, p, id, pid, port', url, url', heq, hcreated, -, hspawn⟩⟩
  · rw [hspawn] at hq
    exact .inl hq
  · have hprocs := (Actor.spawnProcess_of_error herror).2.1
    have htable := Actor.pm_publishProxyState { a with pm }
    rw [hspawn] at hq
    change (Actor.publishProxyState { a with pm }).pm.processes.lookup n = some q at hq
    rw [htable] at hq
    exact .inl (hprocs ▸ hq)
  · obtain ⟨r, hr, hcommand, hcwd, henv⟩ := spawnProcess_record heq
    rw [hspawn] at hq
    change (Actor.publishProxyState _).pm.processes.lookup n = some q at hq
    rw [Actor.pm_publishProxyState] at hq
    by_cases hn : n = p.name
    · obtain ⟨p', hp', hsame⟩ := outfit_keepsSetup p.name { a with pm } n q hq
      have hattached := Actor.lookup_update (a := { a with pm }) hr
        (fun p => { p with restartPolicy := restart, watchConfig := watch }) fun _ => rfl
      obtain rfl := Option.some.inj (hattached.symm.trans (hn ▸ hp'))
      have hset : SetUpBy command cwd env restart watch
          { r with restartPolicy := restart, watchConfig := watch } :=
        ⟨hcommand, hcwd, henv, rfl, .inl rfl⟩
      exact .inr (hset.same hsame)
    · obtain ⟨_, _, hfitted⟩ := Actor.fitted_outfit os restart watch hcreated
      rw [hfitted.lookup, if_neg hn] at hq
      exact .inl hq

end Run

/-! ## Every run -/

variable {w w' : World} {n : String} {q : ManagedProcess}

/-- **The record is the one this step created**: a client's `Run`, which chose its name and port. -/
structure CreatedIn (σ : Transition World Event) (n : String) (q : ManagedProcess) : Prop where
  created : ∃ os command name cwd env port restart watch reply r,
    σ.ev = .client os (.spawn command name cwd env port restart watch reply) ∧
    RunTo os name port σ.src σ.dst r ∧ r.name = n ∧ q.name = n ∧ q.port = r.port ∧
    SetUpBy command cwd env restart watch q ∧
    q.shellCommand = spawnIncarnation command cwd (env.getD []) r.port

theorem CreatedIn.same {σ : Transition World Event} {p : ManagedProcess} (h : CreatedIn σ n p)
    (hsame : SameSetup p q) : CreatedIn σ n q := by
  obtain ⟨os, command, name, cwd, env, port, restart, watch, reply, r, hev, hrun, hname, hpname,
    hport, hset, hshell⟩ := h.created
  exact ⟨os, command, name, cwd, env, port, restart, watch, reply, r, hev, hrun, hname,
    hsame.name.trans hpname, hsame.port.trans hport, hset.same hsame,
    hsame.shellCommand.trans hshell⟩

theorem report_sameSetup {os : Os} {name : String} {generation : ℕ} {code : Option ℤ}
    (hq : (w.deliver os (.stopFinished name generation code)).record n = some q) :
    ∃ p, w.record n = some p ∧ SameSetup p q :=
  Actor.finishTeardown_keepsSetup os name generation code
    (w.take (.stopFinished name generation code)).actor n q hq

/-- **One step**: a record was there, with the same settings, or the step created it. -/
theorem setup_step {e : Event} (hs : Sound w.books w.actor.holdings) (hstep : Step w e w')
    (hq : w'.record n = some q) :
    (∃ p, w.record n = some p ∧ SameSetup p q) ∨ CreatedIn ⟨w, e, w'⟩ n q := by
  cases comes_step hs hstep with
  | changed _ hchanges =>
    obtain ⟨p, hp, hchanged⟩ := hchanges.records n q hq
    exact .inl ⟨p, hp, hchanged.sameSetup⟩
  | declined _ hsame =>
    exact .inl ⟨q, (congrArg (Table.lookup n) hsame).symm.trans hq, .refl q⟩
  | respawn | refused =>
    cases hstep with
    | deliver => exact .inl (report_sameSetup hq)
  | @run os command name cwd env port restart watch reply r hrun =>
    have hset : w.record n = some q ∨ SetUpBy command cwd env restart watch q := by
      cases hstep with
      | client => exact handleSpawn_setup hq
    rcases hset with hold | hset
    · exact .inl ⟨q, hold, .refl q⟩
    have hsets := (hrun.sets n).symm.trans hq
    split at hsets
    · rename_i hn
      obtain rfl := Option.some.inj hsets
      refine .inr ⟨os, command, name, cwd, env, port, restart, watch, reply, r, rfl, hrun, hn.symm,
        hn.symm, rfl, hset, ?_⟩
      rw [ManagedProcess.shellCommand, hset.command, hset.cwd, hset.env]
    · exact .inl ⟨q, hsets, .refl q⟩

/-- **Every record of a run** was created by one of its steps, a client's `Run`, has not been
forgotten since, and has the settings of that `Run`: a respawn runs what the `Run` ran. -/
theorem created_of_run {session : String} {ts : List (Transition World Event)}
    (hrun : daemon.Run (.new session) ts w) (hq : w.record n = some q) :
    ∃ us σ vs, ts = us ++ σ :: vs ∧ CreatedIn σ n q ∧
      ∀ ψ ∈ vs, (ψ.dst.record n).isSome = true := by
  refine hrun.invariant (P := fun ts w => ∀ q, w.record n = some q → ∃ us σ vs,
    ts = us ++ σ :: vs ∧ CreatedIn σ n q ∧ ∀ ψ ∈ vs, (ψ.dst.record n).isSome = true)
    (World.reachable_new session) (fun q hq => ?_) (fun ts w e w' hw ih hstep q hq => ?_) q hq
  · exact absurd hq (by simp [World.record, World.new, Actor.new, ProcessManager.new])
  · rcases setup_step (sound_of_reachable hw) hstep hq with ⟨p, hp, hsame⟩ | hcreated
    · obtain ⟨us, σ, vs, rfl, hcreated, hkept⟩ := ih p hp
      refine ⟨us, σ, vs ++ [⟨w, e, w'⟩], by simp, hcreated.same hsame, ?_⟩
      refine List.forall_mem_append.mpr ⟨hkept, List.forall_mem_singleton.mpr ?_⟩
      exact Option.isSome_iff_exists.mpr ⟨q, hq⟩
    · exact ⟨ts, _, [], rfl, hcreated, by simp⟩

namespace Relaunched

def spawned : World := (World.new "shop").receive (.quiet 41)
  (.spawn "npm start" (some "web") (some "app") none (some 3000) none none 0)

def stopping : World := spawned.receive (.quiet 41) (.restart "web" 1)

def vacated : World := stopping.finish ⟨"web", 1, some ⟨0, 41⟩, none⟩ (some 0)

def respawned : World := vacated.deliver (.quiet 42) (.stopFinished "web" 1 (some 0))

end Relaunched

/-- The record of a web server that has been restarted. -/
def webServer : ManagedProcess where
  name := "web"
  id := "p2"
  command := "npm start"
  cwd := some "app"
  env := []
  pid := 42
  startedAt := 0
  port := some 3000
  restartPolicy := none
  watchConfig := none
  restartCount := 0
  generation := 2
  life := .running ⟨1, 42⟩
  watchHandle := none

/-- A web server that has been restarted was created by its `Run`. -/
theorem webServer_created : ∃ σ : Transition World Event, CreatedIn σ "web" webServer := by
  have hrun : Step (.new "shop") (.client (.quiet 41) _) Relaunched.spawned := .client rfl rfl
  have hrestart : Step Relaunched.spawned (.client (.quiet 41) (.restart "web" 1))
      Relaunched.stopping := .client rfl rfl
  have hvacate : Step Relaunched.stopping (.teardownDone ⟨"web", 1, some ⟨0, 41⟩, none⟩ (some 0))
      Relaunched.vacated := .teardownDone (List.mem_singleton_self _) trivial
  have hrespawn : Step Relaunched.vacated (.deliver (.quiet 42) (.stopFinished "web" 1 (some 0)))
      Relaunched.respawned := .deliver rfl (List.mem_singleton_self _)
  have hruns := Machine.Run.refl.snoc (M := daemon) hrun
  obtain ⟨_, σ, _, -, hcreated, -⟩ := created_of_run (n := "web") (q := webServer)
    (((hruns.snoc hrestart).snoc hvacate).snoc hrespawn) rfl
  exact ⟨σ, hcreated⟩

end AgentProcs
