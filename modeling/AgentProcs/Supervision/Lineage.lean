import AgentProcs.Supervision.Answers
import AgentProcs.Supervision.LateRun
import AgentProcs.Supervision.WaitExit

/-!
# Supervision/Lineage — what a step comes to, for the records and for those who are told

    Run ──────▸ a new record r, and its RunOk
    report ───▸ r in the place of p, and a RunOk for those who wait     (or a refusal)
    the rest ─▸ records changed in small ways, and no RunOk

A launch decides the id of its record, and what its `RunOk` says.  A `Run` decides the port too;
a respawn keeps the port that the record had.
-/

namespace AgentProcs

/-- An answer other than a `RunOk`. -/
def Answer.NoLaunch (ans : Answer) : Prop :=
  ∀ name id pid port url, ans ≠ .response (.runOk name id pid port url)

theorem Answer.Plain.noLaunch {ans : Answer} (h : ans.Plain) : ans.NoLaunch := by
  rintro name id pid port url rfl
  exact h

theorem noLaunch_allStopped : Answer.NoLaunch (.response allStopped) :=
  fun _ _ _ _ _ h => Response.noConfusion (Answer.response.inj h)

theorem noLaunch_error (code : ErrorCode) (message : String) :
    Answer.NoLaunch (.response (.error code message)) := (plain_error code message).noLaunch

/-- The id that is counted out next. -/
def World.nextId (w : World) : String := w.actor.pm.nextId.1

/-- The table of `w'` is that of `w` but for the one record. -/
def World.Sets (w w' : World) (r : ManagedProcess) : Prop :=
  ∀ m, w'.record m = if m = r.name then some r else w.record m

/-! ## A Run that is carried out -/

/-- **A `Run` that gets its incarnation** is answered with the port it was given. -/
theorem ProcessManager.spawnProcess_of_spawns {os : Os} (command : String) {name : Option String}
    (cwd : Option String) (env : Option (List (String × String))) {port : Option ℕ}
    {pm : ProcessManager} (h : pm.Spawns os name port) :
    ∃ resolved pm₁ p pid, pm.nextId.2.resolvePort os port = .ok (resolved, pm₁) ∧
      (pm.spawnProcess os command name cwd env port).1.processes = pm.processes.insert p ∧
      (pm.spawnProcess os command name cwd env port).2 =
        .runOk p.name p.id pid resolved (resolved.map fun port => processUrl p.name port none) ∧
      p.name = name.getD s!"p{pm.idCounter}" ∧ p.id = s!"p{pm.idCounter}" ∧ p.port = resolved ∧
      p.life = .running ⟨pm.spawned, pid⟩ := by
  obtain ⟨⟨resolved, pm₁⟩, hok⟩ := h.resolved
  obtain ⟨pid, hpid⟩ := h.works
  obtain ⟨hprocs, -, hspawned, -⟩ := Actor.resolvePort_same hok
  have hstays : ¬ traverses (name.getD s!"p{pm.idCounter}") = true := fun htraverses =>
    absurd (h.stays.symm.trans htraverses) Bool.false_ne_true
  have hlabel : ¬ (pm.portAllocator.isProxyEnabled &&
      !isValidDnsLabel (name.getD s!"p{pm.idCounter}")) = true := by
    rw [Bool.and_eq_true, Bool.not_eq_true']
    exact fun hno => absurd ((h.label hno.1).symm.trans hno.2) (by simp)
  have hfree : ¬ (pm₁.processes.lookup (name.getD s!"p{pm.idCounter}")).isSome = true := by
    rw [hprocs]
    exact Option.not_isSome_iff_eq_none.mpr h.free
  refine ⟨resolved, pm₁, pm₁.freshProcess os command (name.getD s!"p{pm.idCounter}")
    s!"p{pm.idCounter}" cwd env resolved pid, pid, hok, ?_, ?_, rfl, rfl, rfl,
    congrArg (fun k => Life.running ⟨k, pid⟩) hspawned⟩
  · rw [spawnProcess]
    dsimp only [nextId] at hok ⊢
    rw [if_neg hstays, if_neg hlabel, hok]
    dsimp only
    rw [if_neg hfree, hpid]
    exact congrArg (Table.insert _) hprocs
  · rw [spawnProcess]
    dsimp only [nextId] at hok ⊢
    rw [if_neg hstays, if_neg hlabel, hok]
    dsimp only
    rw [if_neg hfree, hpid]
    rfl

namespace Actor

variable {a : Actor} {p q : ManagedProcess}

/-- **A `Run` that is carried out**, by its record and its answer. -/
theorem handleSpawn_of_launches {os : Os} {command : String} {name cwd : Option String}
    {env : Option (List (String × String))} {port : Option ℕ} {restart : Option RestartPolicy}
    {watch : Option WatchConfig} {reply : Reply} (hbatch : a.stopAll = none)
    (h : a.pm.Spawns os name port) :
    let a' := a.handleSpawn os command name cwd env port restart watch reply
    ∃ r pm₁ pid, a.pm.nextId.2.resolvePort os port = .ok (r.port, pm₁) ∧
      (∀ m, a'.pm.processes.lookup m = if m = r.name then some r else a.pm.processes.lookup m) ∧
      r.name = name.getD s!"p{a.pm.idCounter}" ∧ r.id = s!"p{a.pm.idCounter}" ∧
      r.life = .running ⟨a.pm.spawned, pid⟩ ∧
      Tells (· = .response (.runOk r.name r.id pid r.port
        (r.port.map fun port => processUrl r.name port a.proxyPort))) a a' := by
  obtain ⟨resolved, pm₁, p, pid, hok, hprocs, hresp, hname, hid, rfl, hlife⟩ :=
    ProcessManager.spawnProcess_of_spawns command cwd env h
  intro a'
  rcases Actor.handleSpawn_cases os command name cwd env port restart watch reply a with
    ⟨hsome, -⟩ | ⟨-, ⟨pm, code, message, heq, -⟩ |
      ⟨pm, p', id, pid', port', url, url', heq, hcreated, hurl, hspawn⟩⟩
  · rw [hbatch] at hsome
    exact absurd hsome Bool.false_ne_true
  · rw [heq] at hresp
    exact nomatch hresp
  rw [heq] at hprocs hresp
  obtain ⟨hsame, rfl, rfl, rfl, rfl⟩ := Response.runOk.inj hresp
  obtain rfl : p = p' := by
    have hp : pm.processes.lookup p.name = some p := by
      rw [hprocs, Table.lookup_insert, if_pos rfl]
    exact Option.some.inj (hp.symm.trans (hsame ▸ hcreated.lookup))
  obtain ⟨handle, config, hfitted⟩ := fitted_outfit os restart watch hcreated
  have htable : Speaks (fun _ => False) a { a with pm } := .of_eq rfl rfl rfl
  have houtfit := htable.trans (.outfit os p.name restart watch { a with pm })
  refine ⟨{ p with restartPolicy := restart, watchHandle := handle, watchConfig := config }, pm₁,
    pid', hok, fun m => ?_, hname, hid, hlife, ?_⟩
  · change (a.handleSpawn os command name cwd env port restart watch reply).pm.processes.lookup m = _
    rw [hspawn]
    change (publishProxyState (outfit ..)).pm.processes.lookup m = _
    rw [pm_publishProxyState]
    exact hfitted.lookup m
  · change Tells _ a (a.handleSpawn os command name cwd env port restart watch reply)
    rw [hspawn]
    have hpublished := houtfit.trans (.publish _)
    refine (hpublished.toTells.mono fun _ => False.elim).trans (.answer ?_ reply _)
    rw [hurl, houtfit.proxyPort]
    cases p.port <;> cases a.proxyPort <;> rfl

/-- A `Run` that is not carried out is answered with an error. -/
theorem handleSpawn_tells_of_not_launches {os : Os} {command : String} {name cwd : Option String}
    {env : Option (List (String × String))} {port : Option ℕ} {restart : Option RestartPolicy}
    {watch : Option WatchConfig} {reply : Reply}
    (h : ¬ (a.stopAll = none ∧ a.pm.Spawns os name port)) :
    Tells Answer.NoLaunch a (a.handleSpawn os command name cwd env port restart watch reply) := by
  rcases handleSpawn_refused command cwd env restart watch reply h with hspawn |
    ⟨pm, code, message, -, hspawn⟩
  · rw [hspawn]
    exact .answer (noLaunch_error _ _) reply a
  · have htable : Speaks Answer.NoLaunch a { a with pm } := .of_eq rfl rfl rfl
    rw [hspawn]
    exact ((htable.trans (.publish _)).trans (.answer (noLaunch_error _ _) reply _)).toTells

/-! ## A respawn -/

/-- How a respawn is answered: with the port the record has, and no proxy. -/
theorem respawn_reply {name : String} (os : Os) (reason : RespawnReason) (code : Option ℤ)
    (hp : a.pm.processes.lookup name = some p) : (a.respawn os name reason code).2 =
      match os.spawn with
      | .ok pid => .runOk name s!"p{a.pm.idCounter}" pid p.port
          (p.port.map fun port => processUrl name port none)
      | .error message => .error .general message := by
  rw [snd_respawn, ProcessManager.respawn, lookup_settleCount reason hp]
  cases os.spawn <;> rfl

/-- What those who wait are told launches nothing, or is the reply to the restart. -/
theorem told_speaks (name : String) (resp : Response) (ws : List Waiter) (a : Actor) :
    Speaks (fun ans => ans.NoLaunch ∨ ans = .response resp) a (a.told name resp ws) := by
  have hanswers := (foldl_answerWaiter_speaks name resp ws a).mono
    fun _ => Or.imp_left Answer.Plain.noLaunch
  refine hanswers.trans (Speaks.trans ?_ (.publish _))
  refine (leaveBatch_speaks name).mono fun _ h => .inl ?_
  exact h ▸ noLaunch_allStopped

/-- A report that ends in a park. -/
theorem finishTeardown_park_tells {leaderExit : Option (Option ℤ)} {ws : List Waiter} (os : Os)
    (code : Option ℤ) (hp : a.pm.processes.lookup p.name = some p)
    (hl : p.life = .stopping leaderExit .park ws) :
    Tells Answer.NoLaunch a (a.finishTeardown os p.name p.generation code) := by
  rw [finishTeardown_park os code hp hl]
  have hparked : Tells Answer.NoLaunch a
    { a with pm := a.pm.setLife p.name (.exited code .manual none false) } := .of_eq rfl rfl
  refine hparked.trans ((told_speaks ..).toTells.mono fun ans h => h.elim id fun h => ?_)
  exact h ▸ noLaunch_error .general "restart superseded by stop"

theorem handleEnableProxy_quiet (proxyPort : ℕ) (reply : Reply) (a : Actor) :
    ∀ x ∈ (a.handleEnableProxy proxyPort reply).answers, x ∈ a.answers ∨ x.2.NoLaunch := by
  have hanswer (existing : Option ℕ) : Answer.NoLaunch (.proxy existing) := nofun
  rw [handleEnableProxy]
  split
  · exact (Tells.answer (hanswer _) reply a).answers
  · have hspeaks : Speaks Answer.NoLaunch
        { a with proxyPort := some proxyPort, pm := a.pm.enableProxy } _ :=
      (Speaks.publish _).trans (.answer (hanswer none) reply _)
    exact hspeaks.answers

/-- **A report that ends in a respawn**, by its record and what those who wait are told. -/
theorem finishTeardown_lineage {leaderExit : Option (Option ℤ)} {reason : RespawnReason}
    {ws : List Waiter} (os : Os) (code : Option ℤ) (hp : a.pm.processes.lookup p.name = some p)
    (hl : p.life = .stopping leaderExit (.respawn reason) ws) (hbatch : a.stopAll = none) :
    let a' := a.finishTeardown os p.name p.generation code
    match os.spawn with
    | .ok pid => ∃ r, (∀ m, a'.pm.processes.lookup m =
          if m = r.name then some r else a.pm.processes.lookup m) ∧
        r.name = p.name ∧ r.id = s!"p{a.pm.idCounter}" ∧ r.port = p.port ∧
        r.life = .running ⟨a.pm.spawned, pid⟩ ∧
        Tells (fun ans => ans.NoLaunch ∨ ans = .response (.runOk r.name r.id pid r.port
          (r.port.map fun port => processUrl r.name port none))) a a'
    | .error _ => ∃ count code', (∀ m, a'.pm.processes.lookup m =
          if m = p.name then some (refusal count code' p) else a.pm.processes.lookup m) ∧
        Tells Answer.NoLaunch a a' := by
  intro a'
  let parked : Actor := { a with pm := a.pm.setLife p.name (.exited code .manual none false) }
  have hparked : parked.pm.processes.lookup p.name = some _ :=
    lookup_update hp (ManagedProcess.withLife (.exited code .manual none false)) fun _ => rfl
  have hreport : a' = told p.name (parked.respawn os p.name reason code).2 ws
      (parked.respawn os p.name reason code).1 := by
    change a.finishTeardown os p.name p.generation code = _
    rw [finishTeardown, ProcessManager.find_of_lookup hp]
    dsimp only
    rw [if_pos rfl, hl]
    rfl
  obtain ⟨hothers, -, -, hcases⟩ := finishTeardown_respawn_cases os code hp hl hbatch
  have hlookup {r : ManagedProcess} (hr : a'.pm.processes.lookup p.name = some r) (m : String) :
      a'.pm.processes.lookup m = if m = p.name then some r else a.pm.processes.lookup m := by
    split
    · rw [‹m = p.name›, hr]
    · exact hothers m ‹_›
  have htells : Tells (fun ans => ans.NoLaunch ∨
      ans = .response (parked.respawn os p.name reason code).2) a a' := by
    have htable : Speaks Answer.Plain a parked := .of_eq rfl rfl rfl
    have hrespawn := (htable.trans (respawn_speaks os p.name reason code parked)).mono
      fun _ => Answer.Plain.noLaunch
    rw [hreport]
    exact ((hrespawn.mono fun _ => .inl).trans (told_speaks ..)).toTells
  have hpm : a'.pm = (parked.respawn os p.name reason code).1.pm := by
    rw [hreport]
    exact pm_told_of_none _ _ _ ((stopAll_respawn ..).trans hbatch)
  have hreply := respawn_reply os reason code hparked
  obtain ⟨-, q, hq, -, hresp⟩ := respawn_spec os reason code hparked
  rw [← hpm] at hq
  rw [hreply] at htells hresp
  cases hspawn : os.spawn with
  | ok pid =>
    rw [hspawn] at htells hresp
    obtain ⟨hlife, -, url, hrun⟩ := hresp
    obtain ⟨hname, hid, -, hport, -⟩ := Response.runOk.inj hrun
    refine ⟨q, hname ▸ hlookup hq, hname.symm, hid.symm, hport.symm, hlife, ?_⟩
    rw [← hname, ← hid, ← hport]
    exact htells
  | error message =>
    rw [hspawn] at htells hcases
    obtain ⟨count, code', hrefused⟩ := hcases
    exact ⟨count, code', hlookup hrefused, htells.mono fun _ h => h.elim id fun h =>
      h ▸ noLaunch_error .general message⟩

end Actor

/-! ## One step -/

variable {w w' : World} {n : String} {e : Event}

/-- What a `Run` leads to: the record `r`, and what its client is told. -/
structure RunTo (os : Os) (name : Option String) (port : Option ℕ) (w w' : World)
    (r : ManagedProcess) : Prop where
  launches : w.actor.stopAll = none ∧ w.actor.pm.Spawns os name port
  sets : w.Sets w' r
  free : w.record r.name = none
  name : r.name = name.getD s!"p{w.actor.pm.idCounter}"
  id : r.id = s!"p{w.actor.pm.idCounter}"
  port : ∃ pm, w.actor.pm.nextId.2.resolvePort os port = .ok (r.port, pm)
  running : ∃ pid, r.life = .running ⟨w.actor.pm.spawned, pid⟩
  told : ∃ pid, Tells (· = .response (.runOk r.name r.id pid r.port
    (r.port.map fun port => processUrl r.name port w.actor.proxyPort))) w.actor w'.actor

/-- The record is to be respawned after its stop. -/
def ManagedProcess.AwaitsRespawn (p : ManagedProcess) : Prop :=
  ∃ leaderExit reason ws, p.life = .stopping leaderExit (.respawn reason) ws

/-- What the report of `p` leads to when its respawn works: the record `r`, and what those who wait
are told. -/
structure RespawnTo (os : Os) (w w' : World) (p r : ManagedProcess) : Prop where
  record : w.record p.name = some p
  awaits : p.AwaitsRespawn
  works : ∃ pid, os.spawn = .ok pid
  sets : w.Sets w' r
  name : r.name = p.name
  id : r.id = s!"p{w.actor.pm.idCounter}"
  port : r.port = p.port
  running : ∃ pid, r.life = .running ⟨w.actor.pm.spawned, pid⟩
  told : ∃ pid, Tells (fun ans => ans.NoLaunch ∨ ans = .response (.runOk r.name r.id pid r.port
    (r.port.map fun port => processUrl r.name port none))) w.actor w'.actor

/-- The event is a `Run`, or the report of a record that awaits its respawn. -/
def Event.Launches (w : World) : Event → Prop
  | .client _ (.spawn ..) => True
  | .deliver _ (.stopFinished name _ _) => ∃ p, w.record name = some p ∧ p.AwaitsRespawn
  | _ => False

/-- **What a step comes to.** -/
inductive Comes (w w' : World) : Event → Prop
  | changed {e : Event} (hno : ¬ e.Launches w)
      (h : Actor.Changes (FinishesStopAll w e) w.actor w'.actor)
      (hquiet : ∀ x ∈ w'.actor.answers, x ∈ w.actor.answers ∨ x.2.NoLaunch)
      (hproxy : e.EnablesProxy ∨ w'.actor.proxyPort = w.actor.proxyPort) : Comes w w' e
  | declined {os : Os} {command : String} {name cwd : Option String}
      {env : Option (List (String × String))} {port : Option ℕ} {restart : Option RestartPolicy}
      {watch : Option WatchConfig} {reply : Reply}
      (hno : ¬ (w.actor.stopAll = none ∧ w.actor.pm.Spawns os name port))
      (hsame : w'.actor.pm.processes = w.actor.pm.processes)
      (htells : Tells Answer.NoLaunch w.actor w'.actor) :
      Comes w w' (.client os (.spawn command name cwd env port restart watch reply))
  | run {os : Os} {command : String} {name cwd : Option String}
      {env : Option (List (String × String))} {port : Option ℕ} {restart : Option RestartPolicy}
      {watch : Option WatchConfig} {reply : Reply} {r : ManagedProcess}
      (h : RunTo os name port w w' r) :
      Comes w w' (.client os (.spawn command name cwd env port restart watch reply))
  | respawn {os : Os} {code : Option ℤ} {p r : ManagedProcess} (h : RespawnTo os w w' p r) :
      Comes w w' (.deliver os (.stopFinished p.name p.generation code))
  | refused {os : Os} {code : Option ℤ} {p : ManagedProcess} {count : ℕ} {code' : Option ℤ}
      {message : String} (hp : w.record p.name = some p) (hawaits : p.AwaitsRespawn)
      (hfails : os.spawn = .error message) (hsets : w.Sets w' (Actor.refusal count code' p))
      (htells : Tells Answer.NoLaunch w.actor w'.actor) :
      Comes w w' (.deliver os (.stopFinished p.name p.generation code))

theorem Actor.Changes.comes (h : Actor.Changes (FinishesStopAll w e) w.actor w'.actor)
    {ok : Answer → Prop} (htells : Tells ok w.actor w'.actor) (hok : ∀ ans, ok ans → ans.NoLaunch)
    (hno : ¬ e.Launches w) : Comes w w' e :=
  .changed hno h (fun x hx => (htells.answers x hx).imp_right (hok x.2)) (.inr htells.proxyPort)

/-- A `Run` is carried out, or declined. -/
theorem comes_run (os : Os) (command : String) (name cwd : Option String)
    (env : Option (List (String × String))) (port : Option ℕ) (restart : Option RestartPolicy)
    (watch : Option WatchConfig) (reply : Reply) :
    Comes w (w.receive os (.spawn command name cwd env port restart watch reply))
      (.client os (.spawn command name cwd env port restart watch reply)) := by
  by_cases hlaunches : w.actor.stopAll = none ∧ w.actor.pm.Spawns os name port
  · obtain ⟨r, pm₁, pid, hport, hsets, hname, hid, hlife, htells⟩ :=
      @Actor.handleSpawn_of_launches w.actor os command name cwd env port restart watch reply
        hlaunches.1 hlaunches.2
    exact .run ⟨hlaunches, hsets, hname ▸ hlaunches.2.free, hname, hid, ⟨pm₁, hport⟩, ⟨pid, hlife⟩,
      ⟨pid, htells⟩⟩
  · exact .declined hlaunches (Actor.handleSpawn_of_not_launches hlaunches).1
      (Actor.handleSpawn_tells_of_not_launches hlaunches)

/-- A report ends in a respawn that works, or is refused. -/
theorem comes_respawn {os : Os} {code : Option ℤ} {p : ManagedProcess}
    {leaderExit : Option (Option ℤ)} {reason : RespawnReason} {ws : List Waiter}
    (hs : Sound w.books w.actor.holdings) (hp : w.record p.name = some p)
    (hl : p.life = .stopping leaderExit (.respawn reason) ws) :
    Comes w (w.deliver os (.stopFinished p.name p.generation code))
      (.deliver os (.stopFinished p.name p.generation code)) := by
  have hbatch : w.actor.stopAll = none := hs.no_batch hp (hl ▸ Life.not_settled_respawn)
  have hawaits : p.AwaitsRespawn := ⟨leaderExit, reason, ws, hl⟩
  have hcases := Actor.finishTeardown_lineage
    (a := (w.take (.stopFinished p.name p.generation code)).actor) os code hp hl hbatch
  have htake : Tells Answer.NoLaunch w.actor
    (w.take (.stopFinished p.name p.generation code)).actor := .of_eq rfl rfl
  cases hspawn : os.spawn with
  | ok pid =>
    rw [hspawn] at hcases
    obtain ⟨r, hsets, hname, hid, hport, hlife, htells⟩ := hcases
    exact .respawn ⟨hp, hawaits, ⟨pid, hspawn⟩, hsets, hname, hid, hport, ⟨pid, hlife⟩,
      ⟨pid, (htake.mono fun _ => .inl).trans htells⟩⟩
  | error message =>
    rw [hspawn] at hcases
    obtain ⟨count, code', hsets, htells⟩ := hcases
    exact .refused hp hawaits hspawn hsets (htake.trans htells)

/-- **Every step of the daemon comes to one of these.** -/
theorem comes_step (hs : Sound w.books w.actor.holdings) (hstep : Step w e w') : Comes w w' e := by
  cases hstep with
  | exit | fileChanged | teardownDone =>
    refine Actor.Changes.comes (.of_pm rfl rfl) (Tells.of_eq rfl rfl) (fun _ => Answer.Plain.noLaunch) id
  | tick =>
    exact (Actor.tick_changes _ _).comes (Actor.tick_speaks _).toTells (fun _ => Answer.Plain.noLaunch) id
  | @client os cmd hos hreply =>
    cases cmd with
    | autoRestart | watchRestart | stopFinished => exact absurd hreply (by simp [PmCommand.reply])
    | stop =>
      exact (Actor.handleStop_changes ..).comes (Actor.handleStop_speaks ..).toTells
        (fun _ => Answer.Plain.noLaunch) id
    | restart =>
      exact (Actor.handleRestart_changes ..).comes (Actor.handleRestart_speaks ..).toTells
        (fun _ => Answer.Plain.noLaunch) id
    | spawn => exact comes_run ..
    | stopAll reply =>
      refine Actor.Changes.comes (Actor.handleStopAll_changes os reply w.actor
        fun hnone hempty => ⟨hnone, fun n p hp => ?_⟩) (Actor.handleStopAll_speaks ..).toTells ?_ id
      · exact Actor.idle_of_sweep os hnone hempty hp
      · rintro ans (hplain | rfl)
        · exact hplain.noLaunch
        · exact noLaunch_allStopped
    | status reply | statusSnapshot reply =>
      exact (Actor.handleStatus_changes ..).comes (Actor.handleStatus_speaks ..).toTells
        (fun _ => Answer.Plain.noLaunch) id
    | isProcessExited target reply =>
      exact ((Actor.refresh_changes os _).trans (Actor.publish_answer_changes ..)).comes
        (Actor.handleIsProcessExited_speaks ..).toTells (fun _ => Answer.Plain.noLaunch) id
    | enableProxy proxyPort reply =>
      exact .changed id (Actor.handleEnableProxy_changes ..)
        (Actor.handleEnableProxy_quiet proxyPort reply w.actor) (.inl trivial)
    | hasProcess | sessionName | subscribe =>
      exact Actor.Changes.comes (.of_pm rfl rfl) (.answer trivial _ _)
        (fun _ => Answer.Plain.noLaunch) id
  | @deliver os cmd hos hmem =>
    obtain ⟨n, g, hstamp, -⟩ := hs.stamps.inFlight cmd hmem
    have htake (gone : Prop) : Actor.Changes gone w.actor (w.take cmd).actor := .of_pm rfl rfl
    have hsame : Tells Answer.Plain w.actor (w.take cmd).actor := .of_eq rfl rfl
    cases cmd with
    | autoRestart =>
      exact ((htake _).trans (Actor.handleAutoRestart_changes ..)).comes
        (hsame.trans (Actor.handleAutoRestart_speaks ..).toTells) (fun _ => Answer.Plain.noLaunch) id
    | watchRestart =>
      exact ((htake _).trans (Actor.handleWatchRestart_changes ..)).comes
        (hsame.trans (Actor.handleWatchRestart_speaks ..).toTells) (fun _ => Answer.Plain.noLaunch) id
    | stopFinished name generation code =>
      obtain ⟨p, hp, rfl, rfl, hstop⟩ := due_of_inFlight hs hmem
      cases hl : p.life with
      | running | exited => exact absurd hstop (by simp [hl])
      | stopping leaderExit andThen ws =>
        cases andThen with
        | park =>
          have htells := Actor.finishTeardown_park_tells
            (a := (w.take (.stopFinished p.name p.generation code)).actor) os code hp hl
          refine Actor.Changes.comes ((htake _).trans
            (Actor.finishTeardown_park_changes os code hp hl ?_))
            ((hsame.mono fun _ => Answer.Plain.noLaunch).trans htells) (fun _ => id) ?_
          · refine fun B hB hempty => ⟨B, hB, ?_⟩
            rcases (Finset.erase_eq_empty_iff ..).mp hempty with h | h <;> simp [h]
          · rintro ⟨q, hq, _, _, _, hawaits⟩
            obtain rfl := Option.some.inj (hp.symm.trans hq)
            exact AfterStop.noConfusion (Life.stopping.inj (hl.symm.trans hawaits)).2.1
        | respawn reason => exact comes_respawn hs hp hl
    | _ => exact absurd hstamp (by simp [PmCommand.stamp])

/-- **Only an `EnableProxy` sets the proxy port.** -/
theorem proxyPort_step (hs : Sound w.books w.actor.holdings) (hstep : Step w e w')
    (hno : ¬ e.EnablesProxy) : w'.actor.proxyPort = w.actor.proxyPort := by
  cases comes_step hs hstep with
  | changed _ _ _ hproxy => exact hproxy.resolve_left hno
  | declined _ _ htells => exact htells.proxyPort
  | refused _ _ _ _ htells => exact htells.proxyPort
  | run h =>
    obtain ⟨_, htells⟩ := h.told
    exact htells.proxyPort
  | respawn h =>
    obtain ⟨_, htells⟩ := h.told
    exact htells.proxyPort

end AgentProcs
