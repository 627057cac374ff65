import AgentProcs.Daemon.Hosts
import AgentProcs.Supervision.Routes

/-!
# Supervision/Advertised — which advertised URLs lead back

    name ──processUrl──▸ http://name.localhost:pp ──urlHost, extractSubdomain──▸ name ──published──▸ port

The published map is right about every live record, under either regime.  So an advertised URL leads
back exactly if the proxy reads the name out of it again, and that is a condition on the characters of
the name alone.  A name that was accepted before the proxy was enabled need not meet it.
-/

namespace AgentProcs

/-! ## The published map and the live records -/

namespace Actor

variable {a a' : Actor}

/-- The published map has every current route; it may have some that are gone. -/
def Covers (a : Actor) : Prop :=
  ∀ n port, a.pm.runningPorts.lookup n = some port → a.published.lookup n = some port

theorem Fresh.covers (h : a.Fresh) : a.Covers := fun _ _ hroute => h ▸ hroute

theorem Covers.of_sameRoutes (h : a.Covers) (hsame : SameRoutes a a') : a'.Covers := by
  intro n port hroute
  rw [hsame.published]
  exact h n port (hsame.ports ▸ hroute)

/-- Looking at the leaders only loses routes. -/
theorem Covers.refresh (h : a.Covers) (os : Os) : (a.refresh os).Covers := by
  intro n port hroute
  refine h n port ?_
  have hlookup : (a.refresh os).pm.processes.lookup n =
      (a.pm.processes.lookup n).map (·.observeExit os) :=
    Table.lookup_map _ (ManagedProcess.observeExit_name os) _ _
  rw [ProcessManager.lookup_runningPorts, hlookup] at hroute
  rw [ProcessManager.lookup_runningPorts]
  cases hp : a.pm.processes.lookup n with
  | none => exact absurd hroute (by simp [hp])
  | some p =>
    rw [hp] at hroute
    rcases p.observeExit_cases os with hsame | ⟨inc, code, -, -, hafter⟩
    · exact hsame ▸ hroute
    · rw [Option.map_some, Option.bind_some, hafter] at hroute
      exact absurd hroute (by simp [ManagedProcess.route, Life.leaderAlive])

theorem Covers.scheduleRestarts (h : a.Covers) : a.scheduleRestarts.Covers :=
  (keptByVerdicts_of_sameRoutes (fun _ _ hsame h' => h'.of_sameRoutes hsame)
    fun _ _ => (fresh_publish _).covers).scheduleRestarts h

/-- Looking, and publishing if an exit was noticed. -/
theorem Covers.look (h : a.Covers) (os : Os) :
    (if (a.pm.refreshExitStates os).2 then (a.refresh os).publishProxyState
      else a.refresh os).Covers := by
  split
  · exact (fresh_publish _).covers
  · exact h.refresh os

end Actor

variable {w w' : World}

/-- **One step** keeps the live records covered: a record comes to life only where the map is
published. -/
theorem covers_step {e : Event} (hs : Sound w.books w.actor.holdings) (h : w.actor.Covers)
    (hstep : Step w e w') : w'.actor.Covers := by
  cases hstep with
  | exit | fileChanged | teardownDone => exact h
  | @tick os => exact (h.look os).scheduleRestarts
  | @client os cmd hos hreply =>
    cases cmd with
    | autoRestart | watchRestart | stopFinished => exact absurd hreply (by simp [PmCommand.reply])
    | stop => exact (h.refresh os).of_sameRoutes (Actor.handleStop_sameRoutes os _ _ w.actor)
    | restart =>
      have hsame := Actor.handleRestart_sameRoutes (a := w.actor) os
      split at hsame
      · exact h.of_sameRoutes (hsame _ _)
      · exact (h.refresh os).of_sameRoutes (hsame _ _)
    | spawn =>
      change (Actor.handleSpawn _ _ _ _ _ _ _ _ _ w.actor).Covers
      rw [Actor.handleSpawn]
      split
      · exact h
      · dsimp only
        split <;> exact (Actor.fresh_publish _).covers
    | stopAll =>
      change (Actor.handleStopAll _ _ w.actor).Covers
      rw [Actor.handleStopAll]
      split
      · exact h
      · exact (Actor.fresh_publish _).covers
    | status | statusSnapshot => exact h.look os
    | isProcessExited => exact (Actor.fresh_publish _).covers
    | enableProxy =>
      change (Actor.handleEnableProxy _ _ w.actor).Covers
      rw [Actor.handleEnableProxy]
      split
      · exact h
      · exact (Actor.fresh_publish _).covers
    | hasProcess | sessionName | subscribe => exact h
  | @deliver os cmd hos hmem =>
    obtain ⟨n, g, hstamp, -⟩ := hs.stamps.inFlight cmd hmem
    cases cmd with
    | autoRestart name generation =>
      have htaken : (w.take (.autoRestart name generation)).actor.Covers := h
      exact htaken.of_sameRoutes (Actor.handleAutoRestart_sameRoutes ..)
    | watchRestart name generation =>
      have htaken : (w.take (.watchRestart name generation)).actor.Covers := h
      exact htaken.of_sameRoutes (Actor.handleWatchRestart_sameRoutes ..)
    | stopFinished name generation code =>
      obtain ⟨p, hp, rfl, hstop⟩ :=
        (hs.deliver hmem).due (List.mem_cons_self (a := (name, generation)))
      exact (Actor.fresh_finishTeardown os code
        (a := (w.take (.stopFinished name p.generation code)).actor) hp hstop).covers
    | _ => exact absurd hstamp (by simp [PmCommand.stamp])

/-- **The published map is right about every live record.** -/
theorem covers_of_reachable (h : daemon.Reachable w) : w.actor.Covers := by
  refine h.invariant (P := fun w => w.actor.Covers) ?_ fun w e w' hw hc hstep =>
    covers_step (sound_of_reachable hw) hc hstep
  rintro w ⟨session, rfl⟩
  exact Actor.Fresh.covers rfl

/-! ## What status reports -/

/-- The record as a status response lists it: its URL is the proxy's, if there is one. -/
def ManagedProcess.listed (os : Os) (proxyPort : Option ℕ) (p : ManagedProcess) : ProcessInfo :=
  { p.info os with url := p.port.map fun port => processUrl p.name port proxyPort }

/-- What a status response says about the process called `name`. -/
def Response.infoOf (name : String) : Response → Option ProcessInfo
  | .status processes => processes.find? (·.name == name)
  | _ => none

theorem rewriteUrls_statusSnapshot (os : Os) (pm : ProcessManager) (proxyPort : Option ℕ) :
    ∃ infos, Actor.rewriteUrls proxyPort (pm.statusSnapshot os) = .status infos ∧
      ∀ i, i ∈ infos ↔ ∃ p ∈ pm.processes.values, p.listed os proxyPort = i := by
  have hmem (i : ProcessInfo) : i ∈ pm.buildProcessInfos os ↔
      ∃ p ∈ pm.processes.values, p.info os = i := by
    rw [ProcessManager.buildProcessInfos, List.mem_mergeSort, List.mem_map]
  cases proxyPort with
  | none => exact ⟨_, rfl, hmem⟩
  | some pp =>
    refine ⟨_, rfl, fun i => ?_⟩
    simp only [List.mem_map, hmem, exists_exists_and_eq_and]
    refine exists_congr fun p => and_congr_right fun _ => Eq.congr_left ?_
    rw [ManagedProcess.listed, ManagedProcess.info]
    cases p.port <;> rfl

/-- **Status lists every record**, with the proxy's URL if the proxy is on. -/
theorem infoOf_status (os : Os) {a : Actor} {n : String} {p : ManagedProcess}
    (hp : a.pm.processes.lookup n = some p) :
    (Actor.rewriteUrls a.proxyPort (a.pm.statusSnapshot os)).infoOf n =
      some (p.listed os a.proxyPort) := by
  obtain rfl := Table.key_eq hp
  obtain ⟨infos, heq, hmem⟩ := rewriteUrls_statusSnapshot os a.pm a.proxyPort
  rw [heq]
  change infos.find? (·.name == p.name) = _
  have hlisted := (hmem _).mpr ⟨p, Table.mem_values.mpr hp, rfl⟩
  -- names are unique, so whatever is found under this one is the record's
  cases hfind : infos.find? (·.name == p.name) with
  | none => exact absurd (beq_self_eq_true p.name) (List.find?_eq_none.mp hfind _ hlisted)
  | some i =>
    obtain ⟨q, hq, rfl⟩ := (hmem i).mp (List.mem_of_find?_eq_some hfind)
    have hqname : q.name = p.name := beq_iff_eq.mp (List.find?_some hfind :)
    have hq' := Table.mem_values.mp hq
    rw [hqname] at hq'
    rw [Option.some.inj (hp.symm.trans hq')]

/-- What `Status` answers about a record. -/
theorem status_answer (os : Os) (reply : Reply) {n : String} {p : ManagedProcess}
    (hp : w.record n = some p) :
    ∃ resp, (w.receive os (.status reply)).actor.answers =
      (reply, .response resp) :: w.actor.answers ∧
        resp.infoOf n = some ((p.observeExit os).listed os w.actor.proxyPort) := by
  have hlookup : (w.actor.refresh os).pm.processes.lookup n =
      (w.actor.pm.processes.lookup n).map (·.observeExit os) :=
    Table.lookup_map _ (ManagedProcess.observeExit_name os) _ _
  have hp' : (w.actor.refresh os).pm.processes.lookup n = some (p.observeExit os) :=
    hlookup.trans (congrArg (Option.map _) hp)
  refine ⟨_, ?_, infoOf_status os (a := w.actor.refresh os) hp'⟩
  change (w.actor.handleStatus os reply).answers = _
  rw [Actor.handleStatus]
  split
  · have hpublish (a : Actor) : a.publishProxyState.answers = a.answers ∧
        a.publishProxyState.proxyPort = a.proxyPort ∧ a.publishProxyState.pm = a.pm := by
      rw [Actor.publishProxyState]
      split <;> exact ⟨rfl, rfl, rfl⟩
    obtain ⟨hanswers, hsame, hpm⟩ := hpublish (w.actor.refresh os)
    rw [Actor.respond, Actor.answer, hanswers, hsame, hpm]
    rfl
  · rfl

/-! ## Advertised URLs -/

/-- A live record's port is published. -/
theorem published_of_alive {n : String} {p : ManagedProcess} {port : ℕ}
    (h : daemon.Reachable w) (hp : w.record n = some p) (halive : p.life.leaderAlive = true)
    (hport : p.port = some port) : w.actor.published.lookup n = some port := by
  refine covers_of_reachable h n port ?_
  have hlookup : w.actor.pm.processes.lookup n = some p := hp
  rw [ProcessManager.lookup_runningPorts, hlookup, Option.bind_some, ManagedProcess.route,
    if_pos halive, hport]

namespace Tenant

def api : PmCommand := .spawn "srv" (some "api") none none (some 3000) none none 0

/-- A name that is accepted because the proxy is off. -/
def dotted : PmCommand := .spawn "srv" (some "tenant.api") none none (some 3001) none none 1

/-- Two processes with ports, and then the proxy is enabled. -/
def enabled : World :=
  (((World.new "s").receive (.quiet 7) api).receive (.quiet 8) dotted).receive (.quiet 9)
    (.enableProxy 9090 2)

theorem reachable_enabled : daemon.Reachable enabled :=
  World.reachable_receive (World.reachable_receive (World.reachable_receive
    (World.reachable_new "s") rfl rfl) rfl rfl) rfl rfl

end Tenant

end AgentProcs
