import AgentProcs.Daemon.Forwarding
import AgentProcs.Supervision.Advertised
import AgentProcs.Supervision.Launch

/-!
# Supervision/Forwarded — where the proxy sends a request

    published n ↦ port  ⇐  n is alive and has this port
                        ⇒  there is a record n, and this is its port

The map that the proxy looks into may have routes that are gone.  It never has a wrong one: a record
keeps its port as long as it is there, and when records are forgotten the map is published.
-/

namespace AgentProcs

namespace Actor

variable {a a' : Actor}

/-- A route that is published leads to the port of a record, alive or not. -/
def Backed (a : Actor) : Prop := ∀ n port, a.published.lookup n = some port →
  ∃ p, a.pm.processes.lookup n = some p ∧ p.port = some port

theorem Fresh.backed (h : a.Fresh) : a.Backed := by
  intro n port hroute
  rw [h, ProcessManager.lookup_runningPorts] at hroute
  obtain ⟨p, hp, hport⟩ := Option.bind_eq_some_iff.mp hroute
  rw [ManagedProcess.route] at hport
  split at hport
  · exact ⟨p, hp, hport⟩
  · exact absurd hport (by simp)

/-- The map is published, or is the one it was. -/
def Republishes (published : PortMap) (a : Actor) : Prop := a.published = published ∨ a.Fresh

theorem Republishes.of_sameRoutes {published : PortMap} (h : a.Republishes published)
    (hsame : SameRoutes a a') : a'.Republishes published :=
  h.imp hsame.published.trans hsame.fresh_iff.mpr

theorem republishes_publish (published : PortMap) (a : Actor) :
    a.publishProxyState.Republishes published := .inr (fresh_publish a)

theorem republishes_look (os : Os) (a : Actor) : (if (a.pm.refreshExitStates os).2
    then (a.refresh os).publishProxyState else a.refresh os).Republishes a.published := by
  split
  · exact republishes_publish ..
  · exact .inl rfl

theorem republishes_tick (os : Os) (a : Actor) : (a.tick os).Republishes a.published :=
  (keptByVerdicts_of_sameRoutes (fun _ _ hsame h => h.of_sameRoutes hsame)
    fun _ _ => republishes_publish ..).scheduleRestarts (republishes_look os a)

end Actor

variable {w w' : World} {n : String}

/-- **A step publishes the map, or leaves it**, and leaves it only if no record is forgotten. -/
theorem republishes_step {e : Event} (hs : Sound w.books w.actor.holdings) (hstep : Step w e w') :
    w'.actor.Fresh ∨ w'.actor.published = w.actor.published ∧ ¬ FinishesStopAll w e := by
  have hleft {e : Event} (hno : ¬ FinishesStopAll w e) {a : Actor}
      (h : a.Republishes w.actor.published) :
      a.Fresh ∨ a.published = w.actor.published ∧ ¬ FinishesStopAll w e :=
    h.symm.imp_right (⟨·, hno⟩)
  cases hstep with
  | exit | fileChanged | teardownDone => exact .inr ⟨rfl, id⟩
  | @tick os => exact hleft id (Actor.republishes_tick os w.actor)
  | @client os cmd hos hreply =>
    cases cmd with
    | autoRestart | watchRestart | stopFinished => exact absurd hreply (by simp [PmCommand.reply])
    | stop => exact .inr ⟨(Actor.handleStop_sameRoutes os _ _ w.actor).published, id⟩
    | restart =>
      have hsame := Actor.handleRestart_sameRoutes (a := w.actor) os
      split at hsame
      · exact .inr ⟨(hsame _ _).published, id⟩
      · exact .inr ⟨(hsame _ _).published, id⟩
    | spawn =>
      change (Actor.handleSpawn _ _ _ _ _ _ _ _ _ w.actor).Fresh ∨
        (Actor.handleSpawn _ _ _ _ _ _ _ _ _ w.actor).published = _ ∧ _
      rw [Actor.handleSpawn]
      split
      · exact .inr ⟨rfl, id⟩
      · dsimp only
        split <;> exact .inl (Actor.fresh_publish _)
    | stopAll =>
      change (Actor.handleStopAll _ _ w.actor).Fresh ∨
        (Actor.handleStopAll _ _ w.actor).published = _ ∧ _
      rw [Actor.handleStopAll]
      split
      · rename_i batch hbatch
        refine .inr ⟨rfl, fun hfin => ?_⟩
        obtain ⟨hnone, -⟩ := hfin
        exact absurd (hnone.symm.trans hbatch) (by simp)
      · exact .inl (Actor.fresh_publish _)
    | status | statusSnapshot => exact hleft id (Actor.republishes_look os w.actor)
    | isProcessExited => exact .inl (Actor.fresh_publish _)
    | enableProxy =>
      change (Actor.handleEnableProxy _ _ w.actor).Fresh ∨
        (Actor.handleEnableProxy _ _ w.actor).published = _ ∧ _
      rw [Actor.handleEnableProxy]
      split
      · exact .inr ⟨rfl, id⟩
      · exact .inl (Actor.fresh_publish _)
    | hasProcess | sessionName | subscribe => exact .inr ⟨rfl, id⟩
  | @deliver os cmd hos hmem =>
    obtain ⟨n, g, hstamp, -⟩ := hs.stamps.inFlight cmd hmem
    cases cmd with
    | autoRestart name generation =>
      exact .inr ⟨(Actor.handleAutoRestart_sameRoutes ..).published, id⟩
    | watchRestart name generation =>
      exact .inr ⟨(Actor.handleWatchRestart_sameRoutes ..).published, id⟩
    | stopFinished name generation code =>
      obtain ⟨p, hp, rfl, hstop⟩ :=
        (hs.deliver hmem).due (List.mem_cons_self (a := (name, generation)))
      exact .inl (Actor.fresh_finishTeardown os code
        (a := (w.take (.stopFinished name p.generation code)).actor) hp hstop)
    | _ => exact absurd hstamp (by simp [PmCommand.stamp])

/-- A record that is there before and after a step has kept its port. -/
theorem port_step {e : Event} {p q : ManagedProcess} (hs : Sound w.books w.actor.holdings)
    (hstep : Step w e w') (hp : w.record n = some p) (hq : w'.record n = some q) :
    q.port = p.port := by
  rcases setup_step hs hstep hq with ⟨p', hp', hsame⟩ | hcreated
  · obtain rfl := Option.some.inj (hp.symm.trans hp')
    exact hsame.port
  · -- a `Run` takes a name that is free
    obtain ⟨os, command, name, cwd, env, port, restart, watch, reply, r, -, hrun, hname, -⟩ :=
      hcreated.created
    exact absurd (hp.symm.trans (hname ▸ hrun.free)) (by simp)

theorem backed_step {e : Event} (hs : Sound w.books w.actor.holdings) (h : w.actor.Backed)
    (hstep : Step w e w') : w'.actor.Backed := by
  rcases republishes_step hs hstep with hfresh | ⟨hsame, hno⟩
  · exact hfresh.backed
  · intro n port hroute
    obtain ⟨p, hp, hport⟩ := h n port (hsame ▸ hroute)
    have hkept := (descended_step hs hstep).kept n (Option.isSome_of_eq_some hp)
    obtain ⟨q, hq⟩ := Option.isSome_iff_exists.mp (hkept.resolve_right hno)
    exact ⟨q, hq, (port_step hs hstep hp hq).trans hport⟩

/-- **Every route that is published** leads to the port of a record. -/
theorem backed_of_reachable (h : daemon.Reachable w) : w.actor.Backed := by
  refine h.invariant (P := fun w => w.actor.Backed) ?_ fun w e w' hw hb hstep =>
    backed_step (sound_of_reachable hw) hb hstep
  rintro w ⟨session, rfl⟩
  exact Actor.Fresh.backed rfl

/-! ## A request -/

/-- **The proxy forwards to whom the request is for**: whatever it forwards is for a record that the
`Host` names, and goes to the port of that, with nothing changed but the `Host`, unless it asks for
`*`; a request for a process that is alive and has a port is forwarded to it, if its URI is not too
long; and only with one that is does the proxy panic. -/
theorem proxy_routes (h : daemon.Reachable w) (req : HttpRequest) (snapshot : Response)
    (proxyPort : ℕ) :
    (∀ name port req', handleProxyRequest req w.actor.published snapshot proxyPort =
        .forwarded name port req' → extractSubdomain req.host = some name ∧
          (∃ p, w.record name = some p ∧ p.port = some port) ∧
            (req.target ≠ .asterisk → Relayed req req' port)) ∧
      (∀ name p port, extractSubdomain req.host = some name → w.record name = some p →
        p.life.leaderAlive = true → p.port = some port → req.Fits port → ∃ req',
          handleProxyRequest req w.actor.published snapshot proxyPort =
            .forwarded name port req') ∧
      (handleProxyRequest req w.actor.published snapshot proxyPort = .panicked →
        ∃ name port, extractSubdomain req.host = some name ∧
          w.actor.published.lookup name = some port ∧ ¬ req.Fits port) := by
  refine ⟨fun name port req' hforward => ?_, fun name p port hhost hp halive hport hfits => ?_,
    not_fits_of_panicked⟩
  · obtain ⟨hhost, hroute, hreq⟩ := handleProxyRequest_eq_forwarded_iff.mp hforward
    exact ⟨hhost, backed_of_reachable h _ port hroute, (relayed_of_forwardedTo · hreq)⟩
  · obtain ⟨req', hreq⟩ := exists_forwardedTo hfits
    have hroute := published_of_alive h hp halive hport
    exact ⟨req', handleProxyRequest_eq_forwarded_iff.mpr ⟨hhost, hroute, hreq⟩⟩

/-- A request for `api`, as a browser sends it. -/
def apiRequest : HttpRequest where
  method := "GET"
  target := .path ⟨"/v1?q=1", .inl (by decide), by decide⟩
  headers := [("host", utf8 "api.localhost:9090"), ("accept", utf8 "*/*")]
  body := []

theorem proxy_routes_api : ∃ req', handleProxyRequest apiRequest Tenant.enabled.actor.published
    (.ok "") 9090 = .forwarded "api" 3000 req' := by
  have hlive : (Tenant.enabled.record "api").map (fun p => (p.life.leaderAlive, p.port)) =
      some (true, some 3000) := by decide
  obtain ⟨p, hp, hlife⟩ := Option.map_eq_some_iff.mp hlive
  obtain ⟨halive, hport⟩ := Prod.mk.inj hlife
  have hhost : extractSubdomain apiRequest.host = some "api" := by decide
  exact (proxy_routes Tenant.reachable_enabled apiRequest (.ok "") 9090).2.1 "api" p 3000 hhost hp
    halive hport (by decide)

end AgentProcs
