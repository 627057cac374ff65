import AgentProcs.Supervision.Refinement

/-!
# Supervision/Routes — the published port map, and the two requests that let it go stale

    exit seen by    tick, Status, WaitExit, StopAll  ──▸ published
                    Stop, Restart                    ──▸ not published

Publishing makes the map current, and nothing but an exit changes the map without publishing.  An
exit that `Stop` or `Restart` is the first to see is not published, and the tick does not see it
again.
-/

namespace AgentProcs

theorem Life.leaderAlive_stopping (leaderExit : Option (Option ℤ)) (andThen : AfterStop)
    (ws : List Waiter) : (stopping leaderExit andThen ws).leaderAlive = leaderExit.isNone := by
  cases leaderExit <;> rfl

/-- The port a record is reached at, while its leader is alive. -/
def ManagedProcess.route (p : ManagedProcess) : Option ℕ :=
  if p.life.leaderAlive then p.port else none

namespace ProcessManager

theorem lookup_runningPorts (pm : ProcessManager) (n : String) :
    pm.runningPorts.lookup n = (pm.processes.lookup n).bind (·.route) := by
  rw [← Table.dlookup_view, ← Finmap.dlookup_list_toFinmap, runningPorts]
  congr 3
  funext p
  rw [ManagedProcess.route]
  split <;> rfl

/-- The port maps of two tables agree exactly if the routes of every name do. -/
theorem runningPorts_eq_iff {pm pm' : ProcessManager} : pm.runningPorts = pm'.runningPorts ↔
    ∀ n, (pm.processes.lookup n).bind (·.route) = (pm'.processes.lookup n).bind (·.route) := by
  constructor
  · intro h n
    rw [← lookup_runningPorts, ← lookup_runningPorts, h]
  · intro h
    refine Finmap.ext_lookup fun n => ?_
    rw [lookup_runningPorts, lookup_runningPorts, h]

/-- A change that the route of the record does not feel. -/
theorem runningPorts_update {pm : ProcessManager} {name : String}
    (f : ManagedProcess → ManagedProcess) (hf : ∀ p, (f p).name = p.name)
    (h : ∀ p, pm.processes.lookup name = some p → (f p).route = p.route) :
    (pm.update name f hf).runningPorts = pm.runningPorts := by
  refine runningPorts_eq_iff.mpr fun n => ?_
  change ((pm.processes.update name f hf).lookup n).bind _ = _
  rw [Table.lookup_update]
  split
  · subst n
    cases hp : pm.processes.lookup name with
    | none => rfl
    | some p => exact h p hp
  · rfl

end ProcessManager

/-! ## Fresh and stale -/

namespace Actor

variable {a a' a'' : Actor}

/-- The port map last published is the current one. -/
def Fresh (a : Actor) : Prop := a.published = a.pm.runningPorts

/-- **Publishing makes the map current.** -/
theorem fresh_publish (a : Actor) : a.publishProxyState.Fresh := by
  rw [publishProxyState]
  split
  · assumption
  · rfl

/-- Neither the current map nor the published one has changed. -/
structure SameRoutes (a a' : Actor) : Prop where
  published : a'.published = a.published
  ports : a'.pm.runningPorts = a.pm.runningPorts

namespace SameRoutes

theorem refl (a : Actor) : SameRoutes a a := ⟨rfl, rfl⟩

theorem trans (h : SameRoutes a a') (h' : SameRoutes a' a'') : SameRoutes a a'' :=
  ⟨h'.published.trans h.published, h'.ports.trans h.ports⟩

theorem fresh_iff (h : SameRoutes a a') : a'.Fresh ↔ a.Fresh := by
  rw [Fresh, Fresh, h.published, h.ports]

/-- A record gets a life whose leader is alive exactly if that of the old one was. -/
theorem setLife {p : ManagedProcess} {name : String} {life : Life}
    (hp : a.pm.processes.lookup name = some p) (halive : life.leaderAlive = p.life.leaderAlive) :
    SameRoutes a { a with pm := a.pm.setLife name life } := by
  refine ⟨rfl, ProcessManager.runningPorts_update _ _ fun q hq => ?_⟩
  obtain rfl := Option.some.inj (hp.symm.trans hq)
  rw [ManagedProcess.route, ManagedProcess.route]
  dsimp only
  rw [halive]

theorem annotate (name msg : String) (a : Actor) : SameRoutes a (a.annotate name msg) := by
  rw [Actor.annotate]
  split <;> exact ⟨rfl, rfl⟩

/-- A change of a record that its life and its port do not feel. -/
theorem update (name : String) (f : ManagedProcess → ManagedProcess)
    (hf : ∀ p, (f p).name = p.name) (hlife : ∀ p, (f p).life = p.life)
    (hport : ∀ p, (f p).port = p.port) (a : Actor) : SameRoutes a (a.update name f hf) := by
  refine ⟨rfl, ProcessManager.runningPorts_update f hf fun p _ => ?_⟩
  rw [ManagedProcess.route, ManagedProcess.route, hlife, hport]

/-- **Beginning a teardown** leaves the route of its record: a running leader keeps it, and one
that has exited has lost it already. -/
theorem startTeardown (name : String) (andThen : AfterStop) (waiter : Option Waiter) (a : Actor) :
    SameRoutes a (a.startTeardown name andThen waiter) := by
  rw [Actor.startTeardown]
  split
  · exact refl a
  · rename_i p hfind
    have hp := ProcessManager.lookup_of_find hfind
    have hupdate (f : ManagedProcess → ManagedProcess) (hf : ∀ p, (f p).name = p.name)
        (hroute : (f p).route = p.route) :
        (a.pm.update p.name f hf).runningPorts = a.pm.runningPorts := by
      refine ProcessManager.runningPorts_update _ _ fun q hq => ?_
      obtain rfl := Option.some.inj (hp.symm.trans hq)
      exact hroute
    dsimp only
    split
    · rename_i hl
      exact ⟨rfl, hupdate _ _ (by simp [ManagedProcess.route, hl, Life.leaderAlive])⟩
    · rename_i hl
      exact ⟨rfl, hupdate _ _ (by simp [ManagedProcess.route, hl, Life.leaderAlive])⟩
    · exact ⟨rfl, rfl⟩

end SameRoutes

/-! ## Seeing an exit -/

/-- Looking at the leaders now sees the exit of one that a route leads to. -/
def SeesExit (os : Os) (a : Actor) : Prop :=
  ∃ n p inc port code, a.pm.processes.lookup n = some p ∧ p.life = .running inc ∧
    p.port = some port ∧ os.peekExit inc = some code

/-- **Looking changes the port map exactly if it sees an exit.** -/
theorem runningPorts_refresh_iff (os : Os) (a : Actor) :
    (a.refresh os).pm.runningPorts = a.pm.runningPorts ↔ ¬ a.SeesExit os := by
  rw [ProcessManager.runningPorts_eq_iff]
  have hlookup (n : String) : (a.refresh os).pm.processes.lookup n =
      (a.pm.processes.lookup n).map (·.observeExit os) :=
    Table.lookup_map _ (ManagedProcess.observeExit_name os) _ n
  constructor
  · rintro h ⟨n, p, inc, port, code, hp, hl, hport, hpeek⟩
    have hn := h n
    rw [hlookup, hp] at hn
    have hseen : p.exitSeen os = some code := by rw [ManagedProcess.exitSeen, hl]; exact hpeek
    simp [ManagedProcess.observeExit, hseen, ManagedProcess.route, hl, hport,
      Life.leaderAlive] at hn
  · intro hno n
    rw [hlookup]
    cases hp : a.pm.processes.lookup n with
    | none => rfl
    | some p =>
      rcases p.observeExit_cases os with hsame | ⟨inc, code, hl, hpeek, hafter⟩
      · exact congrArg ManagedProcess.route hsame
      · have hport : p.port = none :=
          Option.eq_none_iff_forall_ne_some.mpr fun port hport =>
            hno ⟨n, p, inc, port, code, hp, hl, hport, hpeek⟩
        simp [hafter, ManagedProcess.route, hl, hport]

/-- What nobody notices changes no route. -/
theorem not_seesExit {os : Os} (h : (a.pm.refreshExitStates os).2 = false) : ¬ a.SeesExit os := by
  rintro ⟨n, p, inc, port, code, hp, hl, -, hpeek⟩
  have hseen : p.exitSeen os = some code := by rw [ManagedProcess.exitSeen, hl]; exact hpeek
  have hmem : p ∈ a.pm.processes.values := Table.mem_values.mpr (by rwa [Table.key_eq hp])
  have hnone := List.any_eq_false.mp h p hmem
  rw [hseen] at hnone
  exact hnone rfl

/-- Looking, and publishing if an exit was noticed. -/
theorem fresh_refresh (os : Os) (hf : a.Fresh) :
    (if (a.pm.refreshExitStates os).2 then (a.refresh os).publishProxyState
      else a.refresh os).Fresh := by
  split
  · exact fresh_publish _
  · rename_i h
    have hsame := (a.runningPorts_refresh_iff os).mpr (not_seesExit (Bool.eq_false_iff.mpr h))
    exact hf.trans hsame.symm

/-! ## The handlers -/

/-- `Stop` looks, and does not publish. -/
theorem handleStop_sameRoutes (os : Os) (target : String) (reply : Reply) (a : Actor) :
    SameRoutes (a.refresh os) (a.handleStop os target reply) := by
  rw [handleStop]
  split
  · exact ⟨rfl, rfl⟩
  · rename_i p hfind
    have hp := ProcessManager.lookup_of_find hfind
    split
    · rename_i hl
      exact .setLife hp (by rw [hl, Life.leaderAlive_stopping, Life.leaderAlive_stopping])
    · exact .trans (.update p.name (fun p => { p with watchHandle := none }) (fun _ => rfl)
        (fun _ => rfl) (fun _ => rfl) _) ⟨rfl, rfl⟩
    · exact .startTeardown ..
    · exact .startTeardown ..

/-- So does `Restart`, unless it is refused. -/
theorem handleRestart_sameRoutes (os : Os) (target : String) (reply : Reply) :
    SameRoutes (if a.stopAll.isSome then a else a.refresh os) (a.handleRestart os target reply) := by
  rw [handleRestart]
  split
  · exact ⟨rfl, rfl⟩
  dsimp only
  split
  · exact ⟨rfl, rfl⟩
  · rename_i p hfind
    have hp := ProcessManager.lookup_of_find hfind
    split
    · rename_i hl
      exact .setLife hp (by rw [hl, Life.leaderAlive_stopping, Life.leaderAlive_stopping])
    · exact .startTeardown ..

theorem handleAutoRestart_sameRoutes (name : String) (generation : ℕ) (a : Actor) :
    SameRoutes a (a.handleAutoRestart name generation) := by
  rw [handleAutoRestart]
  split
  · exact .refl a
  split
  · exact .refl a
  split
  · split
    · exact .trans (.update _ (fun p => { p with restartCount := p.restartCount + 1 })
        (fun _ => rfl) (fun _ => rfl) (fun _ => rfl) a) (.startTeardown ..)
    · exact .refl a
  · exact .refl a

theorem handleWatchRestart_sameRoutes (name : String) (generation : ℕ) (a : Actor) :
    SameRoutes a (a.handleWatchRestart name generation) := by
  rw [handleWatchRestart]
  split
  · exact .refl a
  split
  · exact .refl a
  split
  · split
    · exact .refl a
    · exact .refl a
    · exact .trans (.update _ (fun p => { p with restartCount := 0 })
        (fun _ => rfl) (fun _ => rfl) (fun _ => rfl) a) (.startTeardown ..)
  · exact .refl a

/-! ## The tick -/

/-- What holds of the routes, and of a map just published, the verdicts keep. -/
theorem keptByVerdicts_of_sameRoutes {P : Actor → Prop}
    (hsame : ∀ a a', SameRoutes a a' → P a → P a') (hpublish : ∀ a, P a → P a.publishProxyState) :
    KeptByVerdicts P where
  annotate a name msg _ := hsame _ _ (.annotate name msg a)
  publish := hpublish
  mark a p _ _ _ _ hp hl := hsame _ _ (.setLife hp (by rw [hl]; rfl))
  arm a p _ code why inc _ hp hl h := by
    have hlife : SameRoutes a { a with pm := a.pm.setLife p.name (.exited code why inc true) } :=
      .setLife hp (by rw [hl]; rfl)
    exact hsame a _ ⟨rfl, hlife.ports⟩ h

theorem fresh_scheduleRestarts (hf : a.Fresh) : a.scheduleRestarts.Fresh :=
  (keptByVerdicts_of_sameRoutes (fun _ _ hsame => hsame.fresh_iff.mpr)
    fun _ _ => fresh_publish _).scheduleRestarts hf

/-! ## What the other commands leave -/

theorem fresh_handleSpawn (os : Os) (command : String) (name cwd : Option String)
    (env : Option (List (String × String))) (port : Option ℕ) (restart : Option RestartPolicy)
    (watch : Option WatchConfig) (reply : Reply) (hf : a.Fresh) :
    (a.handleSpawn os command name cwd env port restart watch reply).Fresh := by
  rcases handleSpawn_cases os command name cwd env port restart watch reply a with ⟨-, hspawn⟩ |
    ⟨-, ⟨_, _, _, -, hspawn⟩ | ⟨_, _, _, _, _, _, _, -, -, -, hspawn⟩⟩
  · exact hspawn ▸ hf
  · exact hspawn ▸ fresh_publish _
  · exact hspawn ▸ fresh_publish _

theorem fresh_handleStopAll (os : Os) (reply : Reply) (hf : a.Fresh) :
    (a.handleStopAll os reply).Fresh := by
  rw [handleStopAll]
  split
  · exact hf
  · exact fresh_publish _

theorem fresh_handleStatus (os : Os) (reply : Reply) (hf : a.Fresh) :
    (a.handleStatus os reply).Fresh := fresh_refresh os hf

theorem fresh_handleEnableProxy (proxyPort : ℕ) (reply : Reply) (hf : a.Fresh) :
    (a.handleEnableProxy proxyPort reply).Fresh := by
  rw [handleEnableProxy]
  split
  · exact hf
  · exact fresh_publish _

/-- The end of a teardown is published. -/
theorem fresh_finishTeardown (os : Os) (code : Option ℤ) {name : String} {p : ManagedProcess}
    (hp : a.pm.processes.lookup name = some p) (hstop : p.life.isStopping = true) :
    (a.finishTeardown os name p.generation code).Fresh := by
  rw [finishTeardown, ProcessManager.find_of_lookup hp]
  dsimp only
  rw [if_pos rfl]
  split
  · exact fresh_publish _
  · rename_i hno
    cases hl : p.life with
    | stopping => exact absurd hl (hno _ _ _)
    | _ => exact absurd hstop (by simp [hl])

end Actor

/-! ## One step -/

/-- The event is a `Stop` or `Restart` request whose handler is the first to see the exit of a
running process with a port. -/
def Overlooks (w : World) : Event → Prop
  | .client os (.stop ..) => w.actor.SeesExit os
  | .client os (.restart ..) => w.actor.SeesExit os
  | _ => False

variable {w w' : World}

/-- A handler that looks without publishing leaves the map current exactly if it saw nothing. -/
theorem fresh_iff_of_looks {os : Os} {a' : Actor} (hf : w.actor.Fresh)
    (h : Actor.SameRoutes (w.actor.refresh os) a') : a'.Fresh ↔ ¬ w.actor.SeesExit os := by
  rw [h.fresh_iff, ← Actor.runningPorts_refresh_iff]
  exact ⟨fun hfresh => hfresh.symm.trans hf, fun hsame => hf.trans hsame.symm⟩

/-- While a stop-all runs there is no exit left to see. -/
theorem not_seesExit_of_batch (hs : Sound w.books w.actor.holdings) {os : Os}
    (hbatch : w.actor.stopAll.isSome = true) : ¬ w.actor.SeesExit os := by
  rintro ⟨n, p, inc, -, -, hp, hl, -⟩
  obtain ⟨B, hB⟩ := Option.isSome_iff_exists.mp hbatch
  exact ((hs.batch B hB).2.2 n p hp).not_running inc hl

/-- **One step** out of a state with a current map leaves it current, unless it overlooks an exit. -/
theorem fresh_step_iff {e : Event} (hs : Sound w.books w.actor.holdings) (hf : w.actor.Fresh)
    (hstep : Step w e w') : w'.actor.Fresh ↔ ¬ Overlooks w e := by
  cases hstep with
  | exit | fileChanged | teardownDone => exact iff_of_true hf id
  | @tick os hos =>
    exact iff_of_true (Actor.fresh_scheduleRestarts (Actor.fresh_refresh os hf)) id
  | @client os cmd hos hreply =>
    cases cmd with
    | autoRestart | watchRestart | stopFinished => exact absurd hreply (by simp [PmCommand.reply])
    | stop => exact fresh_iff_of_looks hf (Actor.handleStop_sameRoutes os _ _ w.actor)
    | restart =>
      have hsame := Actor.handleRestart_sameRoutes (a := w.actor) os
      split at hsame
      · exact iff_of_true ((hsame _ _).fresh_iff.mpr hf) (not_seesExit_of_batch hs ‹_›)
      · exact fresh_iff_of_looks hf (hsame _ _)
    | spawn => exact iff_of_true (Actor.fresh_handleSpawn os _ _ _ _ _ _ _ _ hf) id
    | stopAll => exact iff_of_true (Actor.fresh_handleStopAll os _ hf) id
    | status | statusSnapshot => exact iff_of_true (Actor.fresh_handleStatus os _ hf) id
    | isProcessExited => exact iff_of_true (Actor.fresh_publish _) id
    | enableProxy => exact iff_of_true (Actor.fresh_handleEnableProxy _ _ hf) id
    | hasProcess | sessionName | subscribe => exact iff_of_true hf id
  | @deliver os cmd hos hmem =>
    obtain ⟨n, g, hstamp, -⟩ := hs.stamps.inFlight cmd hmem
    cases cmd with
    | autoRestart =>
      exact iff_of_true ((Actor.handleAutoRestart_sameRoutes ..).fresh_iff.mpr hf) id
    | watchRestart =>
      exact iff_of_true ((Actor.handleWatchRestart_sameRoutes ..).fresh_iff.mpr hf) id
    | stopFinished name generation code =>
      obtain ⟨p, hp, rfl, hstop⟩ :=
        (hs.deliver hmem).due (List.mem_cons_self (a := (name, generation)))
      exact iff_of_true (Actor.fresh_finishTeardown os code
        (a := (w.take (.stopFinished name p.generation code)).actor) hp hstop) id
    | _ => exact absurd hstamp (by simp [PmCommand.stamp])

/-! ## Every run -/

/-- **Routes go stale exactly when a request overlooks an exit**: along a run of the daemon the map
last published is the current one after every step, if and only if no step overlooks an exit. -/
theorem fresh_iff_noneOverlooked {w₀ u : World} {ts : List (Transition World Event)}
    (h₀ : daemon.init w₀) (hrun : daemon.Run w₀ ts u) :
    (∀ τ ∈ ts, τ.dst.actor.Fresh) ↔ ∀ τ ∈ ts, ¬ Overlooks τ.src τ.ev := by
  suffices h : ((∀ τ ∈ ts, τ.dst.actor.Fresh) → u.actor.Fresh) ∧
      ((∀ τ ∈ ts, τ.dst.actor.Fresh) ↔ ∀ τ ∈ ts, ¬ Overlooks τ.src τ.ev) from h.2
  refine hrun.invariant (P := fun ts u => ((∀ τ ∈ ts, τ.dst.actor.Fresh) → u.actor.Fresh) ∧
    ((∀ τ ∈ ts, τ.dst.actor.Fresh) ↔ ∀ τ ∈ ts, ¬ Overlooks τ.src τ.ev)) (.init h₀) ?_ ?_
  · obtain ⟨session, rfl⟩ := h₀
    exact ⟨fun _ => rfl, by simp⟩
  · intro ts t e u ht ih hstep
    have hlast := fun hf => fresh_step_iff (sound_of_reachable ht) hf hstep
    simp only [List.forall_mem_append, List.forall_mem_singleton]
    refine ⟨fun h => h.2, fun h => ⟨ih.2.mp h.1, (hlast (ih.1 h.1)).mp h.2⟩, fun h => ?_⟩
    have hts := ih.2.mpr h.1
    exact ⟨hts, (hlast (ih.1 hts)).mpr h.2⟩

/-! ## A route to a dead process -/

/-- What the published map promises. -/
def RoutesFresh : Prop := ∀ w, daemon.Reachable w → w.actor.Fresh

namespace DeadRoute

/-- A process with a port. -/
def spawned : World :=
  (World.new "s").receive (.quiet 7) (.spawn "srv" (some "web") none none (some 3000) none none 0)

def exited : World := spawned.leaderExit ⟨0, 7⟩ (some 0)

/-- The operating system once it has exited. -/
def os : Os := { Os.quiet 8 with exits := exited.exits }

/-- A request about another process sees the exit. -/
def asked : World := exited.receive os (.stop "db" 1)

/-- The tick has nothing left to see. -/
def ticked : World := asked.tick os

theorem reachable_exited : daemon.Reachable exited :=
  (World.reachable_receive (World.reachable_new "s") rfl rfl).step (M := daemon)
    (Step.exit (by decide) rfl)

end DeadRoute

/-- When the tick is the first to see the exit, it is published. -/
theorem fresh_iff_noneOverlooked_tick : (DeadRoute.exited.tick DeadRoute.os).actor.Fresh := by
  have hspawn : Step (.new "s") (.client (.quiet 7) (.spawn "srv" (some "web") none none (some 3000)
      none none 0)) DeadRoute.spawned := .client rfl rfl
  have hexit : Step DeadRoute.spawned (.exit ⟨0, 7⟩ (some 0)) DeadRoute.exited :=
    .exit (by decide) rfl
  have htick : Step DeadRoute.exited (.tick DeadRoute.os) (DeadRoute.exited.tick DeadRoute.os) :=
    .tick rfl
  have hrun : daemon.Run (.new "s") _ (DeadRoute.exited.tick DeadRoute.os) :=
    ((Machine.Run.refl.snoc hspawn).snoc hexit).snoc htick
  refine (fresh_iff_noneOverlooked ⟨"s", rfl⟩ hrun).mpr (fun τ hτ => ?_) _
    (List.mem_append_right _ (List.mem_singleton_self _))
  simp only [List.nil_append, List.cons_append, List.mem_cons, List.not_mem_nil, or_false] at hτ
  rcases hτ with rfl | rfl | rfl <;> exact id

/-- **A route outlives its process**, the next tick included. -/
theorem not_routesFresh : ¬ RoutesFresh := by
  intro h
  have hticked : daemon.Reachable DeadRoute.ticked :=
    (World.reachable_receive DeadRoute.reachable_exited rfl rfl).step (M := daemon)
      (Step.tick rfl)
  have hlookup := congrArg (Finmap.lookup "web") (h _ hticked)
  exact absurd hlookup (by decide)

end AgentProcs
