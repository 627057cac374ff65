import AgentProcs.Supervision.Refinement

/-!
# Supervision/Spared — what a handler leaves alone while it stops

    lookup n ──handler that is not about n──▸ lookup n        stopping, and the same record

A handler spares the record `n` if it finds a stopping record there exactly when it leaves the same
one behind: it neither touches a teardown under way nor begins one.  Every handler spares every
record it is not about, and the tick spares them all.
-/

namespace AgentProcs

namespace Actor

/-- The change leaves the record `n` alone while that is stopping, and does not begin to stop it. -/
def Spares (n : String) (a a' : Actor) : Prop :=
  ∀ q : ManagedProcess, q.life.isStopping = true →
    (a'.pm.processes.lookup n = some q ↔ a.pm.processes.lookup n = some q)

namespace Spares

variable {n : String} {a a' a'' : Actor}

theorem of_lookup (h : a'.pm.processes.lookup n = a.pm.processes.lookup n) : Spares n a a' :=
  fun _ _ => by rw [h]

theorem of_pm (h : a'.pm = a.pm) : Spares n a a' := of_lookup (by rw [h])

theorem refl (a : Actor) : Spares n a a := of_lookup rfl

theorem trans (h : Spares n a a') (h' : Spares n a' a'') : Spares n a a'' :=
  fun q hq => (h' q hq).trans (h q hq)

/-- A record that is not stopping on either side is spared. -/
theorem of_idle (h : ∀ p, a.pm.processes.lookup n = some p → p.life.isStopping = false)
    (h' : ∀ p, a'.pm.processes.lookup n = some p → p.life.isStopping = false) : Spares n a a' := by
  intro q hq
  constructor
  · intro hlookup
    exact absurd (hq.symm.trans (h' q hlookup)) (by simp)
  · intro hlookup
    exact absurd (hq.symm.trans (h q hlookup)) (by simp)

end Spares

variable {n : String} {a : Actor} {p q : ManagedProcess}

/-! ## Small steps -/

/-- Looking at the leaders spares every record. -/
theorem spares_refresh (os : Os) (a : Actor) : Spares n a (a.refresh os) := by
  intro q hq
  have hlookup : (a.refresh os).pm.processes.lookup n =
      (a.pm.processes.lookup n).map (·.observeExit os) :=
    Table.lookup_map _ (ManagedProcess.observeExit_name os) _ _
  rw [hlookup]
  have hstays (p : ManagedProcess) (hp : p.life.isStopping = true) : p.observeExit os = p :=
    p.observeExit_of_not_running os fun inc hrun => by
      rw [hrun] at hp
      exact absurd hp (by simp)
  constructor
  · intro h
    obtain ⟨p, hp, rfl⟩ := Option.map_eq_some_iff.mp h
    rw [ManagedProcess.observeExit_isStopping] at hq
    rw [hstays p hq, hp]
  · intro h
    rw [h, Option.map_some, hstays q hq]

/-- Changing another record spares this one. -/
theorem spares_update_ne {m : String} (hne : n ≠ m) (f : ManagedProcess → ManagedProcess)
    (hf : ∀ p, (f p).name = p.name) : Spares n a (a.update m f hf) :=
  .of_lookup (Table.lookup_update_ne hne f hf _)

/-- So does changing a record that is stopping neither before nor after. -/
theorem spares_update {m : String} (hq : a.pm.processes.lookup m = some q)
    (hlife : q.life.isStopping = false) (f : ManagedProcess → ManagedProcess)
    (hf : ∀ p, (f p).name = p.name) (hafter : (f q).life.isStopping = false) :
    Spares n a (a.update m f hf) := by
  by_cases hne : n = m
  · subst hne
    refine .of_idle (fun p hp => ?_) fun p hp => ?_
    · obtain rfl := Option.some.inj (hq.symm.trans hp)
      exact hlife
    · obtain rfl := Option.some.inj ((lookup_update hq f hf).symm.trans hp)
      exact hafter
  · exact spares_update_ne hne f hf

/-- Setting up a watcher changes nothing but the record's watcher and its config, and leaves either
the watcher or no config. -/
theorem lookup_setupWatcher {name : String} (os : Os) (hq : a.pm.processes.lookup name = some q) :
    ∃ handle config, (∀ m, (a.setupWatcher os name).1.pm.processes.lookup m =
      if m = name then some { q with watchHandle := handle, watchConfig := config }
      else a.pm.processes.lookup m) ∧
    (config.isSome = true → handle = some ⟨name, q.generation⟩ ∧
      ⟨name, q.generation⟩ ∈ (a.setupWatcher os name).1.watchers) := by
  obtain rfl := Table.key_eq hq
  have hupdate (f : ManagedProcess → ManagedProcess) (hf : ∀ p, (f p).name = p.name) (m : String) :
      (a.update q.name f hf).pm.processes.lookup m =
        if m = q.name then some (f q) else a.pm.processes.lookup m := by
    split
    · rw [‹m = q.name›, lookup_update hq f hf]
    · exact Table.lookup_update_ne ‹_› f hf _
  rw [setupWatcher, ProcessManager.find_of_lookup hq]
  dsimp only
  split
  · rename_i hnone
    refine ⟨q.watchHandle, q.watchConfig, fun m => ?_, fun hsome => ?_⟩
    · split
      · rw [‹m = q.name›, hq]
      · rfl
    · rw [Option.isNone_iff_eq_none.mp hnone] at hsome
      exact absurd hsome Bool.false_ne_true
  · cases os.watch with
    | ok =>
      exact ⟨some ⟨q.name, q.generation⟩, q.watchConfig, hupdate _ _,
        fun _ => ⟨rfl, List.mem_cons_self⟩⟩
    | error e => exact ⟨q.watchHandle, none, hupdate _ _, fun hsome => absurd hsome (by simp)⟩

theorem spares_setupWatcher {name : String} (os : Os) (hq : a.pm.processes.lookup name = some q)
    (hlife : q.life.isStopping = false) : Spares n a (a.setupWatcher os name).1 := by
  obtain ⟨handle, config, hlookup, -⟩ := lookup_setupWatcher os hq
  by_cases hne : n = name
  · subst hne
    refine .of_idle (fun p hp => ?_) fun p hp => ?_
    · obtain rfl := Option.some.inj (hq.symm.trans hp)
      exact hlife
    · rw [hlookup, if_pos rfl] at hp
      obtain rfl := Option.some.inj hp
      exact hlife
  · exact .of_lookup (by rw [hlookup, if_neg hne])

/-- Beginning a teardown concerns one record. -/
theorem lookup_startTeardown {name : String} (hq : a.pm.processes.lookup name = some q)
    (hlife : q.life.isStopping = false) (andThen : AfterStop) (waiter : Option Waiter) (m : String) :
    (a.startTeardown name andThen waiter).pm.processes.lookup m =
      if m = name then some { q with
        watchHandle := none, life := .stopping q.life.leaderExit andThen waiter.toList }
      else a.pm.processes.lookup m := by
  have hprocs : (a.startTeardown name andThen waiter).pm.processes = _ :=
    congrArg Holdings.processes (holdings_startTeardown hq hlife andThen waiter)
  rw [hprocs]
  split
  · rw [‹m = name›, Table.lookup_update_of _ _ hq]
  · exact Table.lookup_update_ne ‹_› _ _ _

/-! ## Spawn and the tick -/

theorem spares_handleSpawn (os : Os) (command : String) (name cwd : Option String)
    (env : Option (List (String × String))) (port : Option ℕ) (restart : Option RestartPolicy)
    (watch : Option WatchConfig) (reply : Reply) (a : Actor) :
    Spares n a (a.handleSpawn os command name cwd env port restart watch reply) := by
  rcases handleSpawn_cases os command name cwd env port restart watch reply a with ⟨-, hspawn⟩ |
    ⟨-, ⟨pm, code, message, herror, hspawn⟩ | ⟨pm, p, id, pid, port', url, url', -, h, -, hspawn⟩⟩
  · exact hspawn ▸ .of_pm rfl
  · rw [hspawn]
    refine .of_lookup ?_
    change (publishProxyState { a with pm }).pm.processes.lookup n = _
    rw [pm_publishProxyState, (spawnProcess_of_error herror).2.1]
  -- the fresh record runs; whatever is set on it later, it still runs
  have hrunning : p.life.isStopping = false := by
    obtain ⟨pid, hrun⟩ := h.running
    rw [hrun]
    rfl
  have hcreate : Spares n a { a with pm } := by
    by_cases hne : n = p.name
    · subst hne
      refine .of_idle (fun q hq => absurd (h.free.symm.trans hq) (by simp)) fun q hq => ?_
      obtain rfl := Option.some.inj (h.lookup.symm.trans hq)
      exact hrunning
    · exact .of_lookup (h.lookup_of_ne hne)
  have hedit := hcreate.trans (spares_update (a := { a with pm }) h.lookup hrunning
    (fun p => { p with restartPolicy := restart, watchConfig := watch }) (fun _ => rfl) hrunning)
  have hp' := lookup_update (a := { a with pm }) h.lookup
    (fun p => { p with restartPolicy := restart, watchConfig := watch }) fun _ => rfl
  have houtfit : Spares n a (outfit os p.name restart watch { a with pm }) :=
    outfit_rule (fun _ => hedit) (fun _ => hedit.trans (spares_setupWatcher os hp' hrunning))
      fun _ _ _ hspares => hspares.trans (.of_pm (pm_annotate ..))
  rw [hspawn]
  exact houtfit.trans (.of_pm (pm_publishProxyState _))

/-- **The tick spares every record.** -/
theorem spares_tick (os : Os) (a : Actor) : Spares n a (a.tick os) := by
  refine KeptByVerdicts.tick (P := Spares n a) ?_ os (spares_refresh os a)
  exact {
    annotate := fun _ _ _ _ h => h.trans (.of_pm (pm_annotate ..))
    publish := fun _ h => h.trans (.of_pm (pm_publishProxyState _))
    mark := fun _ _ _ _ _ _ hp hl h => h.trans (spares_update hp (by rw [hl]; rfl) _ _ rfl)
    arm := fun _ _ _ _ _ _ _ hp hl h => (h.trans (spares_update hp (by rw [hl]; rfl)
      (ManagedProcess.withLife _) (ManagedProcess.withLife_name _) rfl)).trans (.of_pm rfl) }

/-! ## The report of another record -/

/-- A respawn concerns one record. -/
theorem lookup_respawn_ne {name : String} (os : Os) (reason : RespawnReason) (code : Option ℤ)
    (hq : a.pm.processes.lookup name = some q) (hne : n ≠ name) :
    (a.respawn os name reason code).1.pm.processes.lookup n = a.pm.processes.lookup n := by
  have hsettled := lookup_settleCount reason hq
  have htable : ((a.settleCount name reason).pm.respawn os name (reason != .manual)).1.processes.lookup
      n = a.pm.processes.lookup n := by
    rw [← lookup_settleCount_ne reason a hne, ProcessManager.respawn, hsettled]
    dsimp only [ProcessManager.nextId]
    cases os.spawn with
    | ok pid => exact Table.lookup_update_ne hne _ _ _
    | error message => exact Table.lookup_update_ne hne _ _ _
  obtain ⟨q₂, hq₂⟩ := ProcessManager.lookup_respawn os (reason != .manual) hsettled
  rcases hrespawn : (a.settleCount name reason).pm.respawn os name (reason != .manual) with ⟨pm, resp⟩
  rw [hrespawn] at htable hq₂
  refine respawn_rule (P := fun a' => a'.pm.processes.lookup n = a.pm.processes.lookup n) code hrespawn
    (fun _ => htable) (fun _ _ _ h => by rwa [pm_annotate]) fun a' hpm h => ?_
  obtain ⟨_, _, hlookup, -⟩ := lookup_setupWatcher (a := a') os (hpm ▸ hq₂)
  rw [hlookup, if_neg hne, h]

/-- The batch is not over while somebody else is in it. -/
theorem pm_leaveBatch_of_ne {name : String} (hne : n ≠ name)
    (hmem : ∀ B, a.stopAll = some B → n ∈ B.remaining) : (a.leaveBatch name).pm = a.pm := by
  rw [leaveBatch]
  split
  · rfl
  · rename_i B hB
    dsimp only
    rw [if_neg]
    intro hempty
    exact absurd (Finset.mem_erase.mpr ⟨hne, hmem B hB⟩) (hempty ▸ Finset.notMem_empty n)

/-- **A report spares every record but its own.** -/
theorem spares_finishTeardown {b : Books} {name : String} {generation : ℕ} (os : Os)
    (code : Option ℤ) (hs : Sound { b with due := (name, generation) :: b.due } a.holdings) (hne : n ≠ name) :
    Spares n a (a.finishTeardown os name generation code) := by
  obtain ⟨p, hp, rfl, hstop⟩ := hs.due List.mem_cons_self
  obtain rfl := Table.key_eq hp
  -- the batch waits for `n` if that is stopping, so it is not over yet
  have hleave (a₁ : Actor) (hlookup : a₁.pm.processes.lookup n = a.pm.processes.lookup n)
      (hbatch : a₁.stopAll = a.stopAll) : Spares n a (a₁.leaveBatch p.name).publishProxyState := by
    refine Spares.trans ?_ (.of_pm (pm_publishProxyState _))
    by_cases hidle : ∀ q, a.pm.processes.lookup n = some q → q.life.isStopping = false
    · refine .of_idle hidle fun q hq => ?_
      rcases pm_leaveBatch p.name a₁ with hpm | hpm
      · exact hidle q (hlookup ▸ hpm ▸ hq)
      · rw [hpm] at hq
        exact absurd hq (by simp [ProcessManager.clear])
    · push Not at hidle
      obtain ⟨q, hq, hqstop⟩ := hidle
      refine .of_lookup ?_
      rw [pm_leaveBatch_of_ne hne, hlookup]
      intro B hB
      refine ((hs.batch B (hbatch.symm.trans hB)).2.1 n).mpr (.inr ⟨q, hq, ?_⟩)
      exact Bool.eq_true_of_not_eq_false hqstop
  have hanswers (a₁ : Actor) (ws : List Waiter) (resp : Response)
      (hlookup : a₁.pm.processes.lookup n = a.pm.processes.lookup n)
      (hbatch : a₁.stopAll = a.stopAll) : Spares n a
        ((ws.foldl (answerWaiter p.name resp) a₁).leaveBatch p.name).publishProxyState := by
    refine hleave _ ?_ ?_
    · rw [foldl_answer_same Actor.pm Waiter.reply (waiterAnswer p.name resp) (fun _ _ _ => rfl)
        (answerWaiter_eq p.name resp), hlookup]
    · rw [foldl_answer_same Actor.stopAll Waiter.reply (waiterAnswer p.name resp)
        (fun _ _ _ => rfl) (answerWaiter_eq p.name resp), hbatch]
  have hparked := Table.lookup_update_ne hne
    (ManagedProcess.withLife (.exited code .manual none false)) (ManagedProcess.withLife_name _)
    a.pm.processes
  rw [finishTeardown, ProcessManager.find_of_lookup hp]
  dsimp only
  rw [if_pos rfl]
  cases hl : p.life with
  | running => exact absurd hstop (by simp [hl])
  | exited => exact absurd hstop (by simp [hl])
  | stopping leaderExit andThen ws =>
    cases andThen with
    | park => exact hanswers _ ws _ hparked rfl
    | respawn reason =>
      have hp₁ : (ProcessManager.setLife p.name (.exited code .manual none false) a.pm).processes.lookup
          p.name = some _ := Table.lookup_update_of (ManagedProcess.withLife _)
        (ManagedProcess.withLife_name _) hp
      refine hanswers _ ws _ ?_ ?_
      · exact (lookup_respawn_ne os reason code hp₁ hne).trans hparked
      · exact stopAll_respawn ..

end Actor

end AgentProcs
