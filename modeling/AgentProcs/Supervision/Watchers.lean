import AgentProcs.Supervision.Changes
import AgentProcs.Supervision.ManualStop

/-!
# Supervision/Watchers — which watched processes a file change can revive

    life      running · natural · exhausted │ stopping · manual │ spawnFailed
    handle    some ⟨name, generation⟩       │ none              │ none

The handle goes with the incarnation: a teardown drops it, and only a spawn that works sets up
another.  So a respawn that is refused leaves a record that is still reported as watched and that no
file change reaches.
-/

namespace AgentProcs

/-- The watch handle is there while the incarnation is, with the stamp of the record. -/
structure Attended (watchers : List WatchHandle) (p : ManagedProcess) : Prop where
  live : p.life.inc.isSome = true → Actor.Watching watchers p
  gone : p.life.inc = none → p.watchHandle = none

/-- Whoever is watched has not been refused a respawn. -/
def Unrefused (p : ManagedProcess) : Prop :=
  p.watchConfig.isSome = true → ∀ code inc timer, p.life ≠ .exited code .spawnFailed inc timer

variable {watchers watchers' : List WatchHandle} {p q : ManagedProcess}

theorem Attended.mono (h : Attended watchers p) (hsub : ∀ h ∈ watchers, h ∈ watchers') :
    Attended watchers' p :=
  ⟨fun hinc hconfig => (h.live hinc hconfig).imp_right (hsub _), h.gone⟩

/-! ## What changes keep -/

theorem Attended.change (h : Attended watchers p) (hchange : RecordChange p q) :
    Attended watchers q := by
  cases hchange with
  | observe os =>
    rcases p.observeExit_cases os with hsame | ⟨inc, code, hl, -, hafter⟩
    · rwa [hsame]
    · rw [hafter]
      exact ⟨fun _ => h.live (by rw [hl]; rfl), fun hnone => absurd hnone (by simp)⟩
  | recount => exact ⟨h.live, h.gone⟩
  | begin => exact ⟨fun hinc => absurd hinc (by simp), fun _ => rfl⟩
  | join _ _ hlife =>
    exact ⟨fun hinc => absurd hinc (by simp), fun _ => h.gone (by rw [hlife]; rfl)⟩
  | park _ hlife =>
    exact ⟨fun hinc => absurd hinc (by simp), fun _ => h.gone (Life.inc_of_stopping hlife)⟩
  | mark hlife _ =>
    exact ⟨fun hinc => h.live (by rwa [hlife]), fun hnone => h.gone (by rwa [hlife])⟩
  | unwatch hinc => exact ⟨fun hsome => absurd hsome (by simp [hinc]), fun _ => rfl⟩

theorem Attended.changed (h : Attended watchers p) (hchanged : Changed p q) :
    Attended watchers q := by
  induction hchanged with
  | refl => exact h
  | tail _ hchange ih => exact ih.change hchange

theorem Unrefused.change (h : Unrefused p) (hchange : RecordChange p q) : Unrefused q := by
  cases hchange with
  | observe os =>
    rcases p.observeExit_cases os with hsame | ⟨inc, code, hl, -, hafter⟩
    · rwa [hsame]
    · rw [hafter]
      exact fun _ _ _ _ he => ExitWhy.noConfusion (Life.exited.inj he).2.1
  | recount | unwatch => exact h
  | begin | join => exact fun _ _ _ _ he => Life.noConfusion he
  | park => exact fun _ _ _ _ he => ExitWhy.noConfusion (Life.exited.inj he).2.1
  | mark hlife hwhy =>
    intro hconfig code inc timer he
    rcases hwhy with rfl | rfl
    · exact h hconfig _ _ _ (hlife.trans (by rw [(Life.exited.inj he).2.1]))
    · exact ExitWhy.noConfusion (Life.exited.inj he).2.1

theorem Unrefused.changed (h : Unrefused p) (hchanged : Changed p q) : Unrefused q := by
  induction hchanged with
  | refl => exact h
  | tail _ hchange ih => exact ih.change hchange

/-! ## Every reachable state -/

variable {w w' : World} {n : String}

/-- **Handles go with incarnations**, in every reachable state. -/
theorem attended_of_reachable (h : daemon.Reachable w) :
    ∀ n p, w.record n = some p → Attended w.actor.watchers p := by
  refine h.invariant (P := fun w => ∀ n p, w.record n = some p → Attended w.actor.watchers p) ?_ ?_
  · rintro w ⟨session, rfl⟩ n p hp
    exact absurd hp (by simp [World.record, World.new, Actor.new, ProcessManager.new])
  · intro w e w' hw ih hstep n q hq
    have hd := descended_step (sound_of_reachable hw) hstep
    rcases hd.records n q hq with ⟨p, hp, hchanged⟩ | ⟨hlaunched, -⟩ |
      ⟨p, count, code, ⟨_, _, _, _, _, _, -, hp, hl, -⟩, rfl⟩
    · exact ((ih n p hp).mono hd.watchers).changed hchanged
    · obtain ⟨pid, hrun⟩ := hlaunched.running
      exact ⟨fun _ => hlaunched.watching, fun hnone => absurd hnone (by simp [hrun])⟩
    · exact ⟨fun hinc => absurd hinc (by simp [Actor.refusal]),
        fun _ => (ih n p hp).gone (by rw [hl]; rfl)⟩

/-! ## Reviving -/

/-- The record has a live handle with its own stamp, and a change delivered now begins to restart
it. -/
def ManagedProcess.Revivable (a : Actor) (p : ManagedProcess) : Prop :=
  ∃ handle ∈ a.watchers, p.watchHandle = some handle ∧ handle.generation = p.generation ∧
    ∃ q leaderExit, (a.handleWatchRestart handle.name handle.generation).pm.processes.lookup
      p.name = some q ∧ q.life = .stopping leaderExit (.respawn .watch) []

/-- **A watched process can be revived**, unless it is stopping or was stopped. -/
def AllRevivable (w : World) : Prop :=
  ∀ n p, w.record n = some p → (∀ os, (p.info os).watched = some true) →
    p.life.isStopping = false → (∀ code inc timer, p.life ≠ .exited code .manual inc timer) →
    p.Revivable w.actor

theorem watched_iff (os : Os) : (p.info os).watched = some true ↔ p.watchConfig.isSome = true := by
  rw [ManagedProcess.info]
  cases p.watchConfig <;> simp

/-- A change that finds its generation begins a restart. -/
theorem handleWatchRestart_spec {a : Actor} (hp : a.pm.processes.lookup p.name = some p)
    (hbatch : a.stopAll = none) (hstop : p.life.isStopping = false)
    (hmanual : ∀ code inc timer, p.life ≠ .exited code .manual inc timer) :
    ∃ q leaderExit, (a.handleWatchRestart p.name p.generation).pm.processes.lookup p.name = some q ∧
      q.life = .stopping leaderExit (.respawn .watch) [] := by
  have hreset := Actor.lookup_update hp (fun p => { p with restartCount := 0 }) fun _ => rfl
  have hbegin := Actor.lookup_startTeardown hreset hstop (.respawn .watch) none p.name
  rw [if_pos rfl] at hbegin
  rw [Actor.handleWatchRestart, hbatch, ProcessManager.find_of_lookup hp]
  dsimp only
  rw [if_neg (by simp), if_pos rfl]
  split
  · rename_i hl
    exact absurd hstop (by simp [hl])
  · rename_i hl
    exact absurd hl (hmanual _ _ _)
  · exact ⟨_, _, hbegin, rfl⟩

/-- **All that is missing is a spawn that works.** -/
theorem allRevivable_iff (h : daemon.Reachable w) :
    AllRevivable w ↔ ∀ n p, w.record n = some p → Unrefused p := by
  have hs := sound_of_reachable h
  constructor
  · intro hall n p hp hconfig code inc timer hl
    have hinc : inc = none := by
      have hzombie := (hs.records n p hp).zombie code _ inc timer hl
      exact Option.not_isSome_iff_eq_none.mp fun hsome => absurd (hzombie.mp hsome) (by simp)
    obtain ⟨handle, -, hsome, -⟩ := hall n p hp (fun os => (watched_iff os).mpr hconfig)
      (by rw [hl]; rfl) fun _ _ _ he => ExitWhy.noConfusion (Life.exited.inj (hl.symm.trans he)).2.1
    have hgone := (attended_of_reachable h n p hp).gone (by rw [hl, hinc]; rfl)
    exact absurd (hgone.symm.trans hsome) (by simp)
  · intro hunrefused n p hp hwatched hstop hmanual
    obtain rfl := Table.key_eq hp
    have hconfig := (watched_iff { Os.quiet 0 with exits := w.exits }).mp (hwatched _)
    have hinc : p.life.inc.isSome = true := by
      cases hl : p.life with
      | running inc => rfl
      | stopping => exact absurd hstop (by simp [hl])
      | exited code why inc timer =>
        refine ((hs.records _ p hp).zombie code why inc timer hl).mpr ?_
        cases why with
        | natural => exact .inl rfl
        | exhausted => exact .inr rfl
        | manual => exact absurd hl (hmanual code inc timer)
        | spawnFailed => exact absurd hl (hunrefused _ p hp hconfig code inc timer)
    have hbatch : w.actor.stopAll = none := by
      refine hs.no_batch hp fun hsettled => ?_
      rcases hsettled with ⟨_, _, hl⟩ | ⟨_, _, _, hl⟩ <;> exact absurd hinc (by simp [hl])
    obtain ⟨hhandle, hmem⟩ := (attended_of_reachable h _ p hp).live hinc hconfig
    exact ⟨_, hmem, hhandle, rfl, handleWatchRestart_spec hp hbatch hstop hmanual⟩

/-! ## Every run -/

/-- The event reports the end of a stop after which a watched record is to be respawned, and the
spawn fails. -/
def RefusesWatched (w : World) (e : Event) : Prop :=
  ∃ n p, Refused w e n p ∧ p.watchConfig.isSome = true

/-- What a refusal leaves. -/
theorem record_of_refused {e : Event} (hs : Sound w.books w.actor.holdings) (hstep : Step w e w')
    (hrefused : Refused w e n p) : ∃ count code, w'.record n = some (Actor.refusal count code p) := by
  obtain ⟨os, code, leaderExit, reason, ws, message, rfl, hp, hl, hspawn⟩ := hrefused
  obtain rfl := Table.key_eq hp
  have hbatch : w.actor.stopAll = none := hs.no_batch hp (hl ▸ Life.not_settled_respawn)
  obtain ⟨-, -, -, hcases⟩ := Actor.finishTeardown_respawn_cases
    (a := (w.take (.stopFinished p.name p.generation code)).actor) os code hp hl hbatch
  rw [hspawn] at hcases
  cases hstep
  exact hcases

/-- **One step** refuses nobody, unless a watched record's spawn fails. -/
theorem unrefused_step_iff {e : Event} (hs : Sound w.books w.actor.holdings) (hstep : Step w e w')
    (h : ∀ n p, w.record n = some p → Unrefused p) :
    (∀ n p, w'.record n = some p → Unrefused p) ↔ ¬RefusesWatched w e := by
  constructor
  · rintro hafter ⟨n, p, hrefused, hconfig⟩
    obtain ⟨count, code, hq⟩ := record_of_refused hs hstep hrefused
    exact hafter n _ hq hconfig code none false rfl
  · intro hspawns n q hq
    rcases (descended_step hs hstep).records n q hq with ⟨p, hp, hchanged⟩ | ⟨hlaunched, -⟩ |
      ⟨p, count, code, hrefused, rfl⟩
    · exact (h n p hp).changed hchanged
    · obtain ⟨pid, hrun⟩ := hlaunched.running
      exact fun _ _ _ _ he => Life.noConfusion (hrun.symm.trans he)
    · exact fun hconfig => absurd ⟨n, p, hrefused, hconfig⟩ hspawns

/-- **A watched process can always be revived, exactly if no spawn of one fails**: along a run of the
daemon every watched record that is not stopping and was not stopped can be revived after every step,
if and only if no step reports a stop whose respawn of a watched record then fails. -/
theorem allRevivable_iff_noneRefused {w₀ u : World} {ts : List (Transition World Event)}
    (h₀ : daemon.init w₀) (hrun : daemon.Run w₀ ts u) :
    (∀ τ ∈ ts, AllRevivable τ.dst) ↔ ∀ τ ∈ ts, ¬RefusesWatched τ.src τ.ev := by
  have hinit : AllRevivable w₀ := by
    obtain ⟨session, rfl⟩ := h₀
    intro n p hp
    exact absurd hp (by simp [World.record, World.new, Actor.new, ProcessManager.new])
  have hall := hrun.forall_iff (P := AllRevivable) (Q := fun _ => True)
    (G := fun τ => ¬RefusesWatched τ.src τ.ev) (.init h₀) hinit fun t e u ht hall hstep => by
      rw [and_true, allRevivable_iff (ht.step hstep)]
      exact unrefused_step_iff (sound_of_reachable ht) hstep ((allRevivable_iff ht).mp hall)
  simpa only [and_true] using hall

/-! ## A watched process, restarted by a change -/

namespace WatchedSrv

def spawned : World := (World.new "s").receive (.quiet 7)
  (.spawn "srv" (some "web") none none none none (some ⟨["src"], none⟩) 0)

def changed : World := spawned.fileChanged ⟨"web", 1⟩

def woken : World := changed.deliver (.quiet 8) (.watchRestart "web" 1)

def vacated : World := woken.finish ⟨"web", 1, some ⟨0, 7⟩, none⟩ (some 0)

def respawned : World := vacated.deliver (.quiet 8) (.stopFinished "web" 1 (some 0))

end WatchedSrv

/-- A change restarts the process, the spawn works, and the next change can restart it again. -/
theorem allRevivable_iff_noneRefused_restarted : AllRevivable WatchedSrv.respawned := by
  have hspawn : Step (.new "s") (.client (.quiet 7) (.spawn "srv" (some "web") none none none none
      (some ⟨["src"], none⟩) 0)) WatchedSrv.spawned := .client rfl rfl
  have hchange : Step WatchedSrv.spawned (.fileChanged ⟨"web", 1⟩) WatchedSrv.changed :=
    .fileChanged (List.mem_singleton_self _)
  have hwake : Step WatchedSrv.changed (.deliver (.quiet 8) (.watchRestart "web" 1))
      WatchedSrv.woken := .deliver rfl (by decide)
  have hvacate : Step WatchedSrv.woken (.teardownDone ⟨"web", 1, some ⟨0, 7⟩, none⟩ (some 0))
      WatchedSrv.vacated := .teardownDone (by decide) trivial
  have hrespawn : Step WatchedSrv.vacated (.deliver (.quiet 8) (.stopFinished "web" 1 (some 0)))
      WatchedSrv.respawned := .deliver rfl (by decide)
  have hrun : daemon.Run (.new "s") _ WatchedSrv.respawned :=
    ((((Machine.Run.refl.snoc hspawn).snoc hchange).snoc hwake).snoc hvacate).snoc hrespawn
  refine (allRevivable_iff_noneRefused ⟨"s", rfl⟩ hrun).mpr (fun τ hτ => ?_) _
    (List.mem_append_right _ (List.mem_singleton_self _))
  simp only [List.nil_append, List.cons_append, List.mem_cons, List.not_mem_nil, or_false] at hτ
  rintro ⟨n, p, ⟨os, code, _, _, _, message, he, -, -, hspawn⟩, -⟩
  rcases hτ with rfl | rfl | rfl | rfl | rfl
  · exact Event.noConfusion he
  · exact Event.noConfusion he
  · exact PmCommand.noConfusion (Event.deliver.inj he).2
  · exact Event.noConfusion he
  · rw [← (Event.deliver.inj he).1] at hspawn
    exact absurd hspawn (by simp [Os.quiet])

/-- Whoever is watched can be revived. -/
def AlwaysRevivable : Prop := ∀ w, daemon.Reachable w → AllRevivable w

/-- **A refused respawn is for good**: the record is reported as watched, and nothing watches. -/
theorem not_alwaysRevivable : ¬AlwaysRevivable := by
  intro h
  have hbroken : StaleChange.failed.record "web" = some StaleChange.broken := by decide
  obtain ⟨handle, -, hsome, -⟩ := h _ StaleChange.reachable_failed _ _ hbroken (fun _ => rfl) rfl
    fun _ _ _ he => ExitWhy.noConfusion (Life.exited.inj he).2.1
  exact absurd hsome (by simp [StaleChange.broken])

end AgentProcs
