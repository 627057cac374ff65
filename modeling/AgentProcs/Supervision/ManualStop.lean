import AgentProcs.Supervision.Refinement

/-!
# Supervision/ManualStop — a manual stop sticks, but for one stale message

    Stop ──▸ stopping, park ──report──▸ exited (Manual)      nothing but Restart wakes it
    Stop ──▸ exited (SpawnFailed), left as it is             WatchRestart still wakes it

After a `Stop` the record is settled, and only a respawn could unsettle it.  Timers need a natural
exit, and file changes are refused once the reason is `Manual`; but `Stop` on a record whose last
respawn failed leaves the reason `SpawnFailed` and the generation of the file changes under way.
-/

namespace AgentProcs

/-! ## Settled records stay settled -/

/-- No move unsettles a record that nobody sets up for a respawn. -/
theorem Moves.settled {E : Incarnation → Option (Option ℤ)} {R : String → RespawnReason → Prop}
    {L : String → Launch → Prop} {d d' : Desk} (h : Moves (Move.Within E R L) d d') {n : String}
    (hR : ∀ r, ¬ R n r) (hL : ¬ L n .fresh)
    (hn : ∀ p, d.holdings.processes.lookup n = some p → p.life.Settled) :
    ∀ p, d'.holdings.processes.lookup n = some p → p.life.Settled := by
  refine h.invariant (P := fun d => ∀ p, d.holdings.processes.lookup n = some p → p.life.Settled)
    hn fun d₁ m d₂ hd hmove hm q hq => ?_
  rcases hmove.record hq with ⟨p, hp, hturn⟩ | ⟨rfl, -⟩
  · have hs := hd p hp
    cases hturn with
    | same => exact hs
    | observe =>
      rw [ManagedProcess.observeExit_of_not_running _ hs.not_running]
      exact hs
    | edit hlife => exact hlife ▸ hs
    | arm hlife | exhaust hlife =>
      rcases hlife ▸ hs with ⟨_, _, he⟩ | ⟨_, _, _, he⟩
      · exact Life.noConfusion he
      · obtain ⟨-, -, rfl, -⟩ := Life.exited.inj he
        exact .inr ⟨_, _, _, rfl⟩
    | @start _ andThen =>
      cases andThen with
      | park => exact .inl ⟨_, _, rfl⟩
      | respawn reason => exact absurd hm (hR reason)
    | @join _ _ _ andThen =>
      cases andThen with
      | park => exact .inl ⟨_, _, rfl⟩
      | respawn reason => exact absurd hm (hR reason)
    | park => exact .inr ⟨_, _, _, rfl⟩
    | relaunch hlife | fail hlife => exact absurd (hlife ▸ hs) Life.not_settled_respawn
  · exact absurd hm hL

/-! ## After a stop -/

/-- The event is a `Restart` request for the record `n`. -/
def RestartFor (n : String) (w : World) (e : Event) : Prop :=
  ∃ os target reply, e = .client os (.restart target reply) ∧
    ∃ p, w.actor.pm.find target = some p ∧ p.name = n

/-- The event delivers a file change that the record `n` takes for its own while its last respawn
has failed: the generation is still that of the watcher, and no stop-all runs. -/
def StaleWatch (n : String) (w : World) (e : Event) : Prop :=
  ∃ os generation p code inc timer, e = .deliver os (.watchRestart n generation) ∧
    w.actor.stopAll = none ∧ w.record n = some p ∧ p.generation = generation ∧
    p.life = .exited code .spawnFailed inc timer

/-- The record `n`, still the same one, comes out of the transition with an incarnation that did
not exist before it. -/
def SpawnsInto (n : String) (τ : Transition World Event) : Prop :=
  ∃ p q inc, τ.src.record n = some p ∧ τ.dst.record n = some q ∧ q.life.inc = some inc ∧
    τ.src.actor.pm.spawned ≤ inc.serial

/-- The record is still there, and the step neither restarts it nor delivers it a stale change. -/
structure Undisturbed (n : String) (w : World) (e : Event) : Prop where
  present : (w.record n).isSome = true
  noRestart : ¬ RestartFor n w e
  noStale : ¬ StaleWatch n w e

variable {w w' : World}

/-- Nothing that is not a restart or a stale change sets a settled record up for a respawn. -/
theorem not_revives {n : String} {e : Event} (hs : Sound w.books w.actor.holdings)
    (hn : ∀ p, w.record n = some p → p.life.Settled) (hquiet : Undisturbed n w e)
    (reason : RespawnReason) : ¬ e.revives w n reason := by
  intro h
  unfold Event.revives at h
  split at h
  · obtain ⟨-, hfind⟩ := h
    exact hquiet.noRestart ⟨_, _, _, rfl, hfind⟩
  · obtain ⟨rfl, -, p, code, inc, hp, -, hl⟩ := h
    -- a natural exit still holds its leader
    have hzombie := ((hs.records _ p hp).zombie code _ inc true hl).mpr (.inl rfl)
    rcases hl ▸ hn _ hp with ⟨_, _, he⟩ | ⟨_, _, _, he⟩
    · exact Life.noConfusion he
    · rw [(Life.exited.inj he).2.2.1] at hzombie
      exact absurd hzombie (by simp)
  · obtain ⟨rfl, -, hall, p, hp, hgen, hstop, hmanual⟩ := h
    rcases hn _ hp with ⟨_, _, hl⟩ | ⟨code, why, timer, hl⟩
    · rw [hl] at hstop
      exact absurd hstop (by simp)
    · have hzombie := (hs.records _ p hp).zombie code why none timer hl
      cases why with
      | natural => exact absurd (hzombie.mpr (.inl rfl)) (by simp)
      | exhausted => exact absurd (hzombie.mpr (.inr rfl)) (by simp)
      | manual => exact hmanual code none timer hl
      | spawnFailed => exact hquiet.noStale ⟨_, _, p, code, none, timer, rfl, hall, hp, hgen, hl⟩
  · exact h

/-- A record that is there is not created. -/
theorem not_launches_fresh {n : String} {e : Event} (hn : (w.record n).isSome = true) :
    ¬ e.launches w n .fresh := by
  intro h
  unfold Event.launches at h
  split at h
  · rw [World.record, h.2.2] at hn
    exact absurd hn (by simp)
  · exact absurd h.1 (by simp)
  · exact h

/-- **One undisturbed step** leaves a settled record settled. -/
theorem settled_step {n : String} {e : Event} (hs : Sound w.books w.actor.holdings)
    (hn : ∀ p, w.record n = some p → p.life.Settled) (hquiet : Undisturbed n w e)
    (hstep : Step w e w') : ∀ p, w'.record n = some p → p.life.Settled :=
  (step_moves hs hstep).settled (not_revives hs hn hquiet) (not_launches_fresh hquiet.present) hn

/-- A step that leaves the record settled spawns nothing into it. -/
theorem not_spawnsInto {n : String} {e : Event}
    (hn : ∀ p, w'.record n = some p → p.life.Settled) : ¬ SpawnsInto n ⟨w, e, w'⟩ := by
  rintro ⟨p, q, inc, -, hq, hinc, -⟩
  rcases hn q hq with ⟨_, _, hl⟩ | ⟨_, _, _, hl⟩ <;>
    · rw [hl] at hinc
      exact absurd hinc (by simp)

/-- **A stop settles its record.** -/
theorem settled_receive_stop {os : Os} {target : String} {reply : Reply} {p : ManagedProcess}
    (hfind : w.actor.pm.find target = some p) :
    ∀ q, (w.receive os (.stop target reply)).record p.name = some q → q.life.Settled := by
  have hfind' : (w.actor.refresh os).pm.find target = some (p.observeExit os) := by
    rw [Actor.refresh, ProcessManager.find_refreshExitStates, hfind]
    rfl
  have hp := ProcessManager.lookup_of_find hfind'
  rw [← p.observeExit_name os]
  generalize p.observeExit os = p at hfind' hp
  intro q hq
  change (w.actor.handleStop os target reply).pm.processes.lookup p.name = some q at hq
  rw [Actor.handleStop, hfind'] at hq
  dsimp only at hq
  have hstart (hlife : p.life.isStopping = false) (h : ((w.actor.refresh os).startTeardown p.name
      .park (some (.stop reply))).pm.processes.lookup p.name = some q) : q.life.Settled := by
    have hprocs : ((w.actor.refresh os).startTeardown p.name .park
        (some (.stop reply))).pm.processes = _ :=
      congrArg Holdings.processes (Actor.holdings_startTeardown hp hlife .park (some (.stop reply)))
    rw [hprocs] at h
    obtain rfl := Option.some.inj ((Table.lookup_update_of _ _ hp).symm.trans h)
    exact .inl ⟨_, _, rfl⟩
  cases hl : p.life with
  | running inc =>
    rw [hl] at hq
    exact hstart (by rw [hl]; rfl) hq
  | stopping leaderExit andThen ws =>
    rw [hl] at hq
    obtain rfl := Option.some.inj ((Table.lookup_update_of (ManagedProcess.withLife _)
      (ManagedProcess.withLife_name _) hp).symm.trans hq)
    exact .inl ⟨_, _, rfl⟩
  | exited code why inc timer =>
    rw [hl] at hq
    cases inc with
    | some inc => exact hstart (by rw [hl]; rfl) hq
    | none =>
      have hafter := Actor.lookup_update hp (fun p => { p with watchHandle := none }) fun _ => rfl
      obtain rfl := Option.some.inj (hafter.symm.trans hq)
      exact .inr ⟨_, _, _, hl⟩

/-- **A manual stop sticks** in every run that does not deliver a stale file change: after a `Stop`
for the record, and as long as the record is there and no `Restart` for it is received, nothing is
spawned into it. -/
theorem manualStop_sticks {os : Os} {target : String} {reply : Reply} {p : ManagedProcess}
    {ts : List (Transition World Event)} {u : World} (hw : daemon.Reachable w)
    (hstop : Step w (.client os (.stop target reply)) w')
    (hfind : w.actor.pm.find target = some p)
    (hrun : (daemon.guarded (Undisturbed p.name)).Run w' ts u) :
    ∀ τ ∈ ts, ¬ SpawnsInto p.name τ := by
  have hw' : daemon.Reachable w' := hw.step hstop
  have hsettled : ∀ q, w'.record p.name = some q → q.life.Settled := by
    cases hstop
    exact settled_receive_stop hfind
  suffices h : (∀ q, u.record p.name = some q → q.life.Settled) ∧ ∀ τ ∈ ts, ¬ SpawnsInto p.name τ
    from h.2
  induction hrun with
  | refl => exact ⟨hsettled, fun τ hτ => absurd hτ List.not_mem_nil⟩
  | @snoc ts s t e hrun hstep ih =>
    have hs := sound_of_reachable (hw'.run hrun.of_guarded.1)
    have ht := settled_step hs ih.1 hstep.2 hstep.1
    refine ⟨ht, fun τ hτ => ?_⟩
    rcases List.mem_append.mp hτ with hold | hlast
    · exact ih.2 τ hold
    · obtain rfl := List.mem_singleton.mp hlast
      exact not_spawnsInto ht

namespace Stopped

/-- A watched process, one of whose files has changed. -/
def changed : World :=
  ((World.new "s").receive (.quiet 7)
    (.spawn "srv" (some "web") none none none none (some ⟨["src"], none⟩) 0)).fileChanged ⟨"web", 1⟩

def stopping : World := changed.receive (.quiet 8) (.stop "web" 1)

def vacated : World := stopping.finish ⟨"web", 1, some ⟨0, 7⟩, none⟩ (some 0)

def parked : World := vacated.deliver (.quiet 8) (.stopFinished "web" 1 (some 0))

/-- The change arrives, and is refused. -/
def refused : World := parked.deliver (.quiet 8) (.watchRestart "web" 1)

/-- All that happens after the stop. -/
def afterwards : List (Transition World Event) :=
  [⟨stopping, .teardownDone ⟨"web", 1, some ⟨0, 7⟩, none⟩ (some 0), vacated⟩,
    ⟨vacated, .deliver (.quiet 8) (.stopFinished "web" 1 (some 0)), parked⟩,
    ⟨parked, .deliver (.quiet 8) (.watchRestart "web" 1), refused⟩]

/-- The record that is stopped. -/
def web : ManagedProcess where
  name := "web"
  id := "p1"
  command := "srv"
  cwd := none
  env := []
  pid := 7
  startedAt := 0
  port := none
  restartPolicy := none
  watchConfig := some ⟨["src"], none⟩
  restartCount := 0
  generation := 1
  life := .running ⟨0, 7⟩
  watchHandle := some ⟨"web", 1⟩

theorem life_parked {p : ManagedProcess} (hp : parked.record "web" = some p) :
    p.life = .exited (some 0) .manual none false := by
  have hlife : (parked.record "web").map (·.life) = some (.exited (some 0) .manual none false) := by
    decide
  rw [hp] at hlife
  exact Option.some.inj hlife

end Stopped

/-- So it is for a watched process stopped while it runs, though one of its files had changed. -/
theorem manualStop_sticks_running : ¬ ∃ τ ∈ Stopped.afterwards, SpawnsInto "web" τ := by
  have hspawned : daemon.Reachable ((World.new "s").receive (.quiet 7) (.spawn "srv" (some "web")
      none none none none (some ⟨["src"], none⟩) 0)) :=
    World.reachable_receive (World.reachable_new "s") rfl rfl
  have hw : daemon.Reachable Stopped.changed :=
    hspawned.step (M := daemon) (Step.fileChanged (List.mem_singleton_self _))
  have hstop : Step Stopped.changed (.client (.quiet 8) (.stop "web" 1)) Stopped.stopping :=
    .client rfl rfl
  have hvacate : (daemon.guarded (Undisturbed "web")).step Stopped.stopping
      (.teardownDone ⟨"web", 1, some ⟨0, 7⟩, none⟩ (some 0)) Stopped.vacated :=
    ⟨.teardownDone (List.mem_singleton_self _) trivial, by decide,
      fun ⟨_, _, _, he, _⟩ => Event.noConfusion he,
      fun ⟨_, _, _, _, _, _, he, _⟩ => Event.noConfusion he⟩
  have hpark : (daemon.guarded (Undisturbed "web")).step Stopped.vacated
      (.deliver (.quiet 8) (.stopFinished "web" 1 (some 0))) Stopped.parked :=
    ⟨.deliver rfl (by decide), by decide, fun ⟨_, _, _, he, _⟩ => Event.noConfusion he,
      fun ⟨_, _, _, _, _, _, he, _⟩ => by cases he⟩
  have hrefuse : (daemon.guarded (Undisturbed "web")).step Stopped.parked
      (.deliver (.quiet 8) (.watchRestart "web" 1)) Stopped.refused := by
    refine ⟨.deliver rfl (by decide), by decide, fun ⟨_, _, _, he, _⟩ => Event.noConfusion he, ?_⟩
    rintro ⟨_, _, p, _, _, _, -, -, hp, -, hl⟩
    exact absurd ((Stopped.life_parked hp).symm.trans hl) (by simp)
  rintro ⟨τ, hτ, hspawns⟩
  exact manualStop_sticks hw hstop (p := Stopped.web) rfl
    (((Machine.Run.refl.snoc hvacate).snoc hpark).snoc hrefuse) τ hτ hspawns

/-! ## The stale change -/

/-- What a manual stop promises, as documented. -/
def StopSticks : Prop :=
  ∀ (w w' u : World) (os : Os) (target : String) (reply : Reply) (p : ManagedProcess)
    (ts : List (Transition World Event)), daemon.Reachable w →
    Step w (.client os (.stop target reply)) w' → w.actor.pm.find target = some p →
    (reply, .response (stopped p.name)) ∈ w'.actor.answers → daemon.Run w' ts u →
    (∀ τ ∈ ts, (τ.src.record p.name).isSome = true ∧ ¬ RestartFor p.name τ.src τ.ev) →
    ∀ τ ∈ ts, ¬ SpawnsInto p.name τ

namespace StaleChange

/-- A watched process whose files change twice. -/
def changed : World :=
  (((World.new "s").receive (.quiet 7)
    (.spawn "srv" (some "web") none none none none (some ⟨["src"], none⟩) 0)).fileChanged
      ⟨"web", 1⟩).fileChanged ⟨"web", 1⟩

/-- The first change tears it down, and the respawn fails. -/
def failed : World :=
  ((changed.deliver (.quiet 8) (.watchRestart "web" 1)).finish ⟨"web", 1, some ⟨0, 7⟩, none⟩
    (some 0)).deliver { Os.quiet 8 with spawn := .error "spawn failed" }
      (.stopFinished "web" 1 (some 0))

/-- The record it leaves behind. -/
def broken : ManagedProcess where
  name := "web"
  id := "p1"
  command := "srv"
  cwd := none
  env := []
  pid := 0
  startedAt := 0
  port := none
  restartPolicy := none
  watchConfig := some ⟨["src"], none⟩
  restartCount := 0
  generation := 1
  life := .exited (some 0) .spawnFailed none false
  watchHandle := none

/-- The stop is answered at once: no incarnation is left to tear down. -/
def halted : World := failed.receive (.quiet 8) (.stop "web" 1)

/-- The second change arrives. -/
def woken : World := halted.deliver (.quiet 8) (.watchRestart "web" 1)

def vacated : World := woken.finish ⟨"web", 1, none, some (some 0)⟩ (some 0)

def respawned : World := vacated.deliver (.quiet 8) (.stopFinished "web" 1 (some 0))

theorem reachable_failed : daemon.Reachable failed := by
  have hspawned : daemon.Reachable ((World.new "s").receive (.quiet 7) (.spawn "srv" (some "web")
      none none none none (some ⟨["src"], none⟩) 0)) :=
    World.reachable_receive (World.reachable_new "s") rfl rfl
  have hchanged : daemon.Reachable changed :=
    (hspawned.step (M := daemon) (Step.fileChanged (List.mem_singleton_self _))).step
      (M := daemon) (Step.fileChanged (List.mem_singleton_self _))
  exact World.reachable_deliver (World.reachable_finish
    (World.reachable_deliver hchanged rfl (by decide)) (by decide) trivial) rfl (by decide)

end StaleChange

/-- **A stale file change undoes a stop**: the process is running again, and nobody asked. -/
theorem not_stopSticks : ¬ StopSticks := by
  intro h
  have hstop : Step StaleChange.failed (.client (.quiet 8) (.stop "web" 1)) StaleChange.halted :=
    .client rfl rfl
  have hfind : StaleChange.failed.actor.pm.find "web" = some StaleChange.broken := by decide
  have hwake : Step StaleChange.halted (.deliver (.quiet 8) (.watchRestart "web" 1))
      StaleChange.woken := .deliver rfl (by decide)
  have hvacate : Step StaleChange.woken (.teardownDone ⟨"web", 1, none, some (some 0)⟩ (some 0))
      StaleChange.vacated := .teardownDone (by decide) rfl
  have hrespawn : Step StaleChange.vacated (.deliver (.quiet 8) (.stopFinished "web" 1 (some 0)))
      StaleChange.respawned := .deliver rfl (by decide)
  have hrun : daemon.Run StaleChange.halted _ StaleChange.respawned :=
    ((Machine.Run.refl.snoc hwake).snoc hvacate).snoc hrespawn
  refine h _ _ _ _ _ _ _ _ StaleChange.reachable_failed hstop hfind (by decide) hrun ?_ _
    (List.mem_append_right _ (List.mem_singleton_self _)) ?_
  · intro τ hτ
    simp only [List.nil_append, List.cons_append, List.mem_cons, List.not_mem_nil, or_false] at hτ
    rcases hτ with rfl | rfl | rfl
    · exact ⟨by decide, fun ⟨_, _, _, he, _⟩ => Event.noConfusion he⟩
    · exact ⟨by decide, fun ⟨_, _, _, he, _⟩ => Event.noConfusion he⟩
    · exact ⟨by decide, fun ⟨_, _, _, he, _⟩ => Event.noConfusion he⟩
  · have hlater : (StaleChange.respawned.record "web").bind (·.life.inc) = some ⟨1, 8⟩ := by decide
    obtain ⟨q, hq, hinc⟩ := Option.bind_eq_some_iff.mp hlater
    have hrecord : (StaleChange.vacated.record "web").isSome = true := by decide
    obtain ⟨p, hp⟩ := Option.isSome_iff_exists.mp hrecord
    exact ⟨p, q, ⟨1, 8⟩, hp, hq, hinc, by decide⟩

end AgentProcs
