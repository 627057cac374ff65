import AgentProcs.Supervision.Eventually
import AgentProcs.Supervision.Verdicts

/-!
# Supervision/FollowUp — a crash is followed up

    crashed ──tick──▸ timed, AutoRestart under way ──delivered──▸ stopping, to be respawned ──report──▸ respawned
                         changed, WatchRestart under way ──delivered──▸

In a fair run in which the clock goes on ticking, a leader that has died and that its policy wants
back is respawned at last, and so is one whose files have changed; unless somebody asks for its stop
first.
-/

namespace AgentProcs

variable {w w' : World} {ev : Event} {n : String} {g : ℕ}

/-- A tick at which no `waitid` fails. -/
def Event.Sees : Event → Prop
  | .tick os => ∀ inc, os.waitidFails inc = false
  | _ => False

/-- The leader of this record has died, noticed or not, and no timer is set yet; its policy wants a
restart after this exit, and some of its budget is left. -/
structure ManagedProcess.Crashed (exits : Incarnation → Option (Option ℤ)) (code : Option ℤ)
    (p : ManagedProcess) : Prop where
  died : ∃ inc, p.life = .running inc ∧ exits inc = some code ∨
    p.life = .exited code .natural (some inc) false
  wanted : ∃ policy, p.restartPolicy = some policy ∧ policy.mode.shouldRestart code = true
  left : p.budgetSpent = false

/-- Its restart timer is set. -/
def ManagedProcess.TimerSet (p : ManagedProcess) : Prop :=
  ∃ code inc, p.life = .exited code .natural (some inc) true

/-- It is being torn down, to be respawned. -/
def ManagedProcess.ToRespawn (p : ManagedProcess) : Prop :=
  ∃ leaderExit reason ws, p.life = .stopping leaderExit (.respawn reason) ws

/-- The record `n`, at this generation, is so. -/
def World.At (P : ManagedProcess → Prop) (n : String) (g : ℕ) (w : World) : Prop :=
  ∃ p, w.record n = some p ∧ p.generation = g ∧ P p

/-- This step is the attempt to respawn it. -/
def Respawns (n : String) (g : ℕ) (w : World) (ev : Event) (w' : World) : Prop :=
  ∃ os code p q resp, ev = .deliver os (.stopFinished n g code) ∧ w.record n = some p ∧
    w'.record n = some q ∧ p.Respawned os.spawn w.actor.pm resp q

/-- Somebody asks for its stop, or it is respawned. -/
def FollowedUp (n : String) (g : ℕ) (w : World) (ev : Event) (w' : World) : Prop :=
  w.At (fun _ => True) n g ∧ (¬ev.Spares w n ∨ Respawns n g w ev w')

theorem World.At.imp {P Q : ManagedProcess → Prop} (h : w.At P n g) (hPQ : ∀ p, P p → Q p) :
    w.At Q n g := by
  obtain ⟨p, hp, hgen, hP⟩ := h
  exact ⟨p, hp, hgen, hPQ p hP⟩

theorem World.At.spares {P : ManagedProcess → Prop} (h : w.At P n g)
    (hnot : ¬FollowedUp n g w ev w') : ev.Spares w n := by
  by_contra hasked
  exact hnot ⟨h.imp fun _ _ => trivial, .inl hasked⟩

/-! ## To be respawned -/

theorem ManagedProcess.ToRespawn.isStopping {p : ManagedProcess} (h : p.ToRespawn) :
    p.life.isStopping = true := by
  obtain ⟨leaderExit, reason, ws, hl⟩ := h
  rw [hl]
  rfl

theorem World.At.stops (h : w.At ManagedProcess.ToRespawn n g) : w.Stops n g := by
  obtain ⟨p, hp, hgen, hl⟩ := h
  exact ⟨p, hp, hgen, hl.isStopping⟩

/-- What is accepted for a record is a stop, or a restart. -/
theorem commands_cases (ev : Event) (w : World) (n : String) :
    ev.commands w n = none ∨ ∃ waiter, ev.commands w n = some (.park, waiter) ∨
      ev.commands w n = some (.respawn .manual, waiter) := by
  cases ev with
  | client os cmd =>
    cases cmd with
    | stop target reply =>
      by_cases h : w.actor.targets target n = true
      · exact .inr ⟨_, .inl (if_pos h)⟩
      · exact .inl (if_neg h)
    | restart target reply =>
      by_cases h : (w.actor.stopAll.isNone && w.actor.targets target n) = true
      · exact .inr ⟨_, .inr (if_pos h)⟩
      · exact .inl (if_neg h)
    | stopAll => exact .inr ⟨none, .inl rfl⟩
    | _ => exact .inl rfl
  | _ => exact .inl rfl

theorem toRespawn_step (hs : Sound w.books w.actor.holdings) (hstep : Step w ev w')
    (h : w.At ManagedProcess.ToRespawn n g) (hspares : ev.Spares w n) (hno : ¬ev.ReportsFor n g) :
    w'.At ManagedProcess.ToRespawn n g := by
  have hquiet := h.stops.not_reports hs hstep hno
  obtain ⟨p, hp, hgen, hl⟩ := h
  refine ⟨_, record_obeys hs hstep hquiet hp hl.isStopping, ?_, ?_⟩
  · rw [ManagedProcess.generation_obey, hgen]
  · obtain ⟨leaderExit, reason, ws, hl⟩ := hl
    rcases commands_cases ev w n with h | ⟨waiter, h | h⟩
    · rw [h]
      exact ⟨leaderExit, reason, ws, hl⟩
    · exact absurd h (hspares waiter)
    · rw [h]
      exact ⟨leaderExit, .manual, ws ++ waiter.toList, by rw [ManagedProcess.obey, hl]; rfl⟩

theorem respawns_of_report (hw : daemon.Reachable w) (hstep : Step w ev w')
    (h : w.At ManagedProcess.ToRespawn n g) (hreport : ev.ReportsFor n g) :
    Respawns n g w ev w' := by
  obtain ⟨os, code, p, leaderExit, andThen, ws, rfl, hp, rfl, hl⟩ := h.stops.reported hreport
  obtain ⟨p', hp', -, leaderExit', reason, ws', hl'⟩ := h
  obtain rfl := Option.some.inj (hp.symm.trans hp')
  obtain ⟨q, resp, hq, hrespawned, -⟩ :=
    (lastWins_of_report hw hstep hp hl').respawned reason rfl
  exact ⟨os, code, p, q, resp, rfl, hp, hq, hrespawned⟩

theorem Fair.leadsTo_of_toRespawn {s : ℕ → World} {e : ℕ → Event} (hf : Fair s e) (n : String)
    (g : ℕ) : LeadsTo (fun i => (s i).At ManagedProcess.ToRespawn n g)
      fun i => FollowedUp n g (s i) (e i) (s (i + 1)) := by
  refine hf.leadsTo_of_stops (fun i hi => hi.stops) (fun i hi hreport => ?_)
    fun i hi hnot hno => toRespawn_step (sound_of_reachable (hf.run.reachable i)) (hf.run.step i)
      hi (hi.spares hnot) hno
  exact ⟨hi.imp fun _ _ => trivial, .inr (respawns_of_report (hf.run.reachable i) (hf.run.step i)
    hi hreport)⟩

/-! ## A restart that is under way -/

/-- A restart that the daemon sends itself: it hands over the records that satisfy `P`. -/
structure HandsOver (cmd : PmCommand) (P : ManagedProcess → Prop) (n : String) (g : ℕ) : Prop where
  keeps : ∀ os p, P p → P (p.observeExit os) ∧ P (p.observeExit os).verdict
  alive : ∀ p, P p → p.life.inc.isSome = true
  delivered : ∀ w os w', Sound w.books w.actor.holdings → Step w (.deliver os cmd) w' →
    w.At P n g → w'.At ManagedProcess.ToRespawn n g

/-- What it waits for lasts, or is handed over by somebody else. -/
theorem HandsOver.step {cmd : PmCommand} {P : ManagedProcess → Prop} (h : HandsOver cmd P n g)
    (hs : Sound w.books w.actor.holdings) (hstep : Step w ev w') (hat : w.At P n g)
    (hspares : ev.Spares w n) : w'.At P n g ∨ w'.At ManagedProcess.ToRespawn n g := by
  obtain ⟨p, hp, rfl, hP⟩ := hat
  obtain ⟨q, hq, hleft⟩ := left_step hs hstep hp (h.alive p hP) hspares
  cases hleft with
  | same => exact .inl ⟨p, hq, rfl, hP⟩
  | seen => exact .inl ⟨_, hq, p.observeExit_generation _, (h.keeps _ p hP).1⟩
  | judged =>
    refine .inl ⟨_, hq, ?_, (h.keeps _ p hP).2⟩
    rw [ManagedProcess.verdict_generation, ManagedProcess.observeExit_generation]
  | handed hgen hlife => exact .inr ⟨q, hq, hgen, _, _, _, hlife⟩

/-- **A restart that is under way is followed up.** -/
theorem Fair.leadsTo_of_handsOver {s : ℕ → World} {e : ℕ → Event} (hf : Fair s e) {cmd : PmCommand}
    {P : ManagedProcess → Prop} (h : HandsOver cmd P n g) :
    LeadsTo (fun i => (s i).At P n g ∧ cmd ∈ (s i).actor.inFlight)
      fun i => FollowedUp n g (s i) (e i) (s (i + 1)) := by
  have hhanded : LeadsTo (fun i => (s i).At P n g ∧ cmd ∈ (s i).actor.inFlight) fun i =>
      FollowedUp n g (s i) (e i) (s (i + 1)) ∨ (s (i + 1)).At ManagedProcess.ToRespawn n g := by
    refine (hf.commands cmd).leadsTo (fun i hi => ?_) (fun i hi hdelivers => ?_)
      fun i hi hnot hno => ?_
    · exact ⟨.deliver { Os.quiet 0 with exits := (s i).exits } cmd, _, rfl, .deliver rfl hi.2⟩
    · have hstep := hf.run.step i
      cases hev : e i with
      | deliver os cmd' =>
        rw [hev] at hdelivers hstep
        obtain rfl : cmd' = cmd := hdelivers
        exact .inr (h.delivered _ os _ (sound_of_reachable (hf.run.reachable i)) hstep hi.1)
      | _ => exact (hev ▸ hdelivers).elim
    · have hspares := hi.1.spares fun hdone => hnot (.inl hdone)
      rcases h.step (sound_of_reachable (hf.run.reachable i)) (hf.run.step i) hi.1 hspares with
        hat | hhanded
      · exact ⟨hat, inFlight_step (hf.run.step i) hi.2 hno⟩
      · exact absurd (.inr hhanded) hnot
  refine hhanded.trans (.or (.of_imp fun _ => id) ?_)
  exact (LeadsTo.next (Q := fun i => (s i).At ManagedProcess.ToRespawn n g)).trans
    (hf.leadsTo_of_toRespawn n g)

/-! ## The two kinds -/

theorem ManagedProcess.TimerSet.verdict {p : ManagedProcess} (h : p.TimerSet) : p.verdict = p := by
  obtain ⟨code, inc, hl⟩ := h
  rw [ManagedProcess.verdict, if_neg (by simp [ManagedProcess.restartDue, hl])]

section

variable {a : Actor} {p : ManagedProcess}

/-- Its teardown begins. -/
theorem toRespawn_startTeardown (reason : RespawnReason) (count : ℕ → ℕ)
    (hp : a.pm.processes.lookup n = some p) (hidle : p.life.isStopping = false) :
    ∃ q, ((a.update n fun p => { p with restartCount := count p.restartCount }).startTeardown n
      (.respawn reason) none).pm.processes.lookup n = some q ∧ q.generation = p.generation ∧
      q.ToRespawn := by
  have hcharged := Actor.lookup_update hp
    (fun p => { p with restartCount := count p.restartCount }) fun _ => rfl
  refine ⟨_, (Actor.lookup_startTeardown hcharged hidle _ _ n).trans (if_pos rfl), rfl, ?_⟩
  exact ⟨_, reason, _, rfl⟩

theorem toRespawn_handleAutoRestart (hbatch : a.stopAll = none)
    (hp : a.pm.processes.lookup p.name = some p) (h : p.TimerSet) :
    ∃ q, (a.handleAutoRestart p.name p.generation).pm.processes.lookup p.name = some q ∧
      q.generation = p.generation ∧ q.ToRespawn := by
  obtain ⟨code, inc, hl⟩ := h
  have hidle : p.life.isStopping = false := by rw [hl]; rfl
  rw [Actor.handleAutoRestart, if_neg (by simp [hbatch]), ProcessManager.find_of_lookup hp]
  dsimp only
  rw [if_pos rfl, hl]
  exact toRespawn_startTeardown .auto (· + 1) hp hidle

theorem toRespawn_handleWatchRestart (hbatch : a.stopAll = none)
    (hp : a.pm.processes.lookup p.name = some p) (hidle : p.life.isStopping = false)
    (hwanted : ∀ code inc timer, p.life ≠ .exited code .manual inc timer) :
    ∃ q, (a.handleWatchRestart p.name p.generation).pm.processes.lookup p.name = some q ∧
      q.generation = p.generation ∧ q.ToRespawn := by
  rw [Actor.handleWatchRestart, if_neg (by simp [hbatch]), ProcessManager.find_of_lookup hp]
  dsimp only
  rw [if_pos rfl]
  split
  · rename_i hl
    exact absurd hidle (by simp [hl])
  · rename_i hl
    exact absurd hl (hwanted _ _ _)
  · exact toRespawn_startTeardown .watch (fun _ => 0) hp hidle

end

/-- The timer's restart. -/
theorem handsOver_autoRestart (n : String) (g : ℕ) :
    HandsOver (.autoRestart n g) ManagedProcess.TimerSet n g where
  keeps os p h := by
    obtain ⟨code, inc, hl⟩ := id h
    have hsame := ManagedProcess.observeExit_of_not_running os (p := p) (by simp [hl])
    rw [hsame, h.verdict]
    exact ⟨h, h⟩
  alive p h := by
    obtain ⟨code, inc, hl⟩ := h
    rw [hl]
    rfl
  delivered w os w' hs hstep h := by
    obtain ⟨p, hp, rfl, htimer⟩ := h
    obtain rfl := Table.key_eq hp
    have hbatch : w.actor.stopAll = none := by
      obtain ⟨code, inc, hl⟩ := htimer
      exact hs.no_batch hp (hl ▸ Life.not_settled_zombie)
    cases hstep with
    | deliver => exact toRespawn_handleAutoRestart (a := (w.take _).actor) hbatch hp htimer

/-- A watcher's. -/
theorem handsOver_watchRestart (n : String) (g : ℕ) :
    HandsOver (.watchRestart n g) (fun p => p.life.inc.isSome = true) n g where
  keeps os p h := by
    rw [ManagedProcess.verdict_inc, ManagedProcess.observeExit_inc]
    exact ⟨h, h⟩
  alive _ h := h
  delivered w os w' hs hstep h := by
    obtain ⟨p, hp, rfl, hinc⟩ := h
    obtain rfl := Table.key_eq hp
    have hbatch : w.actor.stopAll = none := hs.no_batch hp (not_settled_of_inc hinc)
    have hwanted : ∀ code inc timer, p.life ≠ .exited code .manual inc timer := by
      intro code inc timer hl
      rw [hl] at hinc
      rcases ((hs.records p.name p hp).zombie _ _ _ _ hl).mp hinc with h | h <;> cases h
    cases hstep with
    | deliver =>
      exact toRespawn_handleWatchRestart (a := (w.take _).actor) hbatch hp
        (not_stopping_of_inc hinc) hwanted

/-! ## A crash -/

/-- A crash that has been noticed is due, with budget left. -/
theorem ManagedProcess.Crashed.restartDue {exits : Incarnation → Option (Option ℤ)}
    {code : Option ℤ} {p : ManagedProcess} (h : p.Crashed exits code) {inc : Incarnation}
    (hl : p.life = .exited code .natural (some inc) false) : p.restartDue = true := by
  obtain ⟨policy, hpolicy, hwanted⟩ := h.wanted
  rw [ManagedProcess.restartDue, hl, hpolicy]
  exact hwanted

/-- What has exited stays so. -/
theorem exits_step {inc : Incarnation} {code : Option ℤ} (hstep : Step w ev w')
    (h : w.exits inc = some code) : w'.exits inc = some code := by
  cases hstep with
  | @exit inc' code' _ hrunning =>
    have hne : inc ≠ inc' := fun he => absurd (hrunning.symm.trans (he ▸ h)) (by simp)
    exact (Function.update_of_ne hne _ _).trans h
  | _ => exact h

namespace ManagedProcess.Crashed

variable {exits : Incarnation → Option (Option ℤ)} {code : Option ℤ} {p : ManagedProcess} {os : Os}

theorem alive (h : p.Crashed exits code) : p.life.inc.isSome = true := by
  obtain ⟨inc, ⟨hl, -⟩ | hl⟩ := h.died
  · rw [hl]
    rfl
  · rw [hl]
    rfl

/-- Looking at it notices it, or changes nothing. -/
theorem observeExit (h : p.Crashed exits code) (hos : os.exits = exits) :
    (p.observeExit os).Crashed exits code := by
  rcases p.observeExit_cases os with hsame | ⟨inc, code', hl, hpeek, hseen⟩
  · rwa [hsame]
  · have hexit : exits inc = some code := by
      obtain ⟨inc', ⟨hl', hexit⟩ | hl'⟩ := h.died
      · obtain rfl := Life.running.inj (hl.symm.trans hl')
        exact hexit
      · exact Life.noConfusion (hl.symm.trans hl')
    obtain rfl : code' = code := by
      rw [Os.peekExit, hos, hexit] at hpeek
      split at hpeek
      · exact absurd hpeek (by simp)
      · exact (Option.some.inj hpeek).symm
    rw [hseen]
    exact ⟨⟨inc, .inr rfl⟩, h.wanted, h.left⟩

/-- It is noticed, unless the `waitid` fails. -/
theorem noticed (h : p.Crashed exits code) (hos : os.exits = exits)
    (hsees : ∀ inc, os.waitidFails inc = false) :
    ∃ inc, (p.observeExit os).life = .exited code .natural (some inc) false := by
  obtain ⟨inc, ⟨hl, hexit⟩ | hl⟩ := h.died
  · have hseen : p.exitSeen os = some code := by
      rw [ManagedProcess.exitSeen, hl]
      exact (if_neg (by simp [hsees])).trans (hos ▸ hexit)
    refine ⟨inc, ?_⟩
    rw [ManagedProcess.observeExit, hseen, hl]
    rfl
  · rw [ManagedProcess.observeExit_of_not_running os (by simp [hl])]
    exact ⟨inc, hl⟩

/-- Once it has been noticed, the tick sets its timer. -/
theorem timerSet (h : p.Crashed exits code) {inc : Incarnation}
    (hl : p.life = .exited code .natural (some inc) false) : p.verdict.TimerSet := by
  rw [ManagedProcess.verdict, if_pos (h.restartDue hl), if_neg (by simp [h.left]),
    ManagedProcess.timed, hl]
  exact ⟨code, inc, rfl⟩

end ManagedProcess.Crashed

/-- The record `n` has crashed, with this code. -/
def World.Crashed (code : Option ℤ) (n : String) (g : ℕ) (w : World) : Prop :=
  w.At (·.Crashed w.exits code) n g

/-- Its restart is under way. -/
def World.Timed (n : String) (g : ℕ) (w : World) : Prop :=
  w.At ManagedProcess.TimerSet n g ∧ .autoRestart n g ∈ w.actor.inFlight

variable {code : Option ℤ}

theorem ManagedProcess.Crashed.step {p : ManagedProcess} (h : p.Crashed w.exits code)
    (hstep : Step w ev w') : p.Crashed w'.exits code := by
  obtain ⟨inc, hdied⟩ := h.died
  exact ⟨⟨inc, hdied.imp_left fun hrun => ⟨hrun.1, exits_step hstep hrun.2⟩⟩, h.wanted, h.left⟩

theorem exits_of_tick {os : Os} (hstep : Step w (.tick os) w') : os.exits = w.exits := by
  cases hstep with
  | tick hos => exact hos

/-- **A tick** that sees a crash sets the timer. -/
theorem timed_of_tick {os : Os} (hs : Sound w.books w.actor.holdings)
    (hstep : Step w (.tick os) w') (h : w.Crashed code n g) {inc : Incarnation} {p : ManagedProcess}
    (hp : w.record n = some p)
    (hl : (p.observeExit os).life = .exited code .natural (some inc) false) : w'.Timed n g := by
  obtain ⟨p', hp', rfl, hcrashed⟩ := h
  obtain rfl := Option.some.inj (hp.symm.trans hp')
  cases hstep with
  | tick hos =>
    have hbatch := hs.no_batch hp (not_settled_of_inc hcrashed.alive)
    have hseen := hcrashed.observeExit hos
    refine ⟨⟨_, (Actor.lookup_tick os hbatch n).trans (congrArg (Option.map _) hp), ?_,
      hseen.timerSet hl⟩, Actor.mem_inFlight_tick os hbatch hp (hseen.restartDue hl) hseen.left⟩
    rw [ManagedProcess.verdict_generation, ManagedProcess.observeExit_generation]

/-- A crash lasts, until its timer is set or somebody restarts it. -/
theorem crashed_step (hs : Sound w.books w.actor.holdings) (hstep : Step w ev w')
    (h : w.Crashed code n g) (hspares : ev.Spares w n) :
    w'.Crashed code n g ∨ w'.Timed n g ∨ w'.At ManagedProcess.ToRespawn n g := by
  obtain ⟨p, hp, rfl, hcrashed⟩ := id h
  obtain ⟨q, hq, hleft⟩ := left_step hs hstep hp hcrashed.alive hspares
  cases hleft with
  | same => exact .inl ⟨p, hq, rfl, hcrashed.step hstep⟩
  | seen hos =>
    exact .inl ⟨_, hq, p.observeExit_generation _, (hcrashed.observeExit hos).step hstep⟩
  | @judged os he hos =>
    subst he
    obtain ⟨inc, ⟨hl, -⟩ | hl⟩ := (hcrashed.observeExit hos).died
    · rw [ManagedProcess.verdict_of_running hl] at hq
      exact .inl ⟨_, hq, p.observeExit_generation _, (hcrashed.observeExit hos).step hstep⟩
    · exact .inr (.inl (timed_of_tick hs hstep h hp hl))
  | handed hgen hlife => exact .inr (.inr ⟨q, hq, hgen, _, _, _, hlife⟩)

/-- **A timer that is set is followed up.** -/
theorem Fair.leadsTo_of_timed {s : ℕ → World} {e : ℕ → Event} (hf : Fair s e) (n : String) (g : ℕ) :
    LeadsTo (fun i => (s i).Timed n g) fun i => FollowedUp n g (s i) (e i) (s (i + 1)) :=
  hf.leadsTo_of_handsOver (handsOver_autoRestart n g)

/-- **A crash is followed up**, where the clock goes on ticking. -/
theorem Fair.leadsTo_of_crashed {s : ℕ → World} {e : ℕ → Event} (hf : Fair s e)
    (hticks : daemon.FairTo s e Event.Sees) (code : Option ℤ) (n : String) (g : ℕ) :
    LeadsTo (fun i => (s i).Crashed code n g)
      fun i => FollowedUp n g (s i) (e i) (s (i + 1)) := by
  have hnoticed : LeadsTo (fun i => (s i).Crashed code n g) fun i =>
      FollowedUp n g (s i) (e i) (s (i + 1)) ∨ ((s (i + 1)).Timed n g ∨
        (s (i + 1)).At ManagedProcess.ToRespawn n g) := by
    refine hticks.leadsTo (fun i hi => ?_) (fun i hi hsees => ?_) fun i hi hnot _ => ?_
    · exact ⟨.tick { Os.quiet 0 with exits := (s i).exits }, _, fun _ => rfl, .tick rfl⟩
    · have hstep := hf.run.step i
      cases hev : e i with
      | tick os =>
        rw [hev] at hsees hstep
        obtain ⟨p, hp, hgen, hcrashed⟩ := id hi
        obtain ⟨inc, hl⟩ := hcrashed.noticed (exits_of_tick hstep) hsees
        exact .inr (.inl (timed_of_tick (sound_of_reachable (hf.run.reachable i)) hstep hi hp hl))
      | _ => exact (hev ▸ hsees).elim
    · have hspares := World.At.spares hi fun hdone => hnot (.inl hdone)
      rcases crashed_step (sound_of_reachable (hf.run.reachable i)) (hf.run.step i) hi hspares with
        hcrashed | hafter
      · exact hcrashed
      · exact absurd (.inr hafter) hnot
  refine hnoticed.trans (.or (.of_imp fun _ => id) ?_)
  exact (LeadsTo.next (Q := fun i => (s i).Timed n g ∨
    (s i).At ManagedProcess.ToRespawn n g)).trans (.or (hf.leadsTo_of_timed n g)
      (hf.leadsTo_of_toRespawn n g))

/-- **What is due is done**: in every fair run in which the clock goes on ticking, a record whose
leader has crashed within its budget, or whose timer or whose changed files have sent for its
restart, is respawned at that place or a later one, unless somebody asks for its stop before. -/
theorem followed_up {s : ℕ → World} {e : ℕ → Event} (hf : Fair s e)
    (hticks : daemon.FairTo s e Event.Sees) {i : ℕ} {code : Option ℤ} {n : String} {g : ℕ}
    (h : (s i).Crashed code n g ∨ (s i).Timed n g ∨
      (s i).At (·.life.inc.isSome = true) n g ∧ .watchRestart n g ∈ (s i).actor.inFlight) :
    ∃ j, i ≤ j ∧ FollowedUp n g (s j) (e j) (s (j + 1)) :=
  LeadsTo.or (hf.leadsTo_of_crashed hticks code n g) (.or (hf.leadsTo_of_timed n g)
    (hf.leadsTo_of_handsOver (handsOver_watchRestart n g))) i h

namespace Revived

def spawned : World := (World.new "s").receive (.quiet 7)
  (.spawn "srv" (some "web") none none none (some ⟨.always, none, 0⟩) none 0)

/-- Its leader exits, with code 1. -/
def crashed : World := spawned.leaderExit ⟨0, 7⟩ (some 1)

/-- What the operating system says afterwards. -/
def os : Os := { Os.quiet 8 with exits := crashed.exits }

def timed : World := crashed.tick os

def handed : World := timed.deliver os (.autoRestart "web" 1)

def torn : World := handed.finish ⟨"web", 1, some ⟨0, 7⟩, some (some 1)⟩ (some 1)

def respawned : World := torn.deliver os (.stopFinished "web" 1 (some 1))

/-- The run, which then only ticks. -/
def steps : List (Transition World Event) :=
  [⟨crashed, .tick os, timed⟩, ⟨timed, .deliver os (.autoRestart "web" 1), handed⟩,
    ⟨handed, .teardownDone ⟨"web", 1, some ⟨0, 7⟩, some (some 1)⟩ (some 1), torn⟩,
    ⟨torn, .deliver os (.stopFinished "web" 1 (some 1)), respawned⟩]

theorem reachable_crashed : daemon.Reachable crashed :=
  (World.reachable_receive (World.reachable_new "s") rfl rfl).step
    (.exit (by decide) rfl)

theorem run_steps : daemon.Run crashed steps respawned := by
  have htimed : Step crashed (.tick os) timed := .tick rfl
  have hhanded : Step timed (.deliver os (.autoRestart "web" 1)) handed :=
    .deliver rfl (List.mem_singleton_self _)
  have htorn : Step handed (.teardownDone ⟨"web", 1, some ⟨0, 7⟩, some (some 1)⟩ (some 1)) torn :=
    .teardownDone (List.mem_singleton_self _) (.inl rfl)
  have hrespawned : Step torn (.deliver os (.stopFinished "web" 1 (some 1))) respawned :=
    .deliver rfl (List.mem_singleton_self _)
  exact (((Machine.Run.refl.snoc (M := daemon) htimed).snoc hhanded).snoc htorn).snoc hrespawned

theorem atRest : respawned.AtRest os :=
  ⟨rfl, rfl, rfl, Actor.tick_of_still rfl rfl⟩

/-- The clock ticks for ever. -/
theorem ticks : daemon.FairTo (Machine.statesOf steps respawned) (Machine.eventsOf steps (.tick os))
    Event.Sees :=
  Machine.fairTo_rest (.inl fun _ => rfl)

theorem crashed_web : crashed.Crashed (some 1) "web" 1 :=
  ⟨_, rfl, rfl, ⟨⟨0, 7⟩, .inl ⟨rfl, rfl⟩⟩, ⟨_, rfl, rfl⟩, rfl⟩

/-- The crash of `web` is followed up. -/
theorem web_followedUp : ∃ j, 0 ≤ j ∧ FollowedUp "web" 1 (Machine.statesOf steps respawned j)
    (Machine.eventsOf steps (.tick os) j) (Machine.statesOf steps respawned (j + 1)) :=
  followed_up (atRest.fair reachable_crashed run_steps) ticks (.inl crashed_web)

end Revived

end AgentProcs
