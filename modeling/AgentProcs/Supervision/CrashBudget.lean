import AgentProcs.Supervision.Refinement

/-!
# Supervision/CrashBudget — automatic restarts are charged, bounded and warranted

    natural exit ──tick──▸ timer ──AutoRestart──▸ stopping, count + 1 ──report──▸ respawned
         any but a manual exit ──WatchRestart──▸ stopping, count := 0 ──report──▸ respawned
                      any life ────Restart────▸ stopping ──report──▸ count := 0, respawned

The count of a record is the number of its automatic restarts since the last of the other two.  A
timer is only set while there is budget left, and it only fires for the life it was set for; so the
charge it makes stays within the budget.
-/

namespace AgentProcs

/-- The restart count of a record whose teardown ends. -/
def AfterStop.settle : AfterStop → ℕ → ℕ
  | .park, n => n
  | .respawn reason, n => reason.settle n

/-! ## Charges and resets -/

/-- The life ends in a respawn for this reason. -/
def Life.respawnsFor (reason : RespawnReason) : Life → Bool
  | .stopping _ (.respawn r) _ => r == reason
  | _ => false

theorem Life.respawnsFor_of_not_stopping {l : Life} (h : l.isStopping = false)
    (reason : RespawnReason) : l.respawnsFor reason = false := by
  cases l with
  | stopping => exact absurd h (by simp)
  | _ => rfl

/-- The teardown of the record `n` ends in a respawn for this reason. -/
def World.respawning (reason : RespawnReason) (n : String) (w : World) : Bool :=
  (w.record n).any (·.life.respawnsFor reason)

/-- The transition sets the record `n` up for a respawn. -/
def setsUp (reason : RespawnReason) (n : String) (τ : Transition World Event) : Bool :=
  τ.dst.respawning reason n && !τ.src.respawning reason n

/-- An `AutoRestart` begins a teardown of the record `n`. -/
def autoTeardown (n : String) (τ : Transition World Event) : Bool :=
  match τ.ev with
  | .deliver _ (.autoRestart ..) => setsUp .auto n τ
  | _ => false

/-- The budget of the record `n` starts afresh: a `WatchRestart` is accepted, the respawn of a
manual `Restart` is attempted, or the record is new. -/
def budgetReset (n : String) (τ : Transition World Event) : Bool :=
  match τ.ev with
  | .deliver _ (.watchRestart ..) => setsUp .watch n τ
  | .deliver _ (.stopFinished m generation _) => m == n && (τ.src.record n).any fun p =>
      p.generation == generation && p.life.respawnsFor .manual
  | .client _ (.spawn ..) => (τ.src.record n).isNone && (τ.dst.record n).isSome
  | _ => false

/-- The automatic restarts of the record `n` since its budget last started afresh. -/
def charges (n : String) (ts : List (Transition World Event)) : ℕ :=
  (ts.reverse.takeWhile fun τ => !budgetReset n τ).countP (autoTeardown n)

/-- An `AutoRestart` begins the teardown of the `k`-th incarnation. -/
def autoRestarts (k : ℕ) (τ : Transition World Event) : Bool :=
  match τ.ev with
  | .deliver _ (.autoRestart n _) =>
    setsUp .auto n τ && (τ.src.record n).any fun p => p.life.inc.any (·.isSerial k)
  | _ => false

/-- **An automatic restart of `n` is warranted**: the timer of this very life fired, the leader had
exited by itself, with a code that the policy restarts, and there was budget left. -/
def Warranted (n : String) (τ : Transition World Event) : Prop :=
  ∃ os p code inc policy, τ.ev = .deliver os (.autoRestart n p.generation) ∧
    τ.src.record n = some p ∧ p.life = .exited code .natural (some inc) true ∧
    τ.src.exits inc = some code ∧ p.restartPolicy = some policy ∧
    policy.mode.shouldRestart code = true ∧
    ∀ max, policy.maxRestarts = some max → p.restartCount < max

theorem World.respawning_iff {reason : RespawnReason} {n : String} {w : World} :
    w.respawning reason n = true ↔
      ∃ p, w.record n = some p ∧ p.life.respawnsFor reason = true := by
  rw [respawning]
  cases w.record n <;> simp

theorem charges_snoc (n : String) (ts : List (Transition World Event)) (τ : Transition World Event) :
    charges n (ts ++ [τ]) =
      if budgetReset n τ then 0 else charges n ts + if autoTeardown n τ then 1 else 0 := by
  rw [charges, List.reverse_append, List.reverse_singleton, List.singleton_append,
    List.takeWhile_cons]
  cases budgetReset n τ with
  | true => rfl
  | false => exact List.countP_cons

theorem setsUp_of_same {reason : RespawnReason} {n : String} {τ : Transition World Event}
    (h : τ.dst.record n = τ.src.record n) : setsUp reason n τ = false := by
  rw [setsUp, World.respawning, World.respawning, h]
  simp

/-! ## The count of one record -/

/-- Only charges, and respawns, change the count of a record. -/
theorem Moves.restartCount {E : Incarnation → Option (Option ℤ)} {R : String → RespawnReason → Prop}
    {L : String → Launch → Prop} {d d' : Desk} (h : Moves (Move.Within E R L) d d') {n : String}
    (hauto : ¬ R n .auto) (hwatch : ¬ R n .watch) (hagain : ¬ L n .again) :
    ∀ q, d'.holdings.processes.lookup n = some q →
      (∃ p, d.holdings.processes.lookup n = some p ∧ q.restartCount = p.restartCount) ∨
        (L n .fresh ∧ q.restartCount = 0) := by
  refine h.invariant (P := fun d' => ∀ q, d'.holdings.processes.lookup n = some q →
    (∃ p, d.holdings.processes.lookup n = some p ∧ q.restartCount = p.restartCount) ∨
      (L n .fresh ∧ q.restartCount = 0)) (fun q hq => .inl ⟨q, hq, rfl⟩)
    fun d₁ m d₂ hd hmove hm q hq => ?_
  rcases hmove.record hq with ⟨p, hp, hturn⟩ | ⟨rfl, -, hzero, -⟩
  · have hkept (hcount : q.restartCount = p.restartCount) := hcount ▸ hd p hp
    cases hturn with
    | observe => exact hkept (p.observeExit_restartCount _)
    | edit _ hcount => exact hkept hcount
    | @start _ andThen =>
      cases andThen with
      | park => exact hkept rfl
      | respawn reason =>
        cases reason with
        | manual => exact hkept rfl
        | auto => exact absurd hm hauto
        | watch => exact absurd hm hwatch
    | relaunch | fail => exact absurd hm hagain
    | _ => exact hkept rfl
  · exact .inr ⟨hm, hzero⟩

namespace Actor

variable {a : Actor}

/-- The restart count of the record `n`. -/
def count (n : String) (a : Actor) : Option ℕ := (a.pm.processes.lookup n).map (·.restartCount)

theorem count_update (n name : String) (f : ManagedProcess → ManagedProcess)
    (hf : ∀ p, (f p).name = p.name) (hcount : ∀ p, (f p).restartCount = p.restartCount) :
    (a.update name f hf).count n = a.count n := by
  change ((a.pm.processes.update name f hf).lookup n).map _ = _
  rw [Table.lookup_update, count]
  split
  · cases a.pm.processes.lookup n with
    | none => rfl
    | some p => exact congrArg some (hcount p)
  · rfl

theorem count_annotate (n name msg : String) : (a.annotate name msg).count n = a.count n := by
  rw [count, pm_annotate, count]

theorem count_setupWatcher (os : Os) (n name : String) :
    (a.setupWatcher os name).1.count n = a.count n := by
  rw [setupWatcher]
  split
  · rfl
  rename_i p _
  split
  · rfl
  · cases os.watch with
    | ok =>
      exact count_update n p.name (fun q => { q with watchHandle := some ⟨name, p.generation⟩ })
        (fun _ => rfl) fun _ => rfl
    | error =>
      exact count_update n p.name (fun q => { q with watchConfig := none }) (fun _ => rfl)
        fun _ => rfl

/-- The table spawns into a record without looking at its count. -/
theorem count_pm_respawn (os : Os) (n name : String) (rotate : Bool) :
    Actor.count n { a with pm := (a.pm.respawn os name rotate).1 } = a.count n := by
  rw [ProcessManager.respawn]
  split
  · rfl
  · dsimp only [ProcessManager.nextId]
    cases os.spawn with
    | ok pid =>
      exact count_update (a := a) n name (fun q => { q with
        id := s!"p{a.pm.idCounter}"
        pid := pid
        startedAt := os.now
        generation := a.pm.nextGeneration + 1
        life := .running ⟨a.pm.spawned, pid⟩ }) (fun _ => rfl) fun _ => rfl
    | error =>
      exact count_update (a := a) n name (fun q => { q with
        pid := 0
        life := .exited _ .spawnFailed none false }) (fun _ => rfl) fun _ => rfl

/-- **A respawn settles the count of its record**, whether or not the spawn works. -/
theorem count_respawn (os : Os) (n name : String) (reason : RespawnReason) (code : Option ℤ) :
    (a.respawn os name reason code).1.count n =
      if n = name then (a.count n).map reason.settle else a.count n := by
  have hsettled : (a.settleCount name reason).count n =
      if n = name then (a.count n).map reason.settle else a.count n := by
    rw [count]
    change ((a.pm.processes.update name _ _).lookup n).map _ = _
    rw [Table.lookup_update, count]
    split
    · rw [Option.map_map, Option.map_map]
      rfl
    · rfl
  have hspawned := count_pm_respawn (a := a.settleCount name reason) os n name (reason != .manual)
  rcases hrespawn : (a.settleCount name reason).pm.respawn os name (reason != .manual) with ⟨pm, resp⟩
  rw [hrespawn] at hspawned
  rw [← hsettled]
  exact respawn_rule (P := fun a' => a'.count n = (a.settleCount name reason).count n) code hrespawn
    (fun _ => hspawned) (fun _ _ _ => (count_annotate ..).trans) fun _ _ => (count_setupWatcher ..).trans

/-- **The end of a teardown** settles the count of its record and leaves the others alone. -/
theorem count_finishTeardown (os : Os) (code : Option ℤ) {name : String} {p : ManagedProcess}
    {leaderExit : Option (Option ℤ)} {andThen : AfterStop} {ws : List Waiter}
    (hp : a.pm.processes.lookup name = some p) (hlife : p.life = .stopping leaderExit andThen ws)
    {n : String} {q : ManagedProcess}
    (hq : (a.finishTeardown os name p.generation code).pm.processes.lookup n = some q) :
    ∃ c, a.count n = some c ∧ q.restartCount = if n = name then andThen.settle c else c := by
  obtain rfl := Table.key_eq hp
  rw [finishTeardown, ProcessManager.find_of_lookup hp] at hq
  dsimp only at hq
  rw [if_pos rfl, hlife] at hq
  dsimp only at hq
  -- the waiters, the batch and the proxy do not touch the counts
  have htail (a' : Actor) (resp : Response)
      (h : ((ws.foldl (answerWaiter p.name resp) a').leaveBatch
        p.name).publishProxyState.pm.processes.lookup n = some q) :
      a'.count n = some q.restartCount := by
    have hpm := foldl_answer_same Actor.pm Waiter.reply (waiterAnswer p.name resp)
      (fun _ _ _ => rfl) (answerWaiter_eq p.name resp) ws a'
    rw [pm_publishProxyState] at h
    rcases pm_leaveBatch p.name (ws.foldl (answerWaiter p.name resp) a') with hsame | hcleared
    · rw [hsame, hpm] at h
      rw [count, h]
      rfl
    · rw [hcleared] at h
      exact absurd h (by simp [ProcessManager.clear])
  have hparked : Actor.count n { a with
      pm := a.pm.setLife p.name (.exited code .manual none false) } = a.count n :=
    count_update n p.name (ManagedProcess.withLife _) (fun _ => rfl) fun _ => rfl
  cases andThen with
  | park =>
    have hcount := htail _ _ hq
    refine ⟨q.restartCount, hparked.symm.trans hcount, ?_⟩
    split <;> rfl
  | respawn reason =>
    have hcount := htail _ _ hq
    rw [count_respawn, hparked] at hcount
    split at hcount
    · obtain ⟨c, hc, hq⟩ := Option.map_eq_some_iff.mp hcount
      exact ⟨c, hc, by rw [if_pos ‹n = p.name›]; exact hq.symm⟩
    · exact ⟨q.restartCount, hcount, by rw [if_neg ‹n ≠ p.name›]⟩

end Actor

/-! ## The count along a step -/

variable {w w' : World}

/-- A step that neither charges, resets nor respawns leaves the count of a record alone. -/
theorem count_frame {e : Event} (hs : Sound w.books w.actor.holdings) (hstep : Step w e w')
    {n : String} (hauto : ¬ e.revives w n .auto) (hwatch : ¬ e.revives w n .watch)
    (hL : ∀ kind, ¬ e.launches w n kind) {q : ManagedProcess} (hq : w'.record n = some q) :
    ∃ p, w.record n = some p ∧ q.restartCount = p.restartCount :=
  ((step_moves hs hstep).restartCount hauto hwatch (hL _) q hq).resolve_right fun h => hL _ h.1

/-- What the transition charges is what the count of the record has grown by. -/
def ChargedBy (n : String) (τ : Transition World Event) (q : ManagedProcess) : Prop :=
  if budgetReset n τ then q.restartCount = 0
  else ∃ p, τ.src.record n = some p ∧
    q.restartCount = p.restartCount + if autoTeardown n τ then 1 else 0

namespace ChargedBy

variable {n : String} {τ : Transition World Event} {q : ManagedProcess}

theorem reset (h : budgetReset n τ = true) (hzero : q.restartCount = 0) : ChargedBy n τ q := by
  rwa [ChargedBy, if_pos h]

theorem kept (hreset : budgetReset n τ = false) (hauto : autoTeardown n τ = false)
    (h : ∃ p, τ.src.record n = some p ∧ q.restartCount = p.restartCount) : ChargedBy n τ q := by
  rw [ChargedBy, hreset, hauto]
  exact h

theorem charge (hreset : budgetReset n τ = false) (hauto : autoTeardown n τ = true)
    {p : ManagedProcess} (hp : τ.src.record n = some p)
    (hcount : q.restartCount = p.restartCount + 1) : ChargedBy n τ q := by
  rw [ChargedBy, hreset, hauto]
  exact ⟨p, hp, hcount⟩

end ChargedBy

/-- A record handed over to a teardown that charges it, seen from the record `n`. -/
theorem charged_cases {a : Actor} {p : ManagedProcess} {reason : RespawnReason} {n : String}
    {q : ManagedProcess} (hp : w.record p.name = some p) (hlife : p.life.isStopping = false)
    (hw : w.actor.pm.processes = a.pm.processes)
    (hw' : w'.actor.holdings = a.handedOver p (.respawn reason)) (hq : w'.record n = some q)
    (e : Event) :
    (n = p.name ∧ setsUp reason n ⟨w, e, w'⟩ = true ∧ w.record n = some p ∧
      q.restartCount = (AfterStop.respawn reason).charge p.restartCount) ∨
    (setsUp reason n ⟨w, e, w'⟩ = false ∧ w.record n = some q) := by
  have hprocs : w'.actor.pm.processes = _ := congrArg Holdings.processes hw'
  have hrecord (m : String) : w'.record m = (w.actor.pm.processes.update p.name
      (ManagedProcess.handOver (.respawn reason) none) fun _ => rfl).lookup m := by
    rw [World.record, hprocs, hw]
    rfl
  by_cases hn : n = p.name
  · subst hn
    have hq' := (hrecord p.name).trans (Table.lookup_update_of _ _ hp)
    obtain rfl := Option.some.inj (hq.symm.trans hq')
    refine .inl ⟨rfl, ?_, hp, rfl⟩
    rw [setsUp, World.respawning, World.respawning, hq, hp]
    have hset : (p.handOver (.respawn reason) none).life.respawnsFor reason = true :=
      beq_self_eq_true reason
    simp [Life.respawnsFor_of_not_stopping hlife, hset]
  · have hsame : w'.record n = w.record n := (hrecord n).trans (Table.lookup_update_ne hn _ _ _)
    exact .inr ⟨setsUp_of_same hsame, hsame.symm.trans hq⟩

theorem charged_autoRestart {os : Os} {name : String} {generation : ℕ}
    (hissued : w.actor.holdings.IssuedTo name generation) {n : String} {q : ManagedProcess}
    (hq : (w.deliver os (.autoRestart name generation)).record n = some q) :
    ChargedBy n ⟨w, .deliver os (.autoRestart name generation),
      w.deliver os (.autoRestart name generation)⟩ q := by
  rcases (w.take (.autoRestart name generation)).actor.handleAutoRestart_cases hissued with
    h | ⟨p, -, hlife, -, hp, h⟩
  · have hsame : (w.deliver os (.autoRestart name generation)).record n = w.record n :=
      congrArg (fun a => a.pm.processes.lookup n) h
    exact .kept rfl (setsUp_of_same hsame) ⟨q, hsame.symm.trans hq, rfl⟩
  · rcases charged_cases (w := w) (a := (w.take (.autoRestart name generation)).actor) hp hlife rfl h hq
        (.deliver os (.autoRestart name generation)) with
      ⟨-, hset, hn, hcount⟩ | ⟨hset, hn⟩
    · exact .charge rfl hset hn hcount
    · exact .kept rfl hset ⟨q, hn, rfl⟩

theorem charged_watchRestart {os : Os} {name : String} {generation : ℕ}
    (hissued : w.actor.holdings.IssuedTo name generation) {n : String} {q : ManagedProcess}
    (hq : (w.deliver os (.watchRestart name generation)).record n = some q) :
    ChargedBy n ⟨w, .deliver os (.watchRestart name generation),
      w.deliver os (.watchRestart name generation)⟩ q := by
  rcases (w.take (.watchRestart name generation)).actor.handleWatchRestart_cases hissued with
    h | ⟨p, -, hlife, -, hp, h⟩
  · have hsame : (w.deliver os (.watchRestart name generation)).record n = w.record n :=
      congrArg (fun a => a.pm.processes.lookup n) h
    exact .kept (setsUp_of_same hsame) rfl ⟨q, hsame.symm.trans hq, rfl⟩
  · rcases charged_cases (w := w) (a := (w.take (.watchRestart name generation)).actor) hp hlife rfl h hq
        (.deliver os (.watchRestart name generation)) with
      ⟨-, hset, hn, hcount⟩ | ⟨hset, hn⟩
    · exact .reset hset hcount
    · exact .kept hset rfl ⟨q, hn, rfl⟩

theorem charged_stopFinished (hs : Sound w.books w.actor.holdings) {os : Os} {name : String}
    {generation : ℕ} {code : Option ℤ}
    (hmem : .stopFinished name generation code ∈ w.actor.inFlight) {n : String} {q : ManagedProcess}
    (hq : (w.deliver os (.stopFinished name generation code)).record n = some q) :
    ChargedBy n ⟨w, .deliver os (.stopFinished name generation code),
      w.deliver os (.stopFinished name generation code)⟩ q := by
  have hdue := (hs.deliver hmem).due (List.mem_cons_self (a := (name, generation)))
  obtain ⟨p, hp, rfl, hstop⟩ := hdue
  cases hl : p.life with
  | running => exact absurd hstop (by simp [hl])
  | exited => exact absurd hstop (by simp [hl])
  | stopping leaderExit andThen ws =>
  obtain ⟨c, hc, hcount⟩ := Actor.count_finishTeardown os code
    (a := (w.take (.stopFinished name p.generation code)).actor) hp hl hq
  obtain ⟨p', hp', rfl⟩ := Option.map_eq_some_iff.mp hc
  by_cases hn : n = name
  · subst hn
    obtain rfl := Option.some.inj (hp.symm.trans hp')
    rw [if_pos rfl] at hcount
    have hreset : budgetReset n ⟨w, .deliver os (.stopFinished n p.generation code),
        w.deliver os (.stopFinished n p.generation code)⟩ = p.life.respawnsFor .manual := by
      have hrecord : w.record n = some p := hp
      simp [budgetReset, hrecord]
    by_cases hmanual : andThen = .respawn .manual
    · subst hmanual
      exact .reset (hreset.trans (by rw [hl]; rfl)) hcount
    · refine .kept (hreset.trans ?_) rfl ⟨p, hp, ?_⟩
      · rw [hl]
        cases andThen with
        | park => rfl
        | respawn reason =>
          exact beq_false_of_ne fun he => hmanual (congrArg AfterStop.respawn he)
      · cases andThen with
        | park => exact hcount
        | respawn reason =>
          cases reason with
          | manual => exact absurd rfl hmanual
          | _ => exact hcount
  · rw [if_neg hn] at hcount
    exact .kept (by simp [budgetReset, Ne.symm hn]) rfl ⟨p', hp', hcount⟩

theorem charged_spawn (hs : Sound w.books w.actor.holdings) {os : Os} {cmd : PmCommand}
    (hspawn : ∃ command name cwd env port restart watch reply,
      cmd = .spawn command name cwd env port restart watch reply)
    (hstep : Step w (.client os cmd) w') {n : String} {q : ManagedProcess}
    (hq : w'.record n = some q) : ChargedBy n ⟨w, .client os cmd, w'⟩ q := by
  obtain ⟨_, _, _, _, _, _, _, _, rfl⟩ := hspawn
  cases hn : w.record n with
  | some p =>
    refine .kept (by simp [budgetReset, hn]) rfl (count_frame hs hstep id id (fun _ h => ?_) hq)
    exact absurd (hn.symm.trans h.2.2) (by simp)
  | none =>
    refine .reset (by simp [budgetReset, hn, hq]) ?_
    rcases (step_moves hs hstep).restartCount id id (fun h => absurd h.1 (by simp)) q hq with
      ⟨p, hp, -⟩ | ⟨-, hzero⟩
    · exact absurd (hn.symm.trans hp) (by simp)
    · exact hzero

/-- **One step charges, resets, or leaves the count of a record alone.** -/
theorem charged_step {e : Event} (hs : Sound w.books w.actor.holdings) (hstep : Step w e w')
    {n : String} {q : ManagedProcess} (hq : w'.record n = some q) : ChargedBy n ⟨w, e, w'⟩ q := by
  have hframe := count_frame hs hstep (n := n) (q := q)
  cases e with
  | tick | exit | fileChanged | teardownDone =>
    exact .kept rfl rfl (hframe id id (fun _ => id) hq)
  | client os cmd =>
    cases cmd with
    | spawn => exact charged_spawn hs ⟨_, _, _, _, _, _, _, _, rfl⟩ hstep hq
    | restart =>
      exact .kept rfl rfl (hframe (fun h => absurd h.1 (by simp)) (fun h => absurd h.1 (by simp))
        (fun _ => id) hq)
    | _ => exact .kept rfl rfl (hframe id id (fun _ => id) hq)
  | deliver os cmd =>
    cases hstep with
    | deliver hos hmem =>
    obtain ⟨m, g, hstamp, hissued⟩ := hs.stamps.inFlight cmd hmem
    cases cmd with
    | autoRestart =>
      obtain ⟨rfl, rfl⟩ := Prod.mk.inj (Option.some.inj hstamp)
      exact charged_autoRestart hissued hq
    | watchRestart =>
      obtain ⟨rfl, rfl⟩ := Prod.mk.inj (Option.some.inj hstamp)
      exact charged_watchRestart hissued hq
    | stopFinished => exact charged_stopFinished hs hmem hq
    | _ => exact absurd hstamp (by simp [PmCommand.stamp])

/-- **The count of a record is what it has been charged** since its budget last started afresh. -/
theorem restartCount_eq_charges {w₀ u : World} {ts : List (Transition World Event)}
    (h₀ : daemon.init w₀) (hrun : daemon.Run w₀ ts u) :
    ∀ n p, u.record n = some p → p.restartCount = charges n ts := by
  refine hrun.invariant (P := fun ts u => ∀ n p, u.record n = some p → p.restartCount = charges n ts)
    (.init h₀) ?_ fun ts t e u ht ih hstep n q hq => ?_
  · obtain ⟨session, rfl⟩ := h₀
    exact fun n p hp => absurd hp (by simp [World.record, World.new, Actor.new, ProcessManager.new])
  · have hcharged := charged_step (sound_of_reachable ht) hstep hq
    rw [charges_snoc]
    rw [ChargedBy] at hcharged
    split at hcharged
    · rw [if_pos ‹_›, hcharged]
    · obtain ⟨p, hp, hcount⟩ := hcharged
      rw [if_neg ‹_›, hcount, ih n p hp]

/-! ## The exits a record has seen -/

/-- Every exit that a record still holding its leader has seen is one of `E`. -/
def SeenExits (E : Incarnation → Option (Option ℤ)) (d : Desk) : Prop :=
  ∀ n p code why inc timer, d.holdings.processes.lookup n = some p →
    p.life = .exited code why (some inc) timer → E inc = some code

theorem Moves.seenExits {E : Incarnation → Option (Option ℤ)} {R : String → RespawnReason → Prop}
    {L : String → Launch → Prop} {d d' : Desk} (h : Moves (Move.Within E R L) d d')
    (hd : SeenExits E d) : SeenExits E d' := by
  refine h.invariant (P := SeenExits E) hd fun d₁ m d₂ hd hmove hm n q code why inc timer hq hl => ?_
  rcases hmove.record hq with ⟨p, hp, hturn⟩ | ⟨-, -, -, inc', hrun⟩
  · cases hturn with
    | same => exact hd n _ code why inc timer hp hl
    | @observe os p =>
      rcases p.observeExit_cases os with hsame | ⟨inc', code', -, hpeek, hafter⟩
      · exact hd n p code why inc timer hp (hsame ▸ hl)
      · rw [hafter] at hl
        obtain ⟨rfl, -, hinc, -⟩ := Life.exited.inj hl
        obtain rfl := Option.some.inj hinc
        rw [Os.peekExit] at hpeek
        split at hpeek
        · exact absurd hpeek (by simp)
        · exact hm ▸ hpeek
    | edit hlife => exact hd n p code why inc timer hp (hlife ▸ hl)
    | arm hlife | exhaust hlife =>
      obtain ⟨rfl, -, rfl, -⟩ := Life.exited.inj hl
      exact hd n p _ _ inc _ hp hlife
    | start => exact Life.noConfusion hl
    | join => exact Life.noConfusion hl
    | park => exact absurd (Life.exited.inj hl).2.2.1 (by simp)
    | relaunch _ hrun => exact Life.noConfusion (hrun.symm.trans hl)
    | fail _ hfail => exact absurd (Life.exited.inj (hfail.symm.trans hl)).2.2.1 (by simp)
  · exact Life.noConfusion (hrun.symm.trans hl)

/-- **What a record has seen has happened.** -/
theorem seenExits_of_reachable (h : daemon.Reachable w) : SeenExits w.exits w.desk := by
  refine h.invariant (P := fun w => SeenExits w.exits w.desk) ?_ fun w e w' hw hd hstep => ?_
  · rintro w ⟨session, rfl⟩ n p code why inc timer hp
    exact absurd hp (by simp [World.desk, World.new, Actor.new, Actor.holdings, ProcessManager.new])
  · have hafter := (step_moves (sound_of_reachable hw) hstep).seenExits hd
    cases hstep with
    | @exit inc code _ hrunning =>
      intro n p code' why inc' timer hp hl
      have hold := hafter n p code' why inc' timer hp hl
      have hne : inc' ≠ inc := fun he => absurd (hrunning.symm.trans (he ▸ hold)) (by simp)
      exact (Function.update_of_ne hne _ _).trans hold
    | _ => exact hafter

/-! ## An automatic restart is warranted -/

/-- Nobody is set up for a respawn but by those who may. -/
theorem Moves.respawnsFor {E : Incarnation → Option (Option ℤ)} {R : String → RespawnReason → Prop}
    {L : String → Launch → Prop} {d d' : Desk} (h : Moves (Move.Within E R L) d d') {n : String}
    {reason : RespawnReason} (hR : ¬ R n reason) : ∀ q, d'.holdings.processes.lookup n = some q →
      q.life.respawnsFor reason = true →
      ∃ p, d.holdings.processes.lookup n = some p ∧ p.life.respawnsFor reason = true := by
  refine h.invariant (P := fun d' => ∀ q, d'.holdings.processes.lookup n = some q →
    q.life.respawnsFor reason = true → ∃ p, d.holdings.processes.lookup n = some p ∧
      p.life.respawnsFor reason = true) (fun q hq hset => ⟨q, hq, hset⟩)
    fun d₁ m d₂ hd hmove hm q hq hset => ?_
  rcases hmove.record hq with ⟨p, hp, hturn⟩ | ⟨-, -, -, inc, hrun⟩
  · cases hturn with
    | same => exact hd _ hp hset
    | @observe os p =>
      rcases p.observeExit_cases os with hsame | ⟨_, _, _, _, hafter⟩
      · exact hd p hp (hsame ▸ hset)
      · rw [hafter] at hset
        exact absurd hset (by simp [Life.respawnsFor])
    | edit hlife => exact hd p hp (hlife ▸ hset)
    | @start _ andThen | @join _ _ _ andThen =>
      cases andThen with
      | park => exact absurd hset (by simp [Life.respawnsFor, ManagedProcess.handOver,
          ManagedProcess.withLife])
      | respawn r =>
        obtain rfl : r = reason := eq_of_beq hset
        exact absurd hm hR
    | relaunch _ hrun => exact absurd hset (by simp [hrun, Life.respawnsFor])
    | fail _ hfail => exact absurd hset (by simp [hfail, Life.respawnsFor])
    | _ => exact absurd hset (by simp [Life.respawnsFor, ManagedProcess.withLife])
  · exact absurd hset (by simp [hrun, Life.respawnsFor])

/-- **Whatever sets a record up for an automatic restart is warranted.** -/
theorem warranted_of_setsUp (hw : daemon.Reachable w) {e : Event} (hstep : Step w e w') {n : String}
    (hset : setsUp .auto n ⟨w, e, w'⟩ = true) : Warranted n ⟨w, e, w'⟩ := by
  have hs := sound_of_reachable hw
  obtain ⟨hafter, hbefore⟩ := Bool.and_eq_true_iff.mp hset
  obtain ⟨q, hq, hq'⟩ := World.respawning_iff.mp hafter
  have hrevives : e.revives w n .auto := by
    by_contra hno
    have hold := World.respawning_iff.mpr ((step_moves hs hstep).respawnsFor hno q hq hq')
    simp [hold] at hbefore
  unfold Event.revives at hrevives
  split at hrevives
  · exact absurd hrevives.1 (by simp)
  · obtain ⟨rfl, -, p, code, inc, hp, rfl, hl⟩ := hrevives
    have hok := hs.records _ p hp
    obtain ⟨-, policy, hpolicy, hrestart, hleft⟩ := hok.timer code .natural inc hl
    obtain ⟨i, rfl⟩ := Option.isSome_iff_exists.mp ((hok.zombie code .natural inc true hl).mpr (.inl rfl))
    exact ⟨_, p, code, i, policy, rfl, hp, hl, seenExits_of_reachable hw _ p code .natural i true hp hl,
      hpolicy, hrestart, hleft⟩
  · exact absurd hrevives.2.1 (by simp)
  · exact absurd hrevives id

/-! ## One automatic restart an incarnation -/

/-- How often the `k`-th incarnation is in a teardown, or has been. -/
def Desk.ending (k : ℕ) (d : Desk) : ℕ :=
  d.holdings.teardowns.countP (·.owns k) + d.books.gone.countP (·.isSerial k)

/-- No move undoes a teardown. -/
theorem Moves.ending_le {G : Move → Prop} {d d' : Desk} (h : Moves G d d') (k : ℕ) :
    d.ending k ≤ d'.ending k := by
  refine h.invariant (P := fun d' => d.ending k ≤ d'.ending k) le_rfl fun d₁ m d₂ hd hmove _ => ?_
  refine hd.trans ?_
  cases hmove with
  | start =>
    rw [Desk.ending, Desk.ending, List.countP_cons]
    dsimp only
    omega
  | teardownDone hmem =>
    rw [Desk.ending, Desk.ending, (List.perm_cons_erase hmem).countP_eq, List.countP_cons,
      List.countP_append, Teardown.countP_inc]
    dsimp only
    omega
  | _ => exact le_rfl

theorem ending_le_one (hs : Sound w.books w.actor.holdings) (k : ℕ) : w.desk.ending k ≤ 1 := by
  have hcustody := hs.custody k
  have hone : (if k < w.actor.pm.spawned then 1 else 0) ≤ 1 := by split <;> omega
  change _ + w.actor.holdings.teardowns.countP (·.owns k) + w.books.gone.countP (·.isSerial k) =
    if k < w.actor.pm.spawned then 1 else 0 at hcustody
  change w.actor.holdings.teardowns.countP (·.owns k) + w.books.gone.countP (·.isSerial k) ≤ 1
  omega

/-- An automatic restart puts its incarnation in a teardown. -/
theorem ending_of_autoRestarts (hs : Sound w.books w.actor.holdings) {e : Event}
    (hstep : Step w e w') {k : ℕ} (hauto : autoRestarts k ⟨w, e, w'⟩ = true) :
    w.desk.ending k + 1 ≤ w'.desk.ending k := by
  cases hstep with
  | @deliver os cmd hos hmem =>
    obtain ⟨m, g, hstamp, hissued⟩ := hs.stamps.inFlight cmd hmem
    cases cmd with
    | autoRestart name generation =>
      obtain ⟨rfl, rfl⟩ := Prod.mk.inj (Option.some.inj hstamp)
      obtain ⟨hset, hheld⟩ := Bool.and_eq_true_iff.mp hauto
      rcases (w.take (.autoRestart name generation)).actor.handleAutoRestart_cases hissued with
        h | ⟨p, -, -, ⟨rfl, -⟩, hp, h⟩
      · have hsame : (w.deliver os (.autoRestart name generation)).record name = w.record name :=
          congrArg (fun a => a.pm.processes.lookup name) h
        rw [setsUp_of_same hsame] at hset
        exact absurd hset (by simp)
      · have hrecord : w.record p.name = some p := hp
        have hteardowns : (w.deliver os (.autoRestart p.name generation)).actor.teardowns =
          p.teardown :: w.actor.teardowns := congrArg Holdings.teardowns h
        have howns : p.teardown.owns k = true := by
          dsimp only at hheld
          rw [hrecord] at hheld
          exact hheld
        change w.actor.teardowns.countP (·.owns k) + w.tornDown.countP (·.isSerial k) + 1 ≤
          (w.deliver os (.autoRestart p.name generation)).actor.teardowns.countP (·.owns k) +
            w.tornDown.countP (·.isSerial k)
        rw [hteardowns, List.countP_cons, howns, if_pos rfl]
        omega
    | _ => exact absurd hauto (by simp [autoRestarts])
  | _ => exact absurd hauto (by simp [autoRestarts])

/-- Every automatic restart of an incarnation has put it in a teardown. -/
theorem autoRestarts_le_ending {w₀ u : World} {ts : List (Transition World Event)}
    (h₀ : daemon.init w₀) (hrun : daemon.Run w₀ ts u) (k : ℕ) :
    ts.countP (autoRestarts k) ≤ u.desk.ending k := by
  refine hrun.invariant (P := fun ts u => ts.countP (autoRestarts k) ≤ u.desk.ending k)
    (.init h₀) (Nat.zero_le _) fun ts t e u ht ih hstep => ?_
  have hs := sound_of_reachable ht
  have hmono := (step_moves hs hstep).ending_le k
  rw [List.countP_append, List.countP_singleton]
  split
  · have hmore := ending_of_autoRestarts hs hstep ‹_›
    omega
  · omega

/-! ## The crash budget -/

/-- What a crash budget promises of a run and of the state it reaches. -/
structure CrashBudget (ts : List (Transition World Event)) (u : World) : Prop where
  /-- The count stays within the limit of the policy. -/
  within : ∀ n p policy max, u.record n = some p → p.restartPolicy = some policy →
    policy.maxRestarts = some max → p.restartCount ≤ max
  /-- It counts the automatic restarts since the budget last started afresh. -/
  charged : ∀ n p, u.record n = some p → p.restartCount = charges n ts
  /-- No incarnation is restarted automatically twice. -/
  once : ∀ k, ts.countP (autoRestarts k) ≤ 1
  /-- Every automatic restart is warranted. -/
  warranted : ∀ n, ∀ τ ∈ ts, setsUp .auto n τ = true → Warranted n τ

/-- **The crash budget** is kept by every run. -/
theorem crashBudget_of_run {w₀ u : World} {ts : List (Transition World Event)}
    (h₀ : daemon.init w₀) (hrun : daemon.Run w₀ ts u) : CrashBudget ts u where
  within n p policy max hp := by
    have hs := sound_of_reachable (w := u) ⟨w₀, ts, h₀, hrun⟩
    exact (hs.records n p hp).budget policy max
  charged := restartCount_eq_charges h₀ hrun
  once k := by
    have hs := sound_of_reachable (w := u) ⟨w₀, ts, h₀, hrun⟩
    exact (autoRestarts_le_ending h₀ hrun k).trans (ending_le_one hs k)
  warranted n τ hτ hset := by
    obtain ⟨hstep, us, hrun'⟩ := hrun.step_of_mem hτ
    exact warranted_of_setsUp ⟨w₀, us, h₀, hrun'⟩ hstep hset

namespace OneCrash

/-- A process that may be restarted once. -/
def spawn : PmCommand := .spawn "srv" (some "web") none none none (some ⟨.always, some 1, 0⟩) none 0

def spawned : World := (World.new "s").receive (.quiet 7) spawn

def crashed : World := spawned.leaderExit ⟨0, 7⟩ (some 1)

/-- The operating system once it has crashed. -/
def os : Os := { Os.quiet 8 with exits := crashed.exits }

/-- The tick sees the crash, and sets the timer. -/
def noticed : World := crashed.tick os

def restarted : World := noticed.deliver os (.autoRestart "web" 1)

def trace : List (Transition World Event) :=
  [⟨.new "s", .client (.quiet 7) spawn, spawned⟩, ⟨spawned, .exit ⟨0, 7⟩ (some 1), crashed⟩,
    ⟨crashed, .tick os, noticed⟩, ⟨noticed, .deliver os (.autoRestart "web" 1), restarted⟩]

end OneCrash

/-- A process that may be restarted once crashes, and its restart is charged. -/
theorem crashBudget_of_oneCrash :
    charges "web" OneCrash.trace = 1 ∧ CrashBudget OneCrash.trace OneCrash.restarted := by
  have hspawn : Step (.new "s") (.client (.quiet 7) OneCrash.spawn) OneCrash.spawned :=
    .client rfl rfl
  have hexit : Step OneCrash.spawned (.exit ⟨0, 7⟩ (some 1)) OneCrash.crashed :=
    .exit (by decide) rfl
  have htick : Step OneCrash.crashed (.tick OneCrash.os) OneCrash.noticed := .tick rfl
  have hfire : Step OneCrash.noticed (.deliver OneCrash.os (.autoRestart "web" 1))
      OneCrash.restarted := .deliver rfl (by decide)
  have hrun : daemon.Run (.new "s") OneCrash.trace OneCrash.restarted :=
    (((Machine.Run.refl.snoc hspawn).snoc hexit).snoc htick).snoc hfire
  exact ⟨by decide, crashBudget_of_run ⟨"s", rfl⟩ hrun⟩

end AgentProcs
