import AgentProcs.Supervision.AutoPorts
import AgentProcs.Supervision.UnderWay

/-!
# Supervision/Verdicts — what becomes of a record that still has its leader

    tick      running ──▸ exited ──▸ timer set  (due, budget left)  |  exhausted  (due, budget spent)
    restart   ───────────────────▸ stopping, to be respawned
    others    the same, or its exit is noticed

The verdicts of a tick fall on each record by itself: the table after a tick is the table before it,
record by record.  And as long as nobody asks for a stop, that is all that can become of a record
whose leader has not been torn down.
-/

namespace AgentProcs

/-- The record is given up. -/
def ManagedProcess.givenUp (p : ManagedProcess) : ManagedProcess :=
  match p.life with
  | .exited code _ inc timer => p.withLife (.exited code .exhausted inc timer)
  | _ => p

/-- Its restart timer is set. -/
def ManagedProcess.timed (p : ManagedProcess) : ManagedProcess :=
  match p.life with
  | .exited code why inc _ => p.withLife (.exited code why inc true)
  | _ => p

/-- **The verdict** of a tick on a record. -/
def ManagedProcess.verdict (p : ManagedProcess) : ManagedProcess :=
  if p.restartDue then if p.budgetSpent then p.givenUp else p.timed else p

namespace ManagedProcess

theorem verdict_generation (p : ManagedProcess) : p.verdict.generation = p.generation := by
  unfold verdict givenUp timed
  split
  · split
    · split <;> rfl
    · split <;> rfl
  · rfl

theorem verdict_inc (p : ManagedProcess) : p.verdict.life.inc = p.life.inc := by
  unfold verdict givenUp timed
  split
  · cases hl : p.life with
    | exited =>
      split
      · rfl
      · rfl
    | _ =>
      split
      · rw [hl]
      · rw [hl]
  · rfl

/-- There is none on a leader that runs. -/
theorem verdict_of_running {p : ManagedProcess} {inc : Incarnation} (hl : p.life = .running inc) :
    p.verdict = p := by
  rw [verdict, if_neg (by simp [restartDue, hl])]

end ManagedProcess

namespace Actor

variable {a : Actor} {n : String} {p : ManagedProcess}

/-! ## Folds over names -/

/-- **What concerns each name by itself**, done to many. -/
theorem lookup_foldl_own {f : Actor → String → Actor} {g : ManagedProcess → ManagedProcess}
    (hf : ∀ a name p, a.pm.processes.lookup name = some p → ∀ m,
      (f a name).pm.processes.lookup m = if m = name then some (g p) else a.pm.processes.lookup m)
    {names : List String} (hnd : names.Nodup)
    (hnames : ∀ m ∈ names, ∃ p, a.pm.processes.lookup m = some p) :
    (names.foldl f a).pm.processes.lookup n =
      if n ∈ names then (a.pm.processes.lookup n).map g else a.pm.processes.lookup n := by
  induction names generalizing a with
  | nil => rfl
  | cons name names ih =>
    obtain ⟨hname, hnd⟩ := List.nodup_cons.mp hnd
    obtain ⟨p, hp⟩ := hnames name List.mem_cons_self
    have hafter := hf a name p hp
    rw [List.foldl_cons, ih hnd fun m hm => ?_, hafter]
    · by_cases hn : n = name
      · subst hn
        rw [if_neg hname, if_pos rfl, if_pos List.mem_cons_self, hp, Option.map_some]
      · rw [if_neg hn]
        simp only [List.mem_cons, hn, false_or]
    · obtain ⟨q, hq⟩ := hnames m (List.mem_cons_of_mem _ hm)
      have hne : m ≠ name := fun he => hname (he ▸ hm)
      exact ⟨q, by rw [hafter, if_neg hne, hq]⟩

theorem lookup_exhaust (hp : a.pm.processes.lookup n = some p) (m : String) :
    (a.exhaust n).pm.processes.lookup m =
      if m = n then some p.givenUp else a.pm.processes.lookup m := by
  obtain rfl := Table.key_eq hp
  have hmarked : (a.pm.markFailed p.name).processes.lookup m =
      if m = p.name then some p.givenUp else a.pm.processes.lookup m := by
    rw [ProcessManager.markFailed, ProcessManager.find_of_lookup hp, ManagedProcess.givenUp]
    dsimp only
    cases hl : p.life with
    | exited code why inc timer =>
      by_cases hm : m = p.name
      · rw [if_pos hm, hm]
        exact Table.lookup_update_of (ManagedProcess.withLife _) (ManagedProcess.withLife_name _) hp
      · rw [if_neg hm]
        exact Table.lookup_update_ne hm _ _ _
    | running | stopping =>
      by_cases hm : m = p.name
      · rw [if_pos hm, hm]
        exact hp
      · rw [if_neg hm]
  rw [exhaust]
  dsimp only
  split
  · rw [pm_annotate]
    exact hmarked
  · exact hmarked

theorem lookup_armTimer (hp : a.pm.processes.lookup n = some p) (m : String) :
    (a.armTimer n).pm.processes.lookup m =
      if m = n then some p.timed else a.pm.processes.lookup m := by
  obtain rfl := Table.key_eq hp
  rw [armTimer, ProcessManager.find_of_lookup hp, ManagedProcess.timed]
  dsimp only
  cases hl : p.life with
  | exited code why inc timer =>
    by_cases hm : m = p.name
    · rw [if_pos hm, hm]
      exact Table.lookup_update_of (ManagedProcess.withLife _) (ManagedProcess.withLife_name _) hp
    · rw [if_neg hm]
      exact Table.lookup_update_ne hm _ _ _
  | running | stopping =>
    by_cases hm : m = p.name
    · rw [if_pos hm, hm]
      exact hp
    · rw [if_neg hm]

/-! ## The tick, record by record -/

/-- Who is on a list of the tick: the due records that it picks. -/
theorem mem_names_iff (pick : ManagedProcess → Bool) (hp : a.pm.processes.lookup n = some p) :
    n ∈ ((a.pm.processes.values.filter (·.restartDue)).filter pick).map (·.name) ↔
      p.restartDue = true ∧ pick p = true := by
  constructor
  · intro h
    obtain ⟨q, hq, rfl⟩ := List.mem_map.mp h
    obtain ⟨hq, hpick⟩ := List.mem_filter.mp hq
    obtain ⟨hq, hdue⟩ := List.mem_filter.mp hq
    obtain rfl := Option.some.inj (hp.symm.trans (Table.mem_values.mp hq))
    exact ⟨hdue, hpick⟩
  · rintro ⟨hdue, hpick⟩
    obtain rfl := Table.key_eq hp
    have hmem := List.mem_filter.mpr ⟨Table.mem_values.mpr hp, hdue⟩
    exact List.mem_map.mpr ⟨p, List.mem_filter.mpr ⟨hmem, hpick⟩, rfl⟩

/-- Whose timers are set, and who is given up. -/
theorem mem_restartable (hp : a.pm.processes.lookup n = some p) :
    n ∈ a.pm.classifyRestartCandidates.1 ↔ p.restartDue = true ∧ p.budgetSpent = false := by
  rw [← Bool.not_eq_true']
  exact mem_names_iff (fun p => !p.budgetSpent) hp

theorem mem_exhausted (hp : a.pm.processes.lookup n = some p) :
    n ∈ a.pm.classifyRestartCandidates.2 ↔ p.restartDue = true ∧ p.budgetSpent = true :=
  mem_names_iff (·.budgetSpent) hp

/-- Both lists name records, each once. -/
theorem restartable_spec : a.pm.classifyRestartCandidates.1.Nodup ∧
    ∀ m ∈ a.pm.classifyRestartCandidates.1, ∃ p, a.pm.processes.lookup m = some p := by
  obtain ⟨hnd, hdue⟩ := classify_spec (a := a) (fun p => !p.budgetSpent) false
    fun p h => by simpa using h
  exact ⟨hnd, fun m hm => (hdue m hm).imp fun _ => And.left⟩

theorem exhausted_spec : a.pm.classifyRestartCandidates.2.Nodup ∧
    ∀ m ∈ a.pm.classifyRestartCandidates.2, ∃ p, a.pm.processes.lookup m = some p := by
  obtain ⟨hnd, hdue⟩ := classify_spec (a := a) (·.budgetSpent) true fun _ h => h
  exact ⟨hnd, fun m hm => (hdue m hm).imp fun _ => And.left⟩

/-- The timers are set once the spent records are given up. -/
theorem scheduleRestarts_arms (hbatch : a.stopAll = none) : ∃ a' : Actor,
    a.scheduleRestarts = a.pm.classifyRestartCandidates.1.foldl armTimer a' ∧
    ∀ m, a'.pm.processes.lookup m = if m ∈ a.pm.classifyRestartCandidates.2 then
      (a.pm.processes.lookup m).map ManagedProcess.givenUp else a.pm.processes.lookup m := by
  have hgiven (m : String) := lookup_foldl_own (n := m) (fun _ _ _ => lookup_exhaust)
    exhausted_spec.1 (exhausted_spec (a := a)).2
  rw [scheduleRestarts, if_neg (by simp [hbatch])]
  refine ⟨_, rfl, fun m => ?_⟩
  split
  · exact hgiven m
  · rw [pm_publishProxyState]
    exact hgiven m

/-- Who is on one list is not on the other. -/
theorem lookup_of_restartable {a' : Actor} (hn : n ∈ a.pm.classifyRestartCandidates.1)
    (h : ∀ m, a'.pm.processes.lookup m = if m ∈ a.pm.classifyRestartCandidates.2 then
      (a.pm.processes.lookup m).map ManagedProcess.givenUp else a.pm.processes.lookup m) :
    a'.pm.processes.lookup n = a.pm.processes.lookup n := by
  obtain ⟨p, hp⟩ := restartable_spec.2 n hn
  have hleft := ((mem_restartable hp).mp hn).2
  rw [h, if_neg]
  intro hspent
  exact absurd (hleft.symm.trans ((mem_exhausted hp).mp hspent).2) (by simp)

/-- The verdicts fall record by record. -/
theorem lookup_scheduleRestarts (hbatch : a.stopAll = none) (n : String) :
    a.scheduleRestarts.pm.processes.lookup n =
      (a.pm.processes.lookup n).map ManagedProcess.verdict := by
  obtain ⟨a', heq, hgiven⟩ := scheduleRestarts_arms hbatch
  rw [heq, lookup_foldl_own (fun _ _ _ => lookup_armTimer) restartable_spec.1 fun m hm => ?_, hgiven]
  · cases hp : a.pm.processes.lookup n with
    | none => simp
    | some p =>
      by_cases hdue : p.restartDue = true
      · by_cases hspent : p.budgetSpent = true
        · simp [mem_restartable hp, mem_exhausted hp, hdue, hspent, ManagedProcess.verdict]
        · simp [mem_restartable hp, mem_exhausted hp, hdue, hspent, ManagedProcess.verdict]
      · simp [mem_restartable hp, mem_exhausted hp, hdue, ManagedProcess.verdict]
  · obtain ⟨p, hp⟩ := restartable_spec.2 m hm
    exact ⟨p, (lookup_of_restartable hm hgiven).trans hp⟩

/-- A timer that is set sends its `AutoRestart`. -/
theorem mem_inFlight_armTimer {code : Option ℤ} {why : ExitWhy} {inc : Option Incarnation}
    {timer : Bool} (hp : a.pm.processes.lookup n = some p)
    (hl : p.life = .exited code why inc timer) :
    .autoRestart n p.generation ∈ (a.armTimer n).inFlight := by
  rw [armTimer, ProcessManager.find_of_lookup hp]
  dsimp only
  rw [hl]
  exact List.mem_cons_self

theorem inFlight_armTimer {cmd : PmCommand} (h : cmd ∈ a.inFlight) (name : String) :
    cmd ∈ (a.armTimer name).inFlight := by
  rw [armTimer]
  split
  · exact h
  · split
    · exact List.mem_cons_of_mem _ h
    · exact h

theorem mem_inFlight_foldl_armTimer {names : List String} {code : Option ℤ} {why : ExitWhy}
    {inc : Option Incarnation} {timer : Bool} (hnd : names.Nodup)
    (hnames : ∀ m ∈ names, ∃ p, a.pm.processes.lookup m = some p) (hn : n ∈ names)
    (hp : a.pm.processes.lookup n = some p) (hl : p.life = .exited code why inc timer) :
    .autoRestart n p.generation ∈ (names.foldl armTimer a).inFlight := by
  obtain ⟨before, after, rfl⟩ := List.append_of_mem hn
  obtain ⟨hnd, -, hdisjoint⟩ := List.nodup_append.mp hnd
  have hkept : (before.foldl armTimer a).pm.processes.lookup n = some p := by
    rw [lookup_foldl_own (fun _ _ _ => lookup_armTimer) hnd fun m hm =>
      hnames m (List.mem_append_left _ hm), if_neg, hp]
    exact fun hmem => hdisjoint n hmem n List.mem_cons_self rfl
  rw [List.foldl_append, List.foldl_cons]
  exact List.foldlRecOn (motive := fun a' : Actor => .autoRestart n p.generation ∈ a'.inFlight)
    after armTimer (mem_inFlight_armTimer hkept hl) fun _ h name _ => inFlight_armTimer h name

/-- **A restart that is due is timed.** -/
theorem mem_inFlight_scheduleRestarts (hbatch : a.stopAll = none)
    (hp : a.pm.processes.lookup n = some p) (hdue : p.restartDue = true)
    (hleft : p.budgetSpent = false) : .autoRestart n p.generation ∈ a.scheduleRestarts.inFlight := by
  obtain ⟨a', heq, hgiven⟩ := scheduleRestarts_arms hbatch
  have hn := (mem_restartable hp).mpr ⟨hdue, hleft⟩
  rw [heq]
  cases hl : p.life with
  | running | stopping => exact absurd hdue (by simp [ManagedProcess.restartDue, hl])
  | exited code why inc timer =>
    refine mem_inFlight_foldl_armTimer restartable_spec.1 (fun m hm => ?_) hn
      ((lookup_of_restartable hn hgiven).trans hp) hl
    exact (restartable_spec.2 m hm).imp fun _ => (lookup_of_restartable hm hgiven).trans

/-- **A tick, record by record**: each is looked at, and then judged. -/
theorem tick_eq (os : Os) (a : Actor) (hbatch : a.stopAll = none) : ∃ a' : Actor,
    a.tick os = a'.scheduleRestarts ∧ a'.stopAll = none ∧ ∀ m, a'.pm.processes.lookup m =
      (a.pm.processes.lookup m).map (·.observeExit os) := by
  rw [tick]
  refine ⟨_, rfl, ?_, fun m => ?_⟩
  · split
    · exact (congrArg Holdings.stopAll (holdings_publishProxyState _)).trans hbatch
    · exact hbatch
  · rw [← lookup_refresh]
    split
    · exact congrArg (·.processes.lookup m) (pm_publishProxyState _)
    · rfl

theorem lookup_tick (os : Os) (hbatch : a.stopAll = none) (n : String) :
    (a.tick os).pm.processes.lookup n =
      (a.pm.processes.lookup n).map fun p => (p.observeExit os).verdict := by
  obtain ⟨a', heq, hnone, hlooked⟩ := tick_eq os a hbatch
  rw [heq, lookup_scheduleRestarts hnone, hlooked, Option.map_map]
  rfl

theorem mem_inFlight_tick (os : Os) (hbatch : a.stopAll = none)
    (hp : a.pm.processes.lookup n = some p) (hdue : (p.observeExit os).restartDue = true)
    (hleft : (p.observeExit os).budgetSpent = false) :
    .autoRestart n p.generation ∈ (a.tick os).inFlight := by
  obtain ⟨a', heq, hnone, hlooked⟩ := tick_eq os a hbatch
  have hp' := (hlooked n).trans (congrArg (Option.map _) hp)
  rw [heq, ← p.observeExit_generation os]
  exact mem_inFlight_scheduleRestarts hnone hp' hdue hleft

/-! ## The others, record by record -/

/-- A `Run` leaves the records alone that are there. -/
theorem lookup_handleSpawn (os : Os) (command : String) (name cwd : Option String)
    (env : Option (List (String × String))) (port : Option ℕ) (restart : Option RestartPolicy)
    (watch : Option WatchConfig) (reply : Reply) (hp : a.pm.processes.lookup n = some p) :
    (a.handleSpawn os command name cwd env port restart watch reply).pm.processes.lookup n =
      some p := by
  have hpm (a₁ : Actor) (resp : Response) :
      (a₁.publishProxyState.respond reply resp).pm = a₁.pm := pm_publishProxyState a₁
  rcases handleSpawn_cases os command name cwd env port restart watch reply a with ⟨-, hspawn⟩ |
    ⟨-, ⟨pm, code, message, herror, hspawn⟩ | ⟨pm, r, id, pid, port', url, url', -, h, -, hspawn⟩⟩
  · rw [hspawn]
    exact hp
  · rw [hspawn, hpm, (spawnProcess_of_error herror).2.1]
    exact hp
  · obtain ⟨handle, config, hfitted⟩ := fitted_outfit os restart watch h
    have hne : n ≠ r.name := by
      rintro rfl
      exact absurd (h.free.symm.trans hp) (by simp)
    rw [hspawn, hpm, hfitted.lookup, if_neg hne]
    exact hp

theorem lookup_handleStatus (os : Os) (reply : Reply) :
    (a.handleStatus os reply).pm.processes.lookup n =
      (a.pm.processes.lookup n).map (·.observeExit os) := by
  rw [← lookup_refresh, handleStatus]
  split
  · exact congrArg (·.processes.lookup n) (pm_publishProxyState _)
  · rfl

theorem lookup_handleIsProcessExited (os : Os) (target : String) (reply : Reply) :
    (a.handleIsProcessExited os target reply).pm.processes.lookup n =
      (a.pm.processes.lookup n).map (·.observeExit os) := by
  rw [← lookup_refresh, handleIsProcessExited]
  exact congrArg (·.processes.lookup n) (pm_publishProxyState _)

theorem lookup_handleEnableProxy (proxyPort : ℕ) (reply : Reply) :
    (a.handleEnableProxy proxyPort reply).pm.processes.lookup n = a.pm.processes.lookup n := by
  rw [handleEnableProxy]
  split
  · rfl
  · exact congrArg (·.processes.lookup n) (pm_publishProxyState _)

/-- A report only concerns its own record, unless a batch is open. -/
theorem lookup_finishTeardown_ne (os : Os) (code : Option ℤ) {q : ManagedProcess}
    (hq : a.pm.processes.lookup q.name = some q) (hstop : q.life.isStopping = true)
    (hbatch : a.stopAll = none) (hn : n ≠ q.name) :
    (a.finishTeardown os q.name q.generation code).pm.processes.lookup n =
      a.pm.processes.lookup n := by
  cases hl : q.life with
  | running | exited => exact absurd hstop (by simp [hl])
  | stopping leaderExit andThen ws =>
    cases andThen with
    | park =>
      have hparked : Actor.stopAll { a with
          pm := a.pm.setLife q.name (.exited code .manual none false) } = none := hbatch
      rw [finishTeardown_park os code hq hl, pm_told_of_none _ _ _ hparked]
      exact Table.lookup_update_ne hn _ _ _
    | respawn reason => exact (finishTeardown_respawn_cases os code hq hl hbatch).1 n hn

end Actor

/-! ## A step -/

/-- **What becomes of a record** whose leader has not been torn down, when nobody asks for its stop. -/
inductive Left (w : World) (e : Event) (p : ManagedProcess) : ManagedProcess → Prop
  | same : Left w e p p
  | seen {os : Os} (hos : os.exits = w.exits) : Left w e p (p.observeExit os)
  | judged {os : Os} (he : e = .tick os) (hos : os.exits = w.exits) : Left w e p (p.observeExit os).verdict
  | handed {q : ManagedProcess} {leaderExit : Option (Option ℤ)} {reason : RespawnReason}
      {ws : List Waiter} (hgen : q.generation = p.generation)
      (hlife : q.life = .stopping leaderExit (.respawn reason) ws) : Left w e p q

/-- Nobody asks for the stop of the record. -/
def Event.Spares (w : World) (n : String) (e : Event) : Prop :=
  ∀ waiter, e.commands w n ≠ some (.park, waiter)

variable {w w' : World} {e : Event} {n : String} {p : ManagedProcess}

theorem not_settled_of_inc {l : Life} (h : l.inc.isSome = true) : ¬l.Settled := by
  rintro (⟨_, _, rfl⟩ | ⟨_, _, _, rfl⟩)
  · exact Bool.noConfusion h
  · exact Bool.noConfusion h

theorem not_stopping_of_inc {l : Life} (h : l.inc.isSome = true) : l.isStopping = false := by
  by_contra hstop
  rw [Life.inc_of_stopping (Bool.eq_true_of_not_eq_false hstop)] at h
  exact Bool.noConfusion h

/-- What a record that is handed over is left as. -/
theorem Left.of_handOver (w : World) (e : Event) (p : ManagedProcess) (reason : RespawnReason)
    (waiter : Option Waiter) : Left w e p (p.handOver (.respawn reason) waiter) :=
  .handed rfl rfl

/-- A restart that the daemon sends itself hands its record over. -/
theorem left_handedOver {a a' : Actor} {q : ManagedProcess} {reason : RespawnReason}
    (hp : a.pm.processes.lookup n = some p) (hq : a.pm.processes.lookup q.name = some q)
    (h : a'.holdings = a.handedOver q (.respawn reason)) (w : World) (e : Event) :
    ∃ r, a'.pm.processes.lookup n = some r ∧ Left w e p r := by
  have hprocs : a'.pm.processes =
      a.pm.processes.update q.name (ManagedProcess.handOver (.respawn reason) none) fun _ => rfl :=
    congrArg Holdings.processes h
  rw [hprocs]
  by_cases hn : n = q.name
  · subst hn
    obtain rfl := Option.some.inj (hp.symm.trans hq)
    exact ⟨_, Table.lookup_update_of _ _ hp, .of_handOver ..⟩
  · exact ⟨p, (Table.lookup_update_ne hn _ _ _).trans hp, .same⟩

/-- A restart of the record itself hands it over, and of another only looks at it. -/
theorem left_restart {os : Os} (hos : os.exits = w.exits) (target : String) (reply : Reply)
    (hp : w.record n = some p) (hinc : p.life.inc.isSome = true) (hbatch : w.actor.stopAll = none) :
    ∃ q, (w.actor.handleRestart os target reply).pm.processes.lookup n = some q ∧ Left w e p q := by
  by_cases htargets : w.actor.targets target n = true
  · have hlooked : (w.actor.refresh os).pm.processes.lookup n = some (p.observeExit os) :=
      (Actor.lookup_refresh os).trans (congrArg (Option.map _) hp)
    have hinc' : (p.observeExit os).life.inc.isSome = true := by
      rw [ManagedProcess.observeExit_inc]
      exact hinc
    rw [Actor.handleRestart, if_neg (by simp [hbatch])]
    dsimp only
    split
    · rename_i hfind
      exact absurd (htargets.symm.trans (Actor.targets_of_find_none hfind)) (by simp)
    · rename_i q hfind
      have hname : q.name = n := beq_iff_eq.mp ((Actor.targets_of_find hfind).symm.trans htargets)
      have hq := ProcessManager.lookup_of_find hfind
      rw [hname] at hq
      obtain rfl := Option.some.inj (hq.symm.trans hlooked)
      have hidle := not_stopping_of_inc hinc'
      split
      · rename_i hl
        exact absurd hidle (by simp [hl])
      · rw [hname, Actor.lookup_startTeardown hq hidle, if_pos rfl]
        exact ⟨_, rfl, .handed (p.observeExit_generation os) rfl⟩
  · have hlooked := Actor.lookup_handleRestart_ne (m := n) os reply hbatch
      (Bool.eq_false_of_not_eq_true htargets)
    exact ⟨_, hlooked.trans (congrArg (Option.map _) hp), .seen hos⟩

/-- **One step of the daemon**, for a record whose leader has not been torn down. -/
theorem left_step (hs : Sound w.books w.actor.holdings) (hstep : Step w e w')
    (hp : w.record n = some p) (hinc : p.life.inc.isSome = true) (hspares : e.Spares w n) :
    ∃ q, w'.record n = some q ∧ Left w e p q := by
  have hbatch : w.actor.stopAll = none := hs.no_batch hp (not_settled_of_inc hinc)
  have hsame {a : Actor} (h : a.pm.processes.lookup n = w.actor.pm.processes.lookup n) :
      ∃ q, a.pm.processes.lookup n = some q ∧ Left w e p q := ⟨p, h.trans hp, .same⟩
  have hseen {os : Os} (hos : os.exits = w.exits) {a : Actor} (h : a.pm.processes.lookup n =
      (w.actor.pm.processes.lookup n).map (·.observeExit os)) :
      ∃ q, a.pm.processes.lookup n = some q ∧ Left w e p q :=
    ⟨_, h.trans (congrArg (Option.map _) hp), .seen hos⟩
  cases hstep with
  | exit | fileChanged | teardownDone => exact ⟨p, hp, .same⟩
  | tick hos =>
    exact ⟨_, (Actor.lookup_tick _ hbatch n).trans (congrArg (Option.map _) hp), .judged rfl hos⟩
  | @client os cmd hos hreply =>
    cases cmd with
    | autoRestart | watchRestart | stopFinished => exact absurd hreply (by simp [PmCommand.reply])
    | spawn => exact ⟨p, Actor.lookup_handleSpawn _ _ _ _ _ _ _ _ _ hp, .same⟩
    | stop target reply =>
      refine hseen hos (Actor.lookup_handleStop_ne os reply ?_)
      by_contra htargets
      exact hspares _ (if_pos (Bool.eq_true_of_not_eq_false htargets))
    | stopAll => exact absurd rfl (hspares none)
    | restart target reply => exact left_restart hos target reply hp hinc hbatch
    | status | statusSnapshot => exact hseen hos (Actor.lookup_handleStatus ..)
    | isProcessExited => exact hseen hos (Actor.lookup_handleIsProcessExited ..)
    | enableProxy => exact hsame (Actor.lookup_handleEnableProxy ..)
    | hasProcess | sessionName | subscribe => exact ⟨p, hp, .same⟩
  | @deliver os cmd hos hmem =>
    obtain ⟨m, g, hstamp, hissued⟩ := hs.stamps.inFlight cmd hmem
    cases cmd with
    | autoRestart name generation =>
      obtain ⟨rfl, rfl⟩ := Prod.mk.inj (Option.some.inj hstamp)
      let taken := w.take (.autoRestart name generation)
      rcases Actor.handleAutoRestart_cases (a := taken.actor) hissued with h | ⟨q, -, -, -, hq, h⟩
      · have hlookup := congrArg (fun a : Actor => a.pm.processes.lookup n) h
        exact hsame hlookup
      · exact left_handedOver (a := taken.actor) hp hq h w _
    | watchRestart name generation =>
      obtain ⟨rfl, rfl⟩ := Prod.mk.inj (Option.some.inj hstamp)
      let taken := w.take (.watchRestart name generation)
      rcases Actor.handleWatchRestart_cases (a := taken.actor) hissued with h | ⟨q, -, -, -, hq, h⟩
      · have hlookup := congrArg (fun a : Actor => a.pm.processes.lookup n) h
        exact hsame hlookup
      · exact left_handedOver (a := taken.actor) hp hq h w _
    | stopFinished name generation code =>
      obtain ⟨q, hq, rfl, rfl, hstop⟩ := due_of_inFlight hs hmem
      have hn : n ≠ q.name := by
        rintro rfl
        obtain rfl := Option.some.inj (hp.symm.trans hq)
        exact absurd (hstop.symm.trans (not_stopping_of_inc hinc)) (by simp)
      exact hsame (Actor.lookup_finishTeardown_ne
        (a := (w.take (.stopFinished q.name q.generation code)).actor) os code hq hstop hbatch hn)
    | _ => exact absurd hstamp (by simp [PmCommand.stamp])

end AgentProcs
