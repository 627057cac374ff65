import AgentProcs.Supervision.Replies
import AgentProcs.Supervision.Spared

/-!
# Supervision/LastCommand — the last command during a stop wins

    begin ──▸ stopping, c₀, [w₀] ──command──▸ stopping, c₁, [w₀, w₁] ──▸ ⋯ ──report──▸ park | respawn

A command that meets a teardown under way joins it: what follows the stop is now what this command
asks for, and its client waits with the others.  Timers and file changes are no such commands; they
can begin a teardown, but find nothing to do while one is under way.  So when the report arrives,
the life of the record says what the last command asked for, and lists everyone who waits.
-/

namespace AgentProcs

/-! ## Commands -/

/-- What is asked of a record: what shall follow its stop, and who waits for that. -/
abbrev Ask := AfterStop × Option Waiter

/-- The target names the record `n`. -/
def Actor.targets (target n : String) (a : Actor) : Bool := (a.pm.find target).any (·.name == n)

/-- What a client's command asks of the record `n`, where it is accepted. -/
def Event.commands (w : World) (n : String) : Event → Option Ask
  | .client _ (.stop target reply) =>
    if w.actor.targets target n then some (.park, some (.stop reply)) else none
  | .client _ (.restart target reply) =>
    if w.actor.stopAll.isNone && w.actor.targets target n then
      some (.respawn .manual, some (.restart reply))
    else none
  | .client _ (.stopAll _) => some (.park, none)
  | _ => none

/-- What an event asks that may begin a teardown of the record `n`. -/
def Event.asks (w : World) (n : String) : Event → Option Ask
  | .deliver _ (.autoRestart name _) => if name = n then some (.respawn .auto, none) else none
  | .deliver _ (.watchRestart name _) => if name = n then some (.respawn .watch, none) else none
  | e => e.commands w n

/-- The event is the report of a teardown of `n`. -/
def Event.reports (n : String) : Event → Prop
  | .deliver _ (.stopFinished name _ _) => name = n
  | _ => False

/-- A teardown under way, joined by a command. -/
def Life.join (ask : Ask) : Life → Life
  | .stopping leaderExit _ waiters => .stopping leaderExit ask.1 (waiters ++ ask.2.toList)
  | life => life

/-- The record after a command it may have been given. -/
def ManagedProcess.obey : Option Ask → ManagedProcess → ManagedProcess
  | some ask, p => p.withLife (p.life.join ask)
  | none, p => p

@[simp] theorem Life.isStopping_join (ask : Ask) (l : Life) :
    (l.join ask).isStopping = l.isStopping := by
  cases l <;> rfl

@[simp] theorem ManagedProcess.obey_none (p : ManagedProcess) : p.obey none = p := rfl

@[simp] theorem ManagedProcess.isStopping_obey (ask : Option Ask) (p : ManagedProcess) :
    (p.obey ask).life.isStopping = p.life.isStopping := by
  cases ask with
  | none => rfl
  | some ask => exact Life.isStopping_join ask p.life

@[simp] theorem ManagedProcess.generation_obey (ask : Option Ask) (p : ManagedProcess) :
    (p.obey ask).generation = p.generation := by
  cases ask <;> rfl

namespace Actor

variable {n : String} {a : Actor} {p q : ManagedProcess}

/-- A target still names the same record after a look at the leaders. -/
theorem targets_of_find {os : Os} {target : String}
    (hfind : (a.refresh os).pm.find target = some q) : a.targets target n = (q.name == n) := by
  obtain ⟨p, hp, rfl⟩ := Option.map_eq_some_iff.mp
    ((a.pm.find_refreshExitStates os target).symm.trans hfind)
  rw [targets, hp, Option.any_some, ManagedProcess.observeExit_name]

theorem targets_of_find_none {os : Os} {target : String}
    (hfind : (a.refresh os).pm.find target = none) : a.targets target n = false := by
  have hnone := Option.map_eq_none_iff.mp
    ((a.pm.find_refreshExitStates os target).symm.trans hfind)
  rw [targets, hnone]
  rfl

/-! ## A command meets a record

Either the record is spared, and then it was not stopping or the command is not for it; or the
command joins the teardown under way; or it begins one. -/

/-- What a command does to the record `n`. -/
inductive Met (n : String) (a a' : Actor) : Option Ask → Prop
  | spared (h : Spares n a a') (ask : Option Ask)
      (hask : ∀ p, a.pm.processes.lookup n = some p → p.life.isStopping = true →
        p.obey ask = p) : Met n a a' ask
  | joined {p : ManagedProcess} {ask : Ask} (hp : a.pm.processes.lookup n = some p)
      (hstop : p.life.isStopping = true)
      (h : a'.pm.processes.lookup n = some (p.obey (some ask))) : Met n a a' (some ask)
  | begun {p q : ManagedProcess} {leaderExit : Option (Option ℤ)} {ask : Ask}
      (hp : a.pm.processes.lookup n = some p) (hidle : p.life.isStopping = false)
      (h : a'.pm.processes.lookup n = some q)
      (hq : q.life = .stopping leaderExit ask.1 ask.2.toList) : Met n a a' (some ask)

namespace Met

variable {a' a'' : Actor} {ask : Option Ask}

theorem unasked (h : Spares n a a') : Met n a a' none := .spared h none fun _ _ _ => rfl

/-- A record that is spared first is met as it was. -/
theorem after (h : Met n a' a'' ask) (hs : Spares n a a')
    (hidle : ∀ p, a'.pm.processes.lookup n = some p → p.life.isStopping = false →
      ∃ q, a.pm.processes.lookup n = some q ∧ q.life.isStopping = false) : Met n a a'' ask := by
  cases h with
  | spared h _ hask =>
    exact .spared (hs.trans h) _ fun p hp hstop => hask p ((hs p hstop).mpr hp) hstop
  | joined hp hstop h => exact .joined ((hs _ hstop).mp hp) hstop h
  | begun hp hnot h hq =>
    obtain ⟨p, hp, hnot⟩ := hidle _ hp hnot
    exact .begun hp hnot h hq

/-- A look at the leaders changes nothing about how a record is met. -/
theorem of_refresh (os : Os) (h : Met n (a.refresh os) a' ask) : Met n a a' ask := by
  refine h.after (spares_refresh os a) fun p hp hidle => ?_
  have hlookup : (a.refresh os).pm.processes.lookup n =
      (a.pm.processes.lookup n).map (·.observeExit os) :=
    Table.lookup_map _ (ManagedProcess.observeExit_name os) _ _
  obtain ⟨q, hq, rfl⟩ := Option.map_eq_some_iff.mp (hlookup.symm.trans hp)
  exact ⟨q, hq, by rwa [ManagedProcess.observeExit_isStopping] at hidle⟩

/-- A stopping record that is met obeys. -/
theorem obeys (h : Met n a a' ask) (hp : a.pm.processes.lookup n = some p)
    (hstop : p.life.isStopping = true) : a'.pm.processes.lookup n = some (p.obey ask) := by
  cases h with
  | spared h _ hask => rw [hask p hp hstop, (h p hstop).mpr hp]
  | joined hp' _ h =>
    obtain rfl := Option.some.inj (hp.symm.trans hp')
    exact h
  | begun hp' hidle =>
    obtain rfl := Option.some.inj (hp.symm.trans hp')
    exact absurd (hstop.symm.trans hidle) (by simp)

/-- A record that begins to stop was asked to. -/
theorem asked (h : Met n a a' ask)
    (hbefore : ∀ p, a.pm.processes.lookup n = some p → p.life.isStopping = false)
    (hq : a'.pm.processes.lookup n = some q) (hstop : q.life.isStopping = true) :
    ∃ leaderExit c waiter, ask = some (c, waiter) ∧
      q.life = .stopping leaderExit c waiter.toList := by
  cases h with
  | spared h => exact absurd (hstop.symm.trans (hbefore q ((h q hstop).mp hq))) (by simp)
  | joined hp hstop' => exact absurd (hstop'.symm.trans (hbefore _ hp)) (by simp)
  | @begun _ _ leaderExit ask _ _ h hlife =>
    obtain rfl := Option.some.inj (h.symm.trans hq)
    exact ⟨leaderExit, ask.1, ask.2, rfl, hlife⟩

end Met

/-- Beginning a teardown spares the other records. -/
theorem met_startTeardown {name : String} (hq : a.pm.processes.lookup name = some q)
    (hlife : q.life.isStopping = false) (andThen : AfterStop) (waiter : Option Waiter) :
    Met n a (a.startTeardown name andThen waiter)
      (if name = n then some (andThen, waiter) else none) := by
  have hlookup := lookup_startTeardown hq hlife andThen waiter n
  split
  · subst n
    exact .begun hq hlife (hlookup.trans (if_pos rfl)) rfl
  · rename_i hne
    exact .unasked (.of_lookup (hlookup.trans (if_neg fun he => hne he.symm)))

/-- Joining a teardown spares the other records. -/
theorem met_join {name : String} {leaderExit : Option (Option ℤ)} {was : AfterStop}
    {ws : List Waiter} (hq : a.pm.processes.lookup name = some q)
    (hlife : q.life = .stopping leaderExit was ws) (andThen : AfterStop) (waiter : Option Waiter) :
    let joined := .stopping leaderExit andThen (ws ++ waiter.toList)
    Met n a { a with pm := a.pm.setLife name joined }
      (if name = n then some (andThen, waiter) else none) := by
  split
  · subst n
    refine .joined hq (by rw [hlife]; rfl) ((lookup_update hq (ManagedProcess.withLife _)
      (ManagedProcess.withLife_name _)).trans ?_)
    rw [ManagedProcess.obey, hlife]
    rfl
  · rename_i hne
    exact .unasked (spares_update_ne (fun he => hne he.symm) _ _)

/-- `Stop`, and the record `n`. -/
theorem met_handleStop (os : Os) (target : String) (reply : Reply) (a : Actor) :
    Met n a (a.handleStop os target reply)
      (if a.targets target n then some (.park, some (.stop reply)) else none) := by
  refine Met.of_refresh os ?_
  rw [handleStop]
  cases hfind : (a.refresh os).pm.find target with
  | none =>
    rw [targets_of_find_none hfind]
    exact .unasked (.of_pm rfl)
  | some q =>
    rw [targets_of_find hfind]
    dsimp only
    have hq := ProcessManager.lookup_of_find hfind
    simp only [beq_iff_eq]
    cases hl : q.life with
    | running inc => exact met_startTeardown hq (by rw [hl]; rfl) _ _
    | stopping leaderExit was ws => exact met_join hq hl .park (some (.stop reply))
    | exited code why inc timer =>
      have hidle : q.life.isStopping = false := by rw [hl]; rfl
      cases inc with
      | some inc => exact met_startTeardown hq hidle _ _
      | none =>
        refine .spared ?_ _ fun p hp hstop => ?_
        · exact (spares_update hq hidle (fun p => { p with watchHandle := none })
            (fun _ => rfl) hidle).trans (.of_pm rfl)
        · split
          · subst n
            obtain rfl := Option.some.inj (hq.symm.trans hp)
            exact absurd (hstop.symm.trans hidle) (by simp)
          · rfl

/-- `Restart`, and the record `n`. -/
theorem met_handleRestart (os : Os) (target : String) (reply : Reply) (a : Actor) :
    Met n a (a.handleRestart os target reply)
      (if a.stopAll.isNone && a.targets target n then
        some (.respawn .manual, some (.restart reply)) else none) := by
  rw [handleRestart]
  split
  · rename_i hsome
    rw [Option.isNone_eq_false_iff.mpr hsome]
    exact .unasked (.of_pm rfl)
  rename_i hsome
  rw [Option.isNone_iff_eq_none.mpr (Option.not_isSome_iff_eq_none.mp hsome), Bool.true_and]
  refine Met.of_refresh os ?_
  dsimp only
  cases hfind : (a.refresh os).pm.find target with
  | none =>
    rw [targets_of_find_none hfind]
    exact .unasked (.of_pm rfl)
  | some q =>
    rw [targets_of_find hfind]
    dsimp only
    have hq := ProcessManager.lookup_of_find hfind
    simp only [beq_iff_eq]
    cases hl : q.life with
    | running inc => exact met_startTeardown hq (by rw [hl]; rfl) _ _
    | exited code why inc timer => exact met_startTeardown hq (by rw [hl]; rfl) _ _
    | stopping leaderExit was ws => exact met_join hq hl (.respawn .manual) (some (.restart reply))

/-! ## Stop-all -/

end Actor

/-- What a stop-all makes of a record. -/
def ManagedProcess.swept (p : ManagedProcess) : ManagedProcess :=
  match p.life with
  | .stopping leaderExit _ waiters => p.withLife (.stopping leaderExit .park waiters)
  | .exited _ _ none _ => p
  | life => { p with watchHandle := none, life := .stopping life.leaderExit .park [] }

theorem ManagedProcess.swept_swept (p : ManagedProcess) : p.swept.swept = p.swept := by
  rw [swept.eq_def p]
  split
  · rfl
  · rename_i hl
    rw [swept, hl]
  · rfl

theorem ManagedProcess.swept_of_stopping {p : ManagedProcess} (h : p.life.isStopping = true) :
    p.swept = p.obey (some (.park, none)) := by
  rw [swept, obey]
  cases hl : p.life with
  | running => exact absurd h (by simp [hl])
  | exited => exact absurd h (by simp [hl])
  | stopping leaderExit was ws => simp [Life.join]

/-- A record that was not stopping is swept into a stop nobody waits for, or left as it is. -/
theorem ManagedProcess.swept_of_idle {p : ManagedProcess} (h : p.life.isStopping = false) :
    p.swept = p ∨ ∃ leaderExit, p.swept.life = .stopping leaderExit .park [] := by
  rw [swept]
  split
  · rename_i hl
    exact absurd h (by simp [hl])
  · exact .inl rfl
  · exact .inr ⟨_, rfl⟩

namespace Actor

variable {n : String} {a : Actor} {p q : ManagedProcess}

theorem lookup_stopOne {st : Actor × Finset String} {name : String}
    (hp : st.1.pm.processes.lookup name = some p) (m : String) :
    (stopOne st name).1.pm.processes.lookup m =
      if m = name then some p.swept else st.1.pm.processes.lookup m := by
  obtain rfl := Table.key_eq hp
  rw [stopOne, ProcessManager.find_of_lookup hp, ManagedProcess.swept]
  dsimp only
  cases hl : p.life with
  | running inc =>
    rw [lookup_startTeardown hp (by rw [hl]; rfl), hl]
    rfl
  | stopping leaderExit was ws =>
    by_cases hm : m = p.name
    · rw [if_pos hm, hm]
      exact Table.lookup_update_of (ManagedProcess.withLife _) (ManagedProcess.withLife_name _) hp
    · rw [if_neg hm]
      exact Table.lookup_update_ne hm _ _ _
  | exited code why inc timer =>
    cases inc with
    | some inc =>
      rw [lookup_startTeardown hp (by rw [hl]; rfl), hl]
      rfl
    | none =>
      by_cases hm : m = p.name
      · rw [if_pos hm, hm]
        exact hp
      · rw [if_neg hm]

/-- The sweep of a stop-all, seen from one record. -/
theorem lookup_foldl_stopOne (m : String) : ∀ (names : List String) (st : Actor × Finset String),
    (∀ n ∈ names, ∃ p, st.1.pm.processes.lookup n = some p) →
    (names.foldl stopOne st).1.pm.processes.lookup m =
      if m ∈ names then (st.1.pm.processes.lookup m).map ManagedProcess.swept
      else st.1.pm.processes.lookup m
  | [], st, _ => rfl
  | name :: names, st, hnames => by
    obtain ⟨p, hp⟩ := hnames name List.mem_cons_self
    have hafter := lookup_stopOne hp
    have hrest : ∀ n ∈ names, ∃ p, (stopOne st name).1.pm.processes.lookup n = some p := by
      intro n hn
      rw [hafter]
      split
      · exact ⟨_, rfl⟩
      · exact hnames n (List.mem_cons_of_mem name hn)
    rw [List.foldl_cons, lookup_foldl_stopOne m names _ hrest, hafter]
    by_cases hm : m = name
    · subst m
      rw [if_pos rfl, if_pos List.mem_cons_self, hp, Option.map_some, Option.map_some,
        ManagedProcess.swept_swept, ite_self]
    · rw [if_neg hm]
      simp only [List.mem_cons, hm, false_or]

/-- `StopAll`, and the record `n`: during a batch its stop already ends in a park. -/
theorem met_handleStopAll {b : Books} (os : Os) (reply : Reply) (hs : Sound b a.holdings) :
    Met n a (a.handleStopAll os reply) (some (.park, none)) := by
  rw [handleStopAll]
  cases hB : a.stopAll with
  | some B =>
    refine .spared ?_ _ fun p hp hstop => ?_
    · exact .of_pm rfl
    · rcases (hs.batch B hB).2.2 n p hp with ⟨leaderExit, ws, hl⟩ | ⟨_, _, _, hl⟩
      · rw [ManagedProcess.obey, hl]
        simp [Life.join, ManagedProcess.withLife, ← hl]
      · exact absurd hstop (by simp [hl])
  | none =>
    refine Met.of_refresh os ?_
    have hnames : ∀ m ∈ (a.refresh os).pm.names,
        ∃ p, (a.refresh os).pm.processes.lookup m = some p := fun m hm => Table.mem_keys.mp hm
    have hlookup := lookup_foldl_stopOne n _ ((a.refresh os), ∅) hnames
    obtain ⟨-, hS, -, -⟩ := swept_stopAll os hB
    dsimp only at hS ⊢
    generalize (a.refresh os).pm.names.foldl stopOne (a.refresh os, ∅) = st at hlookup hS ⊢
    obtain ⟨a', S⟩ := st
    dsimp only at hlookup hS ⊢
    have hwaits (p : ManagedProcess) (hp : a'.pm.processes.lookup n = some p)
        (hstop : p.life.isStopping = true) : S ≠ ∅ := by
      intro hempty
      exact absurd ((hS n).mpr ⟨p, hp, hstop⟩) (hempty ▸ Finset.notMem_empty n)
    have hafter (B : StopAllBatch) : (if S = ∅ then finishStopAll { a' with stopAll := some B }
        else { a' with stopAll := some B }).publishProxyState.pm =
          if S = ∅ then a'.pm.clear else a'.pm := by
      rw [pm_publishProxyState]
      split
      · exact pm_finishStopAll rfl
      · rfl
    cases hp : (a.refresh os).pm.processes.lookup n with
    | none =>
      rw [hp, Option.map_none, ite_self] at hlookup
      refine .spared (.of_idle (fun p hp' => absurd (hp.symm.trans hp') (by simp))
        fun p hp' => ?_) _ fun p hp' => absurd (hp.symm.trans hp') (by simp)
      rw [hafter] at hp'
      split at hp'
      · exact absurd hp' (by simp [ProcessManager.clear])
      · exact absurd (hlookup.symm.trans hp') (by simp)
    | some p =>
      have hname : n ∈ (a.refresh os).pm.names := Table.mem_keys.mpr ⟨p, hp⟩
      rw [hp, if_pos hname, Option.map_some] at hlookup
      have hkept (hstop : p.swept.life.isStopping = true) (B : StopAllBatch) :
          (if S = ∅ then finishStopAll { a' with stopAll := some B }
            else { a' with stopAll := some B }).publishProxyState.pm.processes.lookup n =
              some p.swept := by
        rw [hafter, if_neg (hwaits _ hlookup hstop), hlookup]
      cases hstop : p.life.isStopping with
      | true =>
        have hswept := ManagedProcess.swept_of_stopping hstop
        refine .joined hp hstop ((hkept ?_ _).trans (congrArg some hswept))
        rw [hswept, ManagedProcess.isStopping_obey, hstop]
      | false =>
        rcases ManagedProcess.swept_of_idle hstop with hsame | ⟨leaderExit, hl⟩
        · refine .spared (.of_idle (fun q hq => ?_) fun q hq => ?_) _ fun q hq hstop' => ?_
          · exact Option.some.inj (hp.symm.trans hq) ▸ hstop
          · rw [hafter] at hq
            split at hq
            · exact absurd hq (by simp [ProcessManager.clear])
            · obtain rfl := Option.some.inj ((hsame ▸ hlookup).symm.trans hq)
              exact hstop
          · obtain rfl := Option.some.inj (hp.symm.trans hq)
            exact absurd (hstop'.symm.trans hstop) (by simp)
        · exact .begun hp hstop (hkept (by rw [hl]; rfl) _) hl

/-! ## Timers and file changes -/

/-- Handing over a record to a teardown, seen from the record `n`. -/
theorem met_handOver {a' : Actor} {reason : RespawnReason}
    (hp : a.pm.processes.lookup p.name = some p) (hidle : p.life.isStopping = false)
    (h : a'.pm.processes = a.pm.processes.update p.name
      (ManagedProcess.handOver (.respawn reason) none) fun _ => rfl) :
    Met n a a' (if p.name = n then some (.respawn reason, none) else none) := by
  split
  · subst n
    refine .begun (q := p.handOver (.respawn reason) none) hp hidle ?_ rfl
    rw [h]
    exact Table.lookup_update_of (ManagedProcess.handOver _ _) (fun _ => rfl) hp
  · rename_i hne
    refine .unasked (.of_lookup ?_)
    rw [h]
    exact Table.lookup_update_ne (fun he => hne he.symm) (ManagedProcess.handOver _ _)
      (fun _ => rfl) _

end Actor

/-! ## One step -/

variable {w w' : World} {n : String} {e : Event}

/-- A command that is accepted may begin a teardown too. -/
theorem Event.asks_of_commands {ask : Ask} (h : e.commands w n = some ask) :
    e.asks w n = some ask := by
  unfold Event.asks
  split
  · exact absurd h (by simp [Event.commands])
  · exact absurd h (by simp [Event.commands])
  · exact h

/-- **What a step does to a record**: it is met by the command, if there is one for it; a timer or a
file change meets it only when it is not stopping. -/
theorem met_step (hs : Sound w.books w.actor.holdings) (hstep : Step w e w')
    (hquiet : ¬ e.reports n) :
    Actor.Met n w.actor w'.actor (e.commands w n) ∨
      Actor.Met n w.actor w'.actor (e.asks w n) ∧
        ∀ p, w.record n = some p → p.life.isStopping = false := by
  cases hstep with
  | @client os cmd hos hreply =>
    refine .inl ?_
    cases cmd with
    | autoRestart | watchRestart | stopFinished => exact absurd hreply (by simp [PmCommand.reply])
    | spawn => exact .unasked (Actor.spares_handleSpawn os _ _ _ _ _ _ _ _ w.actor)
    | stop target reply => exact Actor.met_handleStop os target reply w.actor
    | restart target reply => exact Actor.met_handleRestart os target reply w.actor
    | stopAll reply => exact Actor.met_handleStopAll os reply hs
    | status | statusSnapshot =>
      refine .unasked ((Actor.spares_refresh os w.actor).trans (.of_pm ?_))
      change (Actor.handleStatus os _ w.actor).pm = _
      rw [Actor.handleStatus]
      split
      · exact Actor.pm_publishProxyState _
      · rfl
    | isProcessExited =>
      exact .unasked ((Actor.spares_refresh os w.actor).trans
        (.of_pm (Actor.pm_publishProxyState _)))
    | enableProxy =>
      refine .unasked (.of_lookup ?_)
      change (Actor.handleEnableProxy _ _ w.actor).pm.processes.lookup n = _
      rw [Actor.handleEnableProxy]
      split
      · rfl
      · change (Actor.publishProxyState _).pm.processes.lookup n = _
        rw [Actor.pm_publishProxyState]
        rfl
    | hasProcess | sessionName | subscribe => exact .unasked (.of_pm rfl)
  | @deliver os cmd hos hmem =>
    obtain ⟨m, g, hstamp, hissued⟩ := hs.stamps.inFlight cmd hmem
    have hissued : (w.take cmd).actor.holdings.IssuedTo m g := hissued
    have hbegins {a' : Actor} {reason : RespawnReason} {p : ManagedProcess}
        (hp : w.actor.pm.processes.lookup p.name = some p) (hidle : p.life.isStopping = false)
        (h : a'.pm.processes = w.actor.pm.processes.update p.name
          (ManagedProcess.handOver (.respawn reason) none) fun _ => rfl) :
        Actor.Met n w.actor a' none ∨
          Actor.Met n w.actor a' (if p.name = n then some (.respawn reason, none) else none) ∧
            ∀ q, w.record n = some q → q.life.isStopping = false := by
      have hmet := Actor.met_handOver (n := n) hp hidle h
      by_cases hn : p.name = n
      · refine .inr ⟨hmet, fun q hq => ?_⟩
        obtain rfl := Option.some.inj (hp.symm.trans (hn ▸ hq))
        exact hidle
      · rw [if_neg hn] at hmet
        exact .inl hmet
    cases cmd with
    | autoRestart name generation =>
      obtain ⟨rfl, rfl⟩ := Prod.mk.inj (Option.some.inj hstamp)
      rcases Actor.handleAutoRestart_cases hissued with h | ⟨p, -, hidle, htimed, hp, h⟩
      · exact .inl (.unasked (.of_pm ((congrArg Actor.pm h).trans rfl)))
      · obtain rfl : p.name = name := htimed.1
        exact hbegins hp hidle (congrArg Holdings.processes h)
    | watchRestart name generation =>
      obtain ⟨rfl, rfl⟩ := Prod.mk.inj (Option.some.inj hstamp)
      rcases Actor.handleWatchRestart_cases hissued with h | ⟨p, -, hidle, hwatched, hp, h⟩
      · exact .inl (.unasked (.of_pm ((congrArg Actor.pm h).trans rfl)))
      · obtain rfl : p.name = name := hwatched.1
        exact hbegins hp hidle (congrArg Holdings.processes h)
    | stopFinished name generation code =>
      have hspares := Actor.spares_finishTeardown (b := w.books) os code (sound_take hs hmem)
        fun he : n = name => hquiet he.symm
      exact .inl (.unasked (Actor.Spares.trans (.of_pm rfl) hspares))
    | _ => exact absurd hstamp (by simp [PmCommand.stamp])
  | tick hos => exact .inl (.unasked (Actor.spares_tick _ _))
  | exit => exact .inl (.unasked (.refl _))
  | fileChanged => exact .inl (.unasked (.of_pm rfl))
  | teardownDone => exact .inl (.unasked (.of_pm rfl))

/-- **A stopping record obeys the commands for it**, and nothing else but its report. -/
theorem record_obeys {p : ManagedProcess} (hs : Sound w.books w.actor.holdings)
    (hstep : Step w e w') (hquiet : ¬ e.reports n) (hp : w.record n = some p)
    (hstop : p.life.isStopping = true) : w'.record n = some (p.obey (e.commands w n)) := by
  rcases met_step hs hstep hquiet with hmet | ⟨-, hidle⟩
  · exact hmet.obeys hp hstop
  · exact absurd (hstop.symm.trans (hidle p hp)) (by simp)

/-- **A teardown that begins was asked for.** -/
theorem asked_of_begun {q : ManagedProcess} (hs : Sound w.books w.actor.holdings)
    (hstep : Step w e w') (hbefore : ∀ p, w.record n = some p → p.life.isStopping = false)
    (hq : w'.record n = some q) (hstop : q.life.isStopping = true) :
    ∃ leaderExit c waiter, e.asks w n = some (c, waiter) ∧
      q.life = .stopping leaderExit c waiter.toList := by
  have hquiet : ¬ e.reports n := by
    unfold Event.reports
    split
    · rintro rfl
      cases hstep with
      | deliver hos hmem =>
        obtain ⟨p, hp, -, hpstop⟩ := (sound_take hs hmem).due List.mem_cons_self
        exact absurd (hpstop.symm.trans (hbefore p hp)) (by simp)
    · exact id
  rcases met_step hs hstep hquiet with hmet | ⟨hmet, -⟩
  · obtain ⟨leaderExit, c, waiter, hask, hlife⟩ := hmet.asked hbefore hq hstop
    exact ⟨leaderExit, c, waiter, Event.asks_of_commands hask, hlife⟩
  · exact hmet.asked hbefore hq hstop

/-! ## A run, up to the report -/

/-- The commands for the record `n` along a run, oldest first. -/
def commandsFor (n : String) (ts : List (Transition World Event)) : List Ask :=
  ts.filterMap fun τ => τ.ev.commands τ.src n

@[simp] theorem commandsFor_nil (n : String) : commandsFor n [] = [] := rfl

theorem commandsFor_append (n : String) (ts us : List (Transition World Event)) :
    commandsFor n (ts ++ us) = commandsFor n ts ++ commandsFor n us := List.filterMap_append

/-- What a record is to do after its stop: what it was asked last. -/
def lastAsk (began : Ask) (asks : List Ask) : AfterStop := ((asks.map Prod.fst).getLast?).getD began.1

/-- Who waits for a stop. -/
def waitersOf (began : Ask) (asks : List Ask) : List Waiter := (began :: asks).filterMap Prod.snd

/-- The life of a record whose teardown was begun and joined by these. -/
def Life.asked (leaderExit : Option (Option ℤ)) (began : Ask) (asks : List Ask) : Life :=
  .stopping leaderExit (lastAsk began asks) (waitersOf began asks)

theorem Life.asked_join (leaderExit : Option (Option ℤ)) (began : Ask) (asks : List Ask)
    (ask : Ask) :
    (Life.asked leaderExit began asks).join ask = Life.asked leaderExit began (asks ++ [ask]) := by
  have hlast : lastAsk began (asks ++ [ask]) = ask.1 := by simp [lastAsk]
  have hwaiters : waitersOf began (asks ++ [ask]) = waitersOf began asks ++ ask.2.toList := by
    rw [waitersOf, ← List.cons_append, List.filterMap_append]
    obtain ⟨_, _ | _⟩ := ask <;> rfl
  rw [asked, asked, hlast, hwaiters]
  rfl

/-- **Until its report arrives**, a stopping record remembers what it was asked and by whom. -/
theorem record_of_run {u : World} {ts : List (Transition World Event)} {p : ManagedProcess}
    {leaderExit : Option (Option ℤ)} {began : Ask} (hw : daemon.Reachable w)
    (hp : w.record n = some p) (hl : p.life = .asked leaderExit began [])
    (hrun : daemon.Run w ts u) (hquiet : ∀ τ ∈ ts, ¬ τ.ev.reports n) :
    ∃ q, u.record n = some q ∧ q.generation = p.generation ∧
      q.life = .asked leaderExit began (commandsFor n ts) := by
  induction hrun with
  | refl => exact ⟨p, hp, rfl, hl⟩
  | @snoc ts t u e hrun hstep ih =>
    obtain ⟨q, hq, hgen, hlife⟩ := ih fun τ hτ => hquiet τ (List.mem_append_left _ hτ)
    have hlast := hquiet _ (List.mem_append_right _ (List.mem_singleton_self _))
    have hafter := record_obeys (sound_of_reachable (hw.run hrun)) hstep hlast hq (by rw [hlife]; rfl)
    refine ⟨_, hafter, by rw [ManagedProcess.generation_obey, hgen], ?_⟩
    rw [commandsFor_append]
    cases hask : e.commands t n with
    | none => simp [commandsFor, hask, hlife]
    | some ask =>
      rw [ManagedProcess.obey]
      change q.life.join ask = _
      rw [hlife, Life.asked_join]
      simp [commandsFor, hask]

/-! ## The report -/

/-- A spawn into the record `p` came to the record `q`, and is answered by `resp`. -/
def ManagedProcess.Respawned (spawn : Except String ℕ) (pm : ProcessManager) (resp : Response)
    (p q : ManagedProcess) : Prop :=
  match spawn with
  | .ok pid => q.life = .running ⟨pm.spawned, pid⟩ ∧ q.generation = pm.nextGeneration + 1 ∧
      ∃ url, resp = .runOk q.name q.id pid q.port url
  | .error message => (∃ code, q.life = .exited code .spawnFailed none false) ∧
      q.generation = p.generation ∧ resp = .error .general message

/-- **What a respawn does to its record**, in the table. -/
theorem ProcessManager.respawn_spec {pm : ProcessManager} {name : String} {p : ManagedProcess}
    (os : Os) (rotate : Bool) (hp : pm.processes.lookup name = some p) :
    (pm.respawn os name rotate).1.nextGeneration = pm.nextGeneration + 1 ∧
    ∃ q, (pm.respawn os name rotate).1.processes.lookup name = some q ∧
      q.restartCount = p.restartCount ∧
      p.Respawned os.spawn pm (pm.respawn os name rotate).2 q := by
  obtain rfl := Table.key_eq hp
  rw [respawn, hp]
  dsimp only [nextId]
  cases os.spawn with
  | ok pid => exact ⟨rfl, _, Table.lookup_update_of _ _ hp, rfl, rfl, rfl, _, rfl⟩
  | error message => exact ⟨rfl, _, Table.lookup_update_of _ _ hp, rfl, ⟨_, rfl⟩, rfl, rfl⟩

namespace Actor

variable {a : Actor} {p q : ManagedProcess}

@[simp] theorem nextGeneration_setupWatcher (os : Os) (name : String) (a : Actor) :
    (a.setupWatcher os name).1.pm.nextGeneration = a.pm.nextGeneration := by
  rw [setupWatcher]
  split
  · rfl
  split
  · rfl
  · cases os.watch <;> rfl

/-- **What a respawn does to its record**, and how it is answered. -/
theorem respawn_spec {name : String} (os : Os) (reason : RespawnReason) (code : Option ℤ)
    (hp : a.pm.processes.lookup name = some p) :
    (a.respawn os name reason code).1.pm.nextGeneration = a.pm.nextGeneration + 1 ∧
    ∃ q, (a.respawn os name reason code).1.pm.processes.lookup name = some q ∧
      q.restartCount = reason.settle p.restartCount ∧
      p.Respawned os.spawn a.pm (a.respawn os name reason code).2 q := by
  obtain ⟨hnext, q, hq, hcount, hresp⟩ :=
    ProcessManager.respawn_spec os (reason != .manual) (lookup_settleCount reason hp)
  rcases hrespawn : (a.settleCount name reason).pm.respawn os name (reason != .manual) with ⟨pm, resp⟩
  rw [hrespawn] at hnext hq hresp
  rw [snd_respawn, hrespawn]
  refine respawn_rule (P := fun a' => a'.pm.nextGeneration = a.pm.nextGeneration + 1 ∧
    ∃ q, a'.pm.processes.lookup name = some q ∧ q.restartCount = reason.settle p.restartCount ∧
      p.Respawned os.spawn a.pm resp q) code hrespawn
    (fun _ => ⟨hnext, q, hq, hcount, hresp⟩) (fun _ _ _ h => by rwa [pm_annotate]) fun a' hpm h => ?_
  -- the watcher that is set up afterwards changes neither the life nor the generation
  obtain ⟨handle, config, hlookup, -⟩ := lookup_setupWatcher (a := a') os (hpm ▸ hq)
  rw [nextGeneration_setupWatcher]
  exact ⟨h.1, _, (hlookup name).trans (if_pos rfl), hcount, hresp⟩

/-- Everybody who waits is told. -/
theorem mem_foldl_answerWaiter {name : String} {resp : Response} {waiter : Waiter} :
    ∀ (ws : List Waiter) (a : Actor), waiter ∈ ws →
      (waiter.reply, waiterAnswer name resp waiter) ∈
        (ws.foldl (answerWaiter name resp) a).answers
  | x :: ws, a, h => by
    rw [List.foldl_cons]
    rcases List.mem_cons.mp h with rfl | h
    · have hkept (xs : List Waiter) (a : Actor) (y : Reply × Answer) (hy : y ∈ a.answers) :
          y ∈ (xs.foldl (answerWaiter name resp) a).answers := by
        induction xs generalizing a with
        | nil => exact hy
        | cons x xs ih => exact ih _ (answerWaiter_eq name resp a x ▸ List.mem_cons_of_mem _ hy)
      refine hkept ws _ _ ?_
      rw [answerWaiter_eq]
      exact List.mem_cons_self
    · exact mem_foldl_answerWaiter ws _ h

theorem answers_publishProxyState (a : Actor) : a.publishProxyState.answers = a.answers :=
  congrArg Holdings.answers (holdings_publishProxyState a)

/-- Leaving a batch takes no answer back. -/
theorem mem_answers_leaveBatch {name : String} {x : Reply × Answer} (h : x ∈ a.answers) :
    x ∈ (a.leaveBatch name).answers := by
  rw [leaveBatch]
  split
  · exact h
  · dsimp only
    split
    · rw [finishStopAll]
      dsimp only
      have hkept (replies : List Reply) (a : Actor) (hx : x ∈ a.answers) :
          x ∈ (replies.foldl (fun a reply => a.respond reply allStopped) a).answers := by
        induction replies generalizing a with
        | nil => exact hx
        | cons r replies ih => exact ih _ (List.mem_cons_of_mem _ hx)
      exact hkept _ _ h
    · exact h

theorem nextGeneration_leaveBatch (name : String) (a : Actor) :
    (a.leaveBatch name).pm.nextGeneration = a.pm.nextGeneration := by
  rcases pm_leaveBatch name a with h | h <;> rw [h]
  rfl

/-- The end of a report: everybody who waits is told, and the batch is left. -/
def told (name : String) (resp : Response) (ws : List Waiter) (a : Actor) : Actor :=
  ((ws.foldl (answerWaiter name resp) a).leaveBatch name).publishProxyState

theorem mem_answers_told {name : String} {resp : Response} {ws : List Waiter} {waiter : Waiter}
    (h : waiter ∈ ws) (a : Actor) :
    (waiter.reply, waiterAnswer name resp waiter) ∈ (a.told name resp ws).answers := by
  rw [told, answers_publishProxyState]
  exact mem_answers_leaveBatch (mem_foldl_answerWaiter ws a h)

theorem pm_foldl_answerWaiter (name : String) (resp : Response) (ws : List Waiter) (a : Actor) :
    (ws.foldl (answerWaiter name resp) a).pm = a.pm :=
  foldl_answer_same Actor.pm Waiter.reply (waiterAnswer name resp) (fun _ _ _ => rfl)
    (answerWaiter_eq name resp) ws a

theorem nextGeneration_told (name : String) (resp : Response) (ws : List Waiter) (a : Actor) :
    (a.told name resp ws).pm.nextGeneration = a.pm.nextGeneration := by
  rw [told, pm_publishProxyState, nextGeneration_leaveBatch, pm_foldl_answerWaiter]

/-- Telling those who wait leaves the table as it is, or empty. -/
theorem pm_told (name : String) (resp : Response) (ws : List Waiter) (a : Actor) :
    (a.told name resp ws).pm = a.pm ∨ (a.told name resp ws).pm = a.pm.clear := by
  rw [told, pm_publishProxyState, ← pm_foldl_answerWaiter name resp ws a]
  exact pm_leaveBatch ..

theorem pm_told_of_none (name : String) (resp : Response) (ws : List Waiter) {a : Actor}
    (hbatch : a.stopAll = none) : (a.told name resp ws).pm = a.pm := by
  have hnone : (ws.foldl (answerWaiter name resp) a).stopAll = none :=
    (foldl_answer_same Actor.stopAll Waiter.reply (waiterAnswer name resp) (fun _ _ _ => rfl)
      (answerWaiter_eq name resp) ws a).trans hbatch
  rw [told, pm_publishProxyState, leaveBatch, hnone]
  exact pm_foldl_answerWaiter ..

/-- A report, when the stop was to end in a park. -/
theorem finishTeardown_park {leaderExit : Option (Option ℤ)} {ws : List Waiter} (os : Os)
    (code : Option ℤ) (hp : a.pm.processes.lookup p.name = some p)
    (hl : p.life = .stopping leaderExit .park ws) :
    a.finishTeardown os p.name p.generation code =
      told p.name (actorError "restart superseded by stop") ws
        { a with pm := a.pm.setLife p.name (.exited code .manual none false) } := by
  rw [finishTeardown, ProcessManager.find_of_lookup hp]
  dsimp only
  rw [if_pos rfl, hl]
  rfl

/-- A report, when the stop was to end in a respawn. -/
theorem finishTeardown_respawn {leaderExit : Option (Option ℤ)} {reason : RespawnReason}
    {ws : List Waiter} (os : Os) (code : Option ℤ) (hp : a.pm.processes.lookup p.name = some p)
    (hl : p.life = .stopping leaderExit (.respawn reason) ws) :
    ∃ a₁ resp, a.finishTeardown os p.name p.generation code = told p.name resp ws a₁ ∧
      a₁.stopAll = a.stopAll ∧ a₁.pm.nextGeneration = a.pm.nextGeneration + 1 ∧
      ∃ q, a₁.pm.processes.lookup p.name = some q ∧
        q.restartCount = reason.settle p.restartCount ∧ p.Respawned os.spawn a.pm resp q := by
  have hparked := lookup_update hp (ManagedProcess.withLife (.exited code .manual none false))
    (ManagedProcess.withLife_name _)
  obtain ⟨hnext, q, hq, hcount, hresp⟩ := respawn_spec os reason code hparked
  have hreport : a.finishTeardown os p.name p.generation code =
      let respawned := respawn os p.name reason code
        { a with pm := a.pm.setLife p.name (.exited code .manual none false) }
      told p.name respawned.2 ws respawned.1 := by
    rw [finishTeardown, ProcessManager.find_of_lookup hp]
    dsimp only
    rw [if_pos rfl, hl]
    rfl
  exact ⟨_, _, hreport, stopAll_respawn .., hnext, q, hq, hcount, hresp⟩

end Actor

/-- A channel with an answer has that answer, and no other. -/
theorem answersTo_of_mem {r : Reply} {x : Answer} (hs : Sound w.books w.actor.holdings)
    (h : (r, x) ∈ w.actor.answers) : w.answersTo r = [(r, x)] := by
  have hmem : (r, x) ∈ w.answersTo r := List.mem_filter.mpr ⟨h, beq_self_eq_true r⟩
  have hlength := World.length_channels hs r
  have hone : (w.answersTo r).length = 1 := by
    have := List.length_pos_of_mem hmem
    split at hlength <;> omega
  obtain ⟨y, hy⟩ := List.length_eq_one_iff.mp hone
  rw [hy] at hmem ⊢
  rw [List.mem_singleton.mp hmem]

/-- A respawn is attempted: it draws a generation before it spawns. -/
def Attempted (u v : World) : Prop :=
  u.actor.pm.nextGeneration < v.actor.pm.nextGeneration

/-- What a report comes to, for a record that is to do `andThen` after its stop. -/
structure LastWins (n : String) (os : Os) (andThen : AfterStop) (waiters : List Waiter)
    (p : ManagedProcess) (u v : World) : Prop where
  attempted : Attempted u v ↔ ∃ reason, andThen = .respawn reason
  stops : ∀ r, .stop r ∈ waiters → v.answersTo r = [(r, .response (stopped n))]
  parked : andThen = .park → (∀ q, v.record n = some q → ∃ code, q.life =
    .exited code .manual none false) ∧ ∀ r, .restart r ∈ waiters →
      v.answersTo r = [(r, .response (actorError "restart superseded by stop"))]
  respawned : ∀ reason, andThen = .respawn reason → ∃ q resp, v.record n = some q ∧
    p.Respawned os.spawn u.actor.pm resp q ∧
    (p.generation < q.generation ↔ ∃ pid, os.spawn = .ok pid) ∧
    (reason = .manual → q.restartCount = 0) ∧
    ∀ r, .restart r ∈ waiters → v.answersTo r = [(r, .response resp)]

/-- **A report does what the life of its record says.** -/
theorem lastWins_of_report {u v : World} {os : Os} {g : ℕ} {code : Option ℤ}
    {p : ManagedProcess} {leaderExit : Option (Option ℤ)} {andThen : AfterStop}
    {ws : List Waiter} (hu : daemon.Reachable u)
    (hreport : Step u (.deliver os (.stopFinished n g code)) v) (hp : u.record n = some p)
    (hl : p.life = .stopping leaderExit andThen ws) : LastWins n os andThen ws p u v := by
  have hs := sound_of_reachable hu
  have hsv := sound_of_reachable (hu.step hreport)
  cases hreport with
  | deliver hos hmem =>
  have hdue := sound_take hs hmem
  obtain ⟨p', hp', rfl, -⟩ := hdue.due List.mem_cons_self
  obtain rfl := Option.some.inj (hp'.symm.trans hp)
  obtain rfl := Table.key_eq hp
  replace hp' : (u.take (.stopFinished p'.name p'.generation code)).actor.pm.processes.lookup
      p'.name = some p' := hp'
  generalize hcmd : PmCommand.stopFinished p'.name p'.generation code = cmd at *
  have hv : (u.deliver os cmd).actor =
      (u.take cmd).actor.finishTeardown os p'.name p'.generation code := by rw [← hcmd]; rfl
  generalize u.deliver os cmd = v at hv hsv ⊢
  have hparked := Actor.lookup_update hp' (ManagedProcess.withLife (.exited code .manual none false))
    (ManagedProcess.withLife_name _)
  cases andThen with
  | park =>
    rw [Actor.finishTeardown_park os code hp' hl] at hv
    have hanswer {waiter : Waiter} (h : waiter ∈ ws) :=
      answersTo_of_mem hsv (hv ▸ Actor.mem_answers_told h _)
    refine ⟨?_, fun r hr => hanswer hr, fun _ => ⟨fun q hq => ?_, fun r hr => hanswer hr⟩,
      fun _ he => AfterStop.noConfusion he⟩
    · refine iff_of_false ?_ fun ⟨_, he⟩ => AfterStop.noConfusion he
      rw [Attempted, hv, Actor.nextGeneration_told]
      exact lt_irrefl _
    · rw [World.record, hv] at hq
      rcases Actor.pm_told p'.name _ ws _ with hpm | hpm
      · rw [hpm] at hq
        obtain rfl := Option.some.inj (hparked.symm.trans hq)
        exact ⟨code, rfl⟩
      · rw [hpm] at hq
        exact absurd hq (by simp [ProcessManager.clear])
  | respawn reason =>
    have hbatch : u.actor.stopAll = none := hs.no_batch hp (hl ▸ Life.not_settled_respawn)
    obtain ⟨a₁, resp, htold, hstop, hnext, q, hq, hcount, hresp⟩ :=
      Actor.finishTeardown_respawn os code hp' hl
    rw [htold] at hv
    have hanswer {waiter : Waiter} (h : waiter ∈ ws) :=
      answersTo_of_mem hsv (hv ▸ Actor.mem_answers_told h _)
    have hpm : v.actor.pm = a₁.pm := by
      rw [hv, Actor.pm_told_of_none _ _ _ (hstop.trans hbatch)]
    have hnext' : v.actor.pm.nextGeneration = u.actor.pm.nextGeneration + 1 := by
      rw [hpm, hnext]
      rfl
    refine ⟨iff_of_true ?_ ⟨reason, rfl⟩, fun r hr => hanswer hr,
      fun he => AfterStop.noConfusion he, fun reason' he => ?_⟩
    · rw [Attempted, hnext']
      exact Nat.lt_succ_self _
    · obtain rfl := AfterStop.respawn.inj he
      refine ⟨q, resp, ?_, hresp, ?_, fun he => ?_, fun r hr => hanswer hr⟩
      · rw [World.record, hpm, hq]
      · have hle := hs.stamps.le p'.name p' hp
        unfold ManagedProcess.Respawned at hresp
        cases hspawn : os.spawn with
        | ok pid =>
          rw [hspawn] at hresp
          refine iff_of_true ?_ ⟨pid, rfl⟩
          rw [hresp.2.1]
          exact Nat.lt_succ_of_le hle
        | error message =>
          rw [hspawn] at hresp
          refine iff_of_false ?_ (by simp)
          rw [hresp.2.1]
          exact lt_irrefl _
      · rw [hcount, he]
        rfl

/-- **The last command wins**: a record that is asked to stop, and then given any commands while it
stops, does what it was asked last, and answers everyone accordingly. -/
theorem lastCommand_wins {u v : World} {ts : List (Transition World Event)} {os : Os} {g : ℕ}
    {code : Option ℤ} (hw : daemon.Reachable w) (hbegin : Step w e w')
    (hbefore : ∀ p, w.record n = some p → p.life.isStopping = false)
    (hafter : ∃ p, w'.record n = some p ∧ p.life.isStopping = true)
    (hrun : daemon.Run w' ts u) (hquiet : ∀ τ ∈ ts, ¬ τ.ev.reports n)
    (hreport : Step u (.deliver os (.stopFinished n g code)) v) :
    ∃ began p, e.asks w n = some began ∧ u.record n = some p ∧
      LastWins n os (lastAsk began (commandsFor n ts)) (waitersOf began (commandsFor n ts)) p u v := by
  obtain ⟨p, hp, hstop⟩ := hafter
  have hw' : daemon.Reachable w' := hw.step hbegin
  obtain ⟨leaderExit, andThen, waiter, hask, hl⟩ :=
    asked_of_begun (sound_of_reachable hw) hbegin hbefore hp hstop
  have hbegun : p.life = .asked leaderExit (andThen, waiter) [] := by
    rw [hl]
    cases waiter <;> rfl
  obtain ⟨q, hq, -, hlife⟩ := record_of_run hw' hp hbegun hrun hquiet
  exact ⟨_, q, hask, hq, lastWins_of_report (hw'.run hrun) hreport hq hlife⟩

/-- A restart that meets a stop under way, the run up to the report. -/
theorem lastCommand_wins_restart :
    let w := (World.new "s").receive (.quiet 7) (.spawn "srv" (some "web") none none none none none 0)
    let w₁ := w.receive (.quiet 7) (.stop "web" 1)
    let w₂ := w₁.receive (.quiet 7) (.restart "web" 2)
    let t : Teardown := ⟨"web", 1, some ⟨0, 7⟩, none⟩
    let u := w₂.finish t (some 0)
    let v := u.deliver (.quiet 8) (.stopFinished "web" 1 (some 0))
    ∃ began p, (Event.client (.quiet 7) (.stop "web" 1)).asks w "web" = some began ∧
      u.record "web" = some p ∧ LastWins "web" (.quiet 8) (lastAsk began (commandsFor "web"
        [⟨w₁, .client (.quiet 7) (.restart "web" 2), w₂⟩, ⟨w₂, .teardownDone t (some 0), u⟩]))
        (waitersOf began (commandsFor "web"
          [⟨w₁, .client (.quiet 7) (.restart "web" 2), w₂⟩, ⟨w₂, .teardownDone t (some 0), u⟩]))
        p u v := by
  intro w w₁ w₂ t u v
  have hw : daemon.Reachable w := World.reachable_receive (World.reachable_new "s") rfl rfl
  have hstop : Step w (.client (.quiet 7) (.stop "web" 1)) w₁ := .client rfl rfl
  have hrestart : Step w₁ (.client (.quiet 7) (.restart "web" 2)) w₂ := .client rfl rfl
  have hdone : Step w₂ (.teardownDone t (some 0)) u :=
    .teardownDone (List.mem_singleton_self _) trivial
  have hreport : Step u (.deliver (.quiet 8) (.stopFinished "web" 1 (some 0))) v :=
    .deliver rfl (by decide)
  have hrunning : (w.record "web").any (·.life.isStopping) = false := by decide
  have hstopping : (w₁.record "web").any (·.life.isStopping) = true := by decide
  refine lastCommand_wins hw hstop (fun p hp => ?_) ?_ ((Machine.Run.refl.snoc hrestart).snoc hdone)
    (fun τ hτ => ?_) hreport
  · rwa [hp] at hrunning
  · obtain ⟨p, hp⟩ := Option.isSome_iff_exists.mp (show (w₁.record "web").isSome = true by decide)
    exact ⟨p, hp, by rwa [hp] at hstopping⟩
  · simp only [List.mem_cons, List.not_mem_nil, or_false] at hτ
    rcases hτ with rfl | rfl <;> exact id

end AgentProcs
