import AgentProcs.Supervision.Ledgers

/-!
# Supervision/Handlers — every handler is a chain of moves

    Stop t      observe · (answer | join | edit answer | start)
    StopAll     joinBatch | observe · (start | join)* · (openBatch | clear answer*)
    Restart t   observe · (answer | join | start)
    StopFinished  (park | (relaunch | fail) edit watch) · answer* · (strike | clear answer*)
    tick        observe · exhaust* · arm*

A handler is followed through its branches, and each assignment it makes is recognised as a move.
Which moves a handler may make is kept along the way (`Move.Within`): whom it may set up for a
respawn, and whom it may spawn an incarnation into.
-/

namespace AgentProcs

/-- A watcher could not be set up. -/
def watchSetupFailed (e : String) : String := s!"[agent-procs] Watch setup failed: {e}"

/-- The lines that go over a supervisor channel. -/
inductive SupervisorMessage : String → Prop
  | watchSetupFailed (e : String) : SupervisorMessage (watchSetupFailed e)
  | fileChanged : SupervisorMessage "[agent-procs] File changed, restarted"
  | restarted (p : ManagedProcess) (prevCode : Option ℤ) :
      SupervisorMessage (Actor.restartMarker p prevCode)
  | exhausted (max : ℕ) : SupervisorMessage s!"[agent-procs] Max restarts ({max}) exhausted"

/-- How a record gets an incarnation: the record is new, or it had one before. -/
inductive Launch where
  | fresh
  | again

/-- The move sees the exits `E` and no others, sets up nobody for a respawn but by `R`, and launches
nobody but by `L`. -/
def Move.Within (E : Incarnation → Option (Option ℤ)) (R : String → RespawnReason → Prop)
    (L : String → Launch → Prop) : Move → Prop
  | observe os => os.exits = E
  | start n (.respawn reason) _ => R n reason
  | join n (.respawn reason) _ => R n reason
  | relaunch n _ => L n .again
  | fail n _ => L n .again
  | create n => L n .fresh
  | _ => True

theorem Move.Within.mono {E : Incarnation → Option (Option ℤ)}
    {R R' : String → RespawnReason → Prop} {L L' : String → Launch → Prop} {m : Move}
    (h : m.Within E R L) (hR : ∀ n r, R n r → R' n r) (hL : ∀ n k, L n k → L' n k) :
    m.Within E R' L' := by
  match m with
  | start n (.respawn reason) _ => exact hR n reason h
  | join n (.respawn reason) _ => exact hR n reason h
  | start _ .park _ => exact h
  | join _ .park _ => exact h
  | relaunch n _ => exact hL n .again h
  | fail n _ => exact hL n .again h
  | create n => exact hL n .fresh h
  | observe _ | edit _ | arm _ | exhaust _ | park _ | watch _ | answer _ _ | joinBatch _
  | openBatch _ | strike _ | clear | receive | deliver _ | teardownDone _ | fileChanged _ =>
    exact h

/-- No record, for no reason. -/
def Nobody {α : Type} (_ : String) (_ : α) : Prop := False

/-- The move sets up and launches nobody. -/
def Move.Idle (E : Incarnation → Option (Option ℤ)) (m : Move) : Prop := m.Within E Nobody Nobody

/-- A chain of moves, each of them one `G` allows. -/
def Moves (G : Move → Prop) (d d' : Desk) : Prop :=
  ∃ ts, custodian.Run d ts d' ∧ ∀ τ ∈ ts, G τ.ev

namespace Moves

variable {G G' : Move → Prop} {d d' d'' : Desk}

theorem refl (d : Desk) : Moves G d d := ⟨[], .refl, fun _ h => absurd h List.not_mem_nil⟩

theorem trans (h : Moves G d d') (h' : Moves G d' d'') : Moves G d d'' := by
  obtain ⟨ts, hrun, hG⟩ := h
  obtain ⟨us, hrun', hG'⟩ := h'
  exact ⟨ts ++ us, hrun.append hrun', fun τ hτ => (List.mem_append.mp hτ).elim (hG τ) (hG' τ)⟩

theorem one {m : Move} (h : Custody d m d') (hG : G m) : Moves G d d' := by
  refine ⟨[⟨d, m, d'⟩], Machine.Run.refl.snoc h, fun τ hτ => ?_⟩
  obtain rfl := List.mem_singleton.mp hτ
  exact hG

theorem mono (h : Moves G d d') (hG : ∀ m, G m → G' m) : Moves G' d d' := by
  obtain ⟨ts, hrun, hts⟩ := h
  exact ⟨ts, hrun, fun τ hτ => hG _ (hts τ hτ)⟩

/-- Idle moves are allowed everywhere. -/
theorem within {E : Incarnation → Option (Option ℤ)} {R : String → RespawnReason → Prop}
    {L : String → Launch → Prop} (h : Moves (Move.Idle E) d d') : Moves (Move.Within E R L) d d' :=
  h.mono fun _ hm => hm.mono (fun _ _ => False.elim) fun _ _ => False.elim

/-- What every allowed move keeps, a chain of them keeps. -/
theorem invariant {P : Desk → Prop} (h : Moves G d d') (hd : P d)
    (hstep : ∀ d m d', P d → Custody d m d' → G m → P d') : P d' := by
  obtain ⟨ts, hrun, hG⟩ := h
  induction hrun with
  | refl => exact hd
  | snoc _ hmove ih =>
    have hlast := hG _ (List.mem_append_right _ (List.mem_singleton_self _))
    exact hstep _ _ _ (ih fun τ hτ => hG τ (List.mem_append_left _ hτ)) hmove hlast

/-- **Chains of moves keep the ledgers.** -/
theorem sound (h : Moves G d d') (hs : Sound d.books d.holdings) :
    Sound d'.books d'.holdings :=
  h.invariant (P := fun d => Sound d.books d.holdings) hs fun _ _ _ hs hm _ => hs.move hm

end Moves

/-! ## Looking up -/

namespace ProcessManager

variable {pm : ProcessManager} {p : ManagedProcess}

/-- A record that is found is the one under its own name. -/
theorem lookup_of_find {target : String} (h : pm.find target = some p) :
    pm.processes.lookup p.name = some p := by
  rw [find, Option.or_eq_some_iff] at h
  rcases h with hname | ⟨-, hid⟩
  · rwa [Table.key_eq hname]
  · exact Table.mem_values.mp (List.mem_of_find?_eq_some hid)

theorem find_of_lookup {name : String} (h : pm.processes.lookup name = some p) :
    pm.find name = some p := by
  rw [find, h]
  rfl

/-- Looking at the leaders finds the same records as before. -/
theorem find_refreshExitStates (os : Os) (target : String) (pm : ProcessManager) :
    (pm.refreshExitStates os).1.find target = (pm.find target).map (·.observeExit os) := by
  have hid : ∀ p : ManagedProcess, (p.observeExit os).id = p.id := fun p => by
    rcases p.observeExit_cases os with h | ⟨_, _, _, _, h⟩ <;> rw [h]
  rw [find, find, refreshExitStates]
  simp only [Table.lookup_map, Table.values_map, List.find?_map, Function.comp_def, hid]
  cases pm.processes.lookup target <;> rfl

/-- A respawned record is still there. -/
theorem lookup_respawn {name : String} (os : Os) (rotate : Bool)
    (h : pm.processes.lookup name = some p) :
    ∃ q, (pm.respawn os name rotate).1.processes.lookup name = some q := by
  rw [respawn, h]
  dsimp only [nextId]
  cases os.spawn with
  | ok pid => exact ⟨_, Table.lookup_update_of _ _ h⟩
  | error message => exact ⟨_, Table.lookup_update_of _ _ h⟩

end ProcessManager

/-! ## What the ledgers do not see -/

namespace Actor

variable {a : Actor} {b : Books} {E : Incarnation → Option (Option ℤ)}

@[simp] theorem holdings_publishProxyState (a : Actor) :
    a.publishProxyState.holdings = a.holdings := by
  rw [publishProxyState]
  split <;> rfl

@[simp] theorem holdings_annotate (name msg : String) (a : Actor) :
    (a.annotate name msg).holdings = a.holdings := by
  rw [annotate]
  split <;> rfl

@[simp] theorem pm_annotate (name msg : String) (a : Actor) : (a.annotate name msg).pm = a.pm := by
  rw [annotate]
  split <;> rfl

@[simp] theorem pm_publishProxyState (a : Actor) : a.publishProxyState.pm = a.pm := by
  rw [publishProxyState]
  split <;> rfl

/-! ## Small steps -/

theorem refresh_moves (os : Os) (a : Actor) (b : Books) :
    Moves (Move.Idle os.exits) ⟨b, a.holdings⟩ ⟨b, (a.refresh os).holdings⟩ :=
  .one .observe rfl

theorem answer_moves (reply : Reply) (ans : Answer) (a : Actor) (b : Books) :
    Moves (Move.Idle E) ⟨{ b with hand := reply :: b.hand }, a.holdings⟩
      ⟨b, (a.answer reply ans).holdings⟩ :=
  .one .answer trivial

/-- A change of a record that its life, generation, policy and count do not feel. -/
theorem update_moves {name : String} {p : ManagedProcess} (hs : Sound b a.holdings)
    (hp : a.pm.processes.lookup name = some p) (f : ManagedProcess → ManagedProcess)
    (hf : ∀ p, (f p).name = p.name) (hlife : (f p).life = p.life)
    (hgen : (f p).generation = p.generation) (hpolicy : (f p).restartPolicy = p.restartPolicy)
    (hcount : (f p).restartCount = p.restartCount) :
    Moves (Move.Idle E) ⟨b, a.holdings⟩ ⟨b, (a.update name f hf).holdings⟩ :=
  .one (.edit hf hp hlife hgen hcount ((hs.records name p hp).congr hlife hpolicy hcount)) trivial

/-- Answering one after the other. -/
theorem foldl_answer_moves {α : Type} (reply : α → Reply) (ans : α → Answer)
    {f : Actor → α → Actor} (hf : ∀ a x, f a x = a.answer (reply x) (ans x)) (b : Books) :
    ∀ (xs : List α) (a : Actor),
      Moves (Move.Idle E) ⟨{ b with hand := xs.map reply ++ b.hand }, a.holdings⟩
        ⟨b, (xs.foldl f a).holdings⟩
  | [], a => .refl _
  | x :: xs, a => by
    have hfirst := answer_moves (E := E) (reply x) (ans x) a { b with hand := xs.map reply ++ b.hand }
    rw [← hf] at hfirst
    exact hfirst.trans (foldl_answer_moves reply ans hf b xs (f a x))

/-- Answers leave everything else alone. -/
theorem foldl_answer_same {α β : Type} (g : Actor → β) (reply : α → Reply) (ans : α → Answer)
    (hg : ∀ (a : Actor) r x, g (a.answer r x) = g a) {f : Actor → α → Actor}
    (hf : ∀ a x, f a x = a.answer (reply x) (ans x)) :
    ∀ (xs : List α) (a : Actor), g (xs.foldl f a) = g a
  | [], _ => rfl
  | x :: xs, a => by
    rw [List.foldl_cons, foldl_answer_same g reply ans hg hf xs, hf, hg]

/-- What a waiter is told. -/
def waiterAnswer (name : String) (restartReply : Response) : Waiter → Answer
  | .stop _ => .response (stopped name)
  | .restart _ => .response restartReply

theorem answerWaiter_eq (name : String) (restartReply : Response) (a : Actor) (w : Waiter) :
    a.answerWaiter name restartReply w = a.answer w.reply (waiterAnswer name restartReply w) := by
  cases w <;> rfl

theorem lookup_update {name : String} {p : ManagedProcess}
    (hp : a.pm.processes.lookup name = some p) (f : ManagedProcess → ManagedProcess)
    (hf : ∀ p, (f p).name = p.name) :
    (a.update name f hf).pm.processes.lookup name = some (f p) :=
  Table.lookup_update_of f hf hp

/-! ## Beginning a teardown -/

/-- Beginning a teardown hands over the record's incarnation. -/
theorem holdings_startTeardown {name : String} {p : ManagedProcess}
    (hp : a.pm.processes.lookup name = some p) (hlife : p.life.isStopping = false)
    (andThen : AfterStop) (waiter : Option Waiter) :
    (a.startTeardown name andThen waiter).holdings = { a.holdings with
      processes := a.pm.processes.update name (fun q => { q with
        watchHandle := none
        life := .stopping p.life.leaderExit andThen waiter.toList }) fun _ => rfl
      teardowns := p.teardown :: a.teardowns } := by
  obtain rfl := Table.key_eq hp
  rw [startTeardown, ProcessManager.find_of_lookup hp]
  dsimp only
  cases hl : p.life with
  | running inc =>
    rw [ManagedProcess.teardown, hl]
    rfl
  | exited code why inc timer =>
    rw [ManagedProcess.teardown, hl]
    rfl
  | stopping =>
    rw [hl] at hlife
    exact absurd hlife (by simp)

/-- A teardown that charges nothing. -/
theorem startTeardown_moves {name : String} {p : ManagedProcess}
    {R : String → RespawnReason → Prop} {L : String → Launch → Prop}
    (hp : a.pm.processes.lookup name = some p) (hlife : p.life.isStopping = false)
    (hbatch : a.stopAll = none) {andThen : AfterStop} (waiter : Option Waiter)
    (hR : (Move.start name andThen waiter).Within E R L)
    (hfree : andThen = .park ∨ andThen = .respawn .manual) :
    Moves (Move.Within E R L) ⟨{ b with hand := waiter.toList.map Waiter.reply ++ b.hand }, a.holdings⟩
      ⟨b, (a.startTeardown name andThen waiter).holdings⟩ := by
  rw [holdings_startTeardown hp hlife]
  have hcharge : ∀ n, andThen.charge n = n := by
    rcases hfree with rfl | rfl <;> exact fun _ => rfl
  have hauto : andThen ≠ .respawn .auto := by
    rcases hfree with rfl | rfl <;> exact fun he => by cases he
  rw [Table.update_congr hp _ (fun _ => rfl) (g := ManagedProcess.handOver andThen waiter)]
  · exact .one (.start hp hbatch hlife fun he => absurd he hauto) hR
  · rw [ManagedProcess.handOver, hcharge]

/-- The holdings once the record `p` has been handed over to a teardown. -/
def handedOver (p : ManagedProcess) (andThen : AfterStop) (a : Actor) : Holdings :=
  { a.holdings with
    processes := a.pm.processes.update p.name (ManagedProcess.handOver andThen none) fun _ => rfl
    teardowns := p.teardown :: a.teardowns }

/-- A teardown of a record whose restart count has just been set. -/
theorem holdings_charged_startTeardown {name : String} {p : ManagedProcess}
    (reason : RespawnReason) (hp : a.pm.processes.lookup name = some p)
    (hlife : p.life.isStopping = false) (count : ℕ → ℕ)
    (hcount : count p.restartCount = (AfterStop.respawn reason).charge p.restartCount) :
    ((a.update name fun p => { p with restartCount := count p.restartCount }).startTeardown name
      (.respawn reason) none).holdings = a.handedOver p (.respawn reason) := by
  obtain rfl := Table.key_eq hp
  have hp' := lookup_update hp (fun p => { p with restartCount := count p.restartCount })
    fun _ => rfl
  rw [holdings_startTeardown hp' hlife]
  dsimp only [update, ProcessManager.update, holdings, handedOver]
  rw [Table.update_update, Table.update_congr hp _ (fun _ => rfl)
    (g := ManagedProcess.handOver (.respawn reason) none)]
  · rfl
  · rw [ManagedProcess.handOver, ← hcount]

theorem handedOver_moves {p : ManagedProcess} {R : String → RespawnReason → Prop}
    {L : String → Launch → Prop} {reason : RespawnReason} (hR : R p.name reason)
    (hp : a.pm.processes.lookup p.name = some p) (hlife : p.life.isStopping = false)
    (hbatch : a.stopAll = none)
    (hauto : reason = .auto → ∃ code inc, p.life = .exited code .natural inc true) :
    Moves (Move.Within E R L) ⟨b, a.holdings⟩ ⟨b, a.handedOver p (.respawn reason)⟩ := by
  have hmove : Custody ⟨b, a.holdings⟩ (.start p.name (.respawn reason) none) _ :=
    @Custody.start b a.holdings p.name p (.respawn reason) none hp hbatch hlife fun he =>
      hauto (AfterStop.respawn.inj he)
  exact .one hmove hR

/-! ## Watchers -/

/-- Setting up a watcher edits the record, and leaves a handle behind. -/
theorem setupWatcher_moves {name : String} {p : ManagedProcess} (os : Os)
    (hs : Sound b a.holdings) (hp : a.pm.processes.lookup name = some p) :
    Moves (Move.Idle E) ⟨b, a.holdings⟩ ⟨b, (a.setupWatcher os name).1.holdings⟩ := by
  obtain rfl := Table.key_eq hp
  rw [setupWatcher, ProcessManager.find_of_lookup hp]
  dsimp only
  split
  · exact .refl _
  · cases os.watch with
    | ok =>
      have hp' := lookup_update hp
        (fun q => { q with watchHandle := some ⟨p.name, p.generation⟩ }) fun _ => rfl
      exact (update_moves hs hp (fun q => { q with watchHandle := some ⟨p.name, p.generation⟩ })
        (fun _ => rfl) rfl rfl rfl rfl).trans (.one (.watch hp' rfl) trivial)
    | error =>
      exact update_moves hs hp (fun q => { q with watchConfig := none }) (fun _ => rfl) rfl rfl rfl
        rfl

/-! ## Stop and Restart -/

theorem handleStop_moves (os : Os) (target : String) (reply : Reply)
    (hs : Sound { b with hand := reply :: b.hand } a.holdings) :
    Moves (Move.Idle os.exits) ⟨{ b with hand := reply :: b.hand }, a.holdings⟩
      ⟨b, (a.handleStop os target reply).holdings⟩ := by
  have hrefresh := a.refresh_moves os { b with hand := reply :: b.hand }
  have hs' := hrefresh.sound hs
  refine hrefresh.trans ?_
  rw [handleStop]
  cases hfind : (a.refresh os).pm.find target with
  | none => exact answer_moves ..
  | some p =>
    dsimp only
    have hp := ProcessManager.lookup_of_find hfind
    have hidle : ¬ p.life.Settled → p.life.isStopping = false →
        Moves (Move.Idle os.exits) ⟨{ b with hand := reply :: b.hand }, (a.refresh os).holdings⟩
          ⟨b, ((a.refresh os).startTeardown p.name .park (some (.stop reply))).holdings⟩ :=
      fun hns hlife => startTeardown_moves hp hlife (hs'.no_batch hp hns) (some (.stop reply))
        trivial (.inl rfl)
    cases hl : p.life with
    | running inc =>
      exact hidle (hl ▸ fun h => h.not_running inc rfl) (by rw [hl]; rfl)
    | stopping leaderExit andThen waiters =>
      exact .one (@Custody.join b _ _ _ _ _ .park _ (some (.stop reply)) hp hl fun _ => rfl) trivial
    | exited code why inc timer =>
      cases inc with
      | some inc => exact hidle (hl ▸ Life.not_settled_zombie) (by rw [hl]; rfl)
      | none =>
        exact (update_moves hs' hp (fun p => { p with watchHandle := none }) (fun _ => rfl) rfl rfl
          rfl rfl).trans (answer_moves ..)

/-- Whom a `Restart` of `target` is for. -/
def Named (target : String) (a : Actor) (n : String) (reason : RespawnReason) : Prop :=
  reason = .manual ∧ ∃ p, a.pm.find target = some p ∧ p.name = n

theorem handleRestart_moves (os : Os) (target : String) (reply : Reply) :
    Moves (Move.Within os.exits (a.Named target) Nobody)
      ⟨{ b with hand := reply :: b.hand }, a.holdings⟩
      ⟨b, (a.handleRestart os target reply).holdings⟩ := by
  rw [handleRestart]
  split
  · exact (answer_moves ..).within
  rename_i hsome
  have hbatch : a.stopAll = none := Option.not_isSome_iff_eq_none.mp hsome
  refine (a.refresh_moves os _).within.trans ?_
  dsimp only
  cases hfind : (a.refresh os).pm.find target with
  | none => exact (answer_moves ..).within
  | some p =>
    dsimp only
    have hp := ProcessManager.lookup_of_find hfind
    have hnamed : a.Named target p.name .manual := by
      obtain ⟨q, hq, rfl⟩ := Option.map_eq_some_iff.mp
        ((a.pm.find_refreshExitStates os target).symm.trans hfind)
      exact ⟨rfl, q, hq, (q.observeExit_name os).symm⟩
    have hstart (hlife : p.life.isStopping = false) :
        Moves (Move.Within os.exits (a.Named target) Nobody)
          ⟨{ b with hand := reply :: b.hand }, (a.refresh os).holdings⟩ ⟨b,
            ((a.refresh os).startTeardown p.name (.respawn .manual) (some (.restart reply))).holdings⟩ :=
      startTeardown_moves hp hlife hbatch (some (.restart reply)) hnamed (.inr rfl)
    cases hl : p.life with
    | running inc => exact hstart (by rw [hl]; rfl)
    | exited code why inc timer => exact hstart (by rw [hl]; rfl)
    | stopping leaderExit andThen waiters =>
      have hmove : Custody ⟨{ b with hand := reply :: b.hand }, (a.refresh os).holdings⟩
          (.join p.name (.respawn .manual) (some (.restart reply))) _ :=
        @Custody.join b _ _ _ _ _ (.respawn .manual) _ (some (.restart reply)) hp hl fun h =>
          absurd h hsome
      exact .one hmove hnamed

/-! ## Commands that only look -/

theorem handleStatus_moves (os : Os) (reply : Reply) :
    Moves (Move.Idle os.exits) ⟨{ b with hand := reply :: b.hand }, a.holdings⟩
      ⟨b, (a.handleStatus os reply).holdings⟩ := by
  refine (a.refresh_moves os _).trans ?_
  rw [handleStatus]
  split
  · rw [← holdings_publishProxyState (a.refresh os)]
    exact answer_moves ..
  · exact answer_moves ..

theorem handleIsProcessExited_moves (os : Os) (target : String) (reply : Reply) :
    Moves (Move.Idle os.exits) ⟨{ b with hand := reply :: b.hand }, a.holdings⟩
      ⟨b, (a.handleIsProcessExited os target reply).holdings⟩ := by
  refine (a.refresh_moves os _).trans ?_
  rw [← holdings_publishProxyState (a.refresh os)]
  exact answer_moves ..

theorem handleEnableProxy_moves (proxyPort : ℕ) (reply : Reply) :
    Moves (Move.Idle E) ⟨{ b with hand := reply :: b.hand }, a.holdings⟩
      ⟨b, (a.handleEnableProxy proxyPort reply).holdings⟩ := by
  rw [handleEnableProxy]
  split
  · exact answer_moves ..
  · have hsame : Actor.holdings { a with
        proxyPort := some proxyPort, pm := a.pm.enableProxy } = a.holdings := rfl
    rw [← hsame, ← holdings_publishProxyState]
    exact answer_moves ..

/-! ## Timers and watchers -/

/-- The record a stamped message is for: whatever is found under its name with its generation is
the record of that name. -/
theorem lookup_of_issued {name : String} {generation : ℕ} {p : ManagedProcess}
    (hissued : a.holdings.IssuedTo name generation) (hfind : a.pm.find name = some p)
    (hgen : p.generation = generation) : a.pm.processes.lookup name = some p := by
  have hp := ProcessManager.lookup_of_find hfind
  rwa [hissued.2 p.name p hp hgen] at hp

/-- Whom the timer of `name` at `generation` is for. -/
def Timed (name : String) (generation : ℕ) (a : Actor) (n : String) (reason : RespawnReason) :
    Prop :=
  n = name ∧ reason = .auto ∧ ∃ p code inc, a.pm.processes.lookup n = some p ∧
    p.generation = generation ∧ p.life = .exited code .natural inc true

/-- A timer finds its record waiting for it, or does nothing. -/
theorem handleAutoRestart_cases {name : String} {generation : ℕ}
    (hissued : a.holdings.IssuedTo name generation) :
    a.handleAutoRestart name generation = a ∨ ∃ p, a.stopAll = none ∧ p.life.isStopping = false ∧
      a.Timed name generation p.name .auto ∧ a.pm.processes.lookup p.name = some p ∧
      (a.handleAutoRestart name generation).holdings = a.handedOver p (.respawn .auto) := by
  rw [handleAutoRestart]
  split
  · exact .inl rfl
  rename_i hsome
  have hbatch : a.stopAll = none := Option.not_isSome_iff_eq_none.mp hsome
  split
  · exact .inl rfl
  split
  · rename_i p hfind hgen
    have hp := lookup_of_issued hissued hfind hgen
    obtain rfl := Table.key_eq hp
    split
    · rename_i code inc hl
      have hlife : p.life.isStopping = false := by rw [hl]; rfl
      exact .inr ⟨p, hbatch, hlife, ⟨rfl, rfl, p, code, inc, hp, hgen, hl⟩, hp,
        holdings_charged_startTeardown .auto hp hlife (· + 1) rfl⟩
    · exact .inl rfl
  · exact .inl rfl

theorem handleAutoRestart_moves {name : String} {generation : ℕ}
    (hissued : a.holdings.IssuedTo name generation) :
    Moves (Move.Within E (a.Timed name generation) Nobody)
      ⟨b, a.holdings⟩ ⟨b, (a.handleAutoRestart name generation).holdings⟩ := by
  rcases handleAutoRestart_cases hissued with h | ⟨p, hbatch, hlife, htimed, hp, h⟩
  · rw [h]
    exact .refl _
  · rw [h]
    refine handedOver_moves htimed hp hlife hbatch fun _ => ?_
    obtain ⟨-, -, q, code, inc, hq, -, hl⟩ := htimed
    obtain rfl := Option.some.inj (hp.symm.trans hq)
    exact ⟨code, inc, hl⟩

/-- Whom a file change of `name` at `generation` is for. -/
def Watched (name : String) (generation : ℕ) (a : Actor) (n : String) (reason : RespawnReason) :
    Prop :=
  n = name ∧ reason = .watch ∧ a.stopAll = none ∧ ∃ p, a.pm.processes.lookup n = some p ∧
    p.generation = generation ∧ p.life.isStopping = false ∧
    ∀ code inc timer, p.life ≠ .exited code .manual inc timer

/-- A file change finds a record it may restart, or does nothing. -/
theorem handleWatchRestart_cases {name : String} {generation : ℕ}
    (hissued : a.holdings.IssuedTo name generation) :
    a.handleWatchRestart name generation = a ∨ ∃ p, a.stopAll = none ∧ p.life.isStopping = false ∧
      a.Watched name generation p.name .watch ∧ a.pm.processes.lookup p.name = some p ∧
      (a.handleWatchRestart name generation).holdings = a.handedOver p (.respawn .watch) := by
  rw [handleWatchRestart]
  split
  · exact .inl rfl
  rename_i hsome
  have hbatch : a.stopAll = none := Option.not_isSome_iff_eq_none.mp hsome
  split
  · exact .inl rfl
  split
  · rename_i p hfind hgen
    have hp := lookup_of_issued hissued hfind hgen
    obtain rfl := Table.key_eq hp
    split
    · exact .inl rfl
    · exact .inl rfl
    · rename_i hstop hmanual
      have hlife : p.life.isStopping = false := by
        cases hl : p.life with
        | stopping => exact absurd hl (hstop _ _ _)
        | _ => rfl
      exact .inr ⟨p, hbatch, hlife, ⟨rfl, rfl, hbatch, p, hp, hgen, hlife, hmanual⟩, hp,
        holdings_charged_startTeardown .watch hp hlife (fun _ => 0) rfl⟩
  · exact .inl rfl

theorem handleWatchRestart_moves {name : String} {generation : ℕ}
    (hissued : a.holdings.IssuedTo name generation) :
    Moves (Move.Within E (a.Watched name generation) Nobody)
      ⟨b, a.holdings⟩ ⟨b, (a.handleWatchRestart name generation).holdings⟩ := by
  rcases handleWatchRestart_cases hissued with h | ⟨p, hbatch, hlife, hwatched, hp, h⟩
  · rw [h]
    exact .refl _
  · rw [h]
    exact handedOver_moves hwatched hp hlife hbatch fun he => by cases he

/-! ## The end of a batch -/

/-- Finishing a batch clears the table and answers everyone who waited. -/
theorem finishStopAll_moves {S : Finset String} {replies : List Reply} (mine : List Reply)
    (hreplies : replies = a.holdings.batchReplies ++ mine)
    (hidle : ∀ n p, a.pm.processes.lookup n = some p →
      p.life.inc = none ∧ p.life.isStopping = false) :
    Moves (Move.Idle E) ⟨{ b with hand := mine ++ b.hand }, a.holdings⟩
      ⟨{ b with leaving := [] },
        (finishStopAll { a with stopAll := some ⟨S, replies⟩ }).holdings⟩ := by
  have hclear : Custody ⟨{ b with hand := mine ++ b.hand }, a.holdings⟩ .clear _ := .clear hidle
  have hanswers := foldl_answer_moves (E := E) id (fun _ => .response allStopped)
    (f := fun a reply => a.respond reply allStopped) (fun _ _ => rfl) { b with leaving := [] }
    replies { a with stopAll := none, pm := a.pm.clear }
  refine (Moves.one hclear trivial).trans ?_
  rw [List.map_id, hreplies, List.append_assoc] at hanswers
  rw [hreplies]
  exact hanswers

/-- Finishing a batch leaves nothing in the table. -/
theorem pm_finishStopAll {batch : StopAllBatch} (hbatch : a.stopAll = some batch) :
    a.finishStopAll.pm = a.pm.clear := by
  rw [finishStopAll, hbatch]
  exact foldl_answer_same Actor.pm id (fun _ => .response allStopped) (fun _ _ _ => rfl)
    (fun _ _ => rfl) _ _

/-- Leaving a batch leaves the table as it is, or empty. -/
theorem pm_leaveBatch (name : String) (a : Actor) :
    (a.leaveBatch name).pm = a.pm ∨ (a.leaveBatch name).pm = a.pm.clear := by
  rw [leaveBatch]
  split
  · exact .inl rfl
  · dsimp only
    split
    · exact .inr (pm_finishStopAll rfl)
    · exact .inl rfl

/-- Striking a name off, whether or not a batch runs and whether or not it is the last. -/
theorem leaveBatch_moves {name : String} (hs : Sound { b with leaving := [name] } a.holdings)
    (hgone : ∀ p, a.pm.processes.lookup name = some p → a.stopAll.isSome = true →
      p.life.isStopping = false) :
    Moves (Move.Idle E) ⟨{ b with leaving := [name] }, a.holdings⟩
      ⟨{ b with leaving := [] }, (a.leaveBatch name).holdings⟩ := by
  rw [leaveBatch]
  cases hB : a.stopAll with
  | none =>
    have hstrike : Custody ⟨{ b with leaving := [name] }, a.holdings⟩ (.strike name) _ :=
      .strike rfl (batch_none hB) fun h p hp => hgone p hp h
    have hsame : a.holdings = { a.holdings with
        stopAll := a.holdings.stopAll.map fun B =>
          { B with remaining := B.remaining.erase name } } := by
      simp [holdings, hB]
    rw [← hsame] at hstrike
    exact .one hstrike trivial
  | some B =>
    obtain ⟨-, hmem, hsettled⟩ := hs.batch B hB
    have hgone' := fun p hp => hgone p hp (by rw [hB]; rfl)
    dsimp only
    split
    · rename_i hempty
      refine finishStopAll_moves (b := { b with leaving := [name] }) []
        (by simp [Holdings.batchReplies, holdings, hB]) fun n p hp => ?_
      have hstop : p.life.isStopping = false := by
        by_contra hstop
        have hn : n ∈ B.remaining := (hmem n).mpr (.inr ⟨p, hp, Bool.eq_true_of_not_eq_false hstop⟩)
        have hne : n ≠ name := fun he => hstop (hgone' p (he ▸ hp))
        exact absurd (Finset.mem_erase.mpr ⟨hne, hn⟩) (hempty ▸ Finset.notMem_empty n)
      rcases hsettled n p hp with ⟨_, _, hl⟩ | ⟨_, _, _, hl⟩
      · rw [hl] at hstop
        exact absurd hstop (by simp)
      · exact ⟨by rw [hl]; rfl, hstop⟩
    · rename_i hne
      have hrest : ∀ B', a.stopAll = some B' → (B'.remaining.erase name).Nonempty := by
        intro B' hB'
        obtain rfl := Option.some.inj (hB.symm.trans hB')
        exact Finset.nonempty_iff_ne_empty.mpr hne
      have hstrike : Custody ⟨{ b with leaving := [name] }, a.holdings⟩ (.strike name) _ :=
        .strike rfl hrest fun _ => hgone'
      have hsame : { a.holdings with
          stopAll := a.holdings.stopAll.map fun B =>
            { B with remaining := B.remaining.erase name } } =
          Actor.holdings { a with stopAll := some ⟨B.remaining.erase name, B.replies⟩ } := by
        simp [holdings, hB]
      rw [hsame] at hstrike
      exact .one hstrike trivial

/-! ## Respawn -/

/-- Who may get another incarnation when `name` reports: that record, if no stop-all runs. -/
def Relaunches (name : String) (a : Actor) (n : String) (kind : Launch) : Prop :=
  kind = .again ∧ n = name ∧ a.stopAll = none

/-- The record of a teardown that has ended, with the charges its respawn settles. -/
def parkedFor (code : Option ℤ) (reason : RespawnReason) (p : ManagedProcess) : ManagedProcess :=
  { p with
    life := .exited code .manual none false
    restartCount := reason.settle p.restartCount }

theorem parkedFor_name (code : Option ℤ) (reason : RespawnReason) (p : ManagedProcess) :
    (parkedFor code reason p).name = p.name := rfl

/-- What `respawn` starts from: the restarts of its record are settled. -/
def settleCount (name : String) (reason : RespawnReason) (a : Actor) : Actor :=
  a.update name fun p => { p with restartCount := reason.settle p.restartCount }

theorem settleCount_eq (name : String) (reason : RespawnReason) (a : Actor) :
    (if reason = .manual then a.update name fun p => { p with restartCount := 0 } else a) =
      a.settleCount name reason := by
  have hsame (f : ManagedProcess → ManagedProcess) (hid : ∀ p, f p = p) (hf) :
      a.update name f hf = a := by
    rw [update, ProcessManager.update, Table.update_id hid]
  cases reason with
  | manual => rfl
  | watch | auto => exact (hsame _ (fun _ => rfl) fun _ => rfl).symm

theorem lookup_settleCount {name : String} {p : ManagedProcess} (reason : RespawnReason)
    (hp : a.pm.processes.lookup name = some p) :
    (a.settleCount name reason).pm.processes.lookup name =
      some { p with restartCount := reason.settle p.restartCount } :=
  Table.lookup_update_of _ _ hp

theorem lookup_settleCount_ne {n name : String} (reason : RespawnReason) (a : Actor)
    (hne : n ≠ name) :
    (a.settleCount name reason).pm.processes.lookup n = a.pm.processes.lookup n :=
  Table.lookup_update_ne hne _ _ _

theorem settled_processes (name : String) (code : Option ℤ) (reason : RespawnReason) :
    (settleCount name reason
      { a with pm := a.pm.setLife name (.exited code .manual none false) }).holdings =
      { a.holdings with
        processes := a.pm.processes.update name (parkedFor code reason) (parkedFor_name code reason) } := by
  dsimp only [holdings, settleCount, update, ProcessManager.setLife, ProcessManager.update]
  rw [Table.update_update]
  rfl

/-- **A respawn that works** is annotated, unless it is manual, and watched; one that fails is at most
broadcast. -/
theorem respawn_branches {os : Os} {name : String} {reason : RespawnReason} (code : Option ℤ)
    {pm : ProcessManager} {resp : Response}
    (h : (a.settleCount name reason).pm.respawn os name (reason != .manual) = (pm, resp)) :
    (∃ a', (a' = { a.settleCount name reason with pm } ∨
        ∃ msg, SupervisorMessage msg ∧ a' = annotate name msg { a.settleCount name reason with pm }) ∧
      (∃ n id pid port url, resp = .runOk n id pid port url) ∧
      a.respawn os name reason code = ((a'.setupWatcher os name).1, resp)) ∨
    (∀ n id pid port url, resp ≠ .runOk n id pid port url) ∧
      ∃ broadcasts, a.respawn os name reason code =
        ({ a.settleCount name reason with pm, broadcasts }, resp) := by
  rw [respawn, settleCount_eq]
  dsimp only
  rw [h]
  cases resp with
  | runOk n id pid port url =>
    refine .inl ?_
    cases reason with
    | manual => exact ⟨_, .inl rfl, ⟨n, id, pid, port, url, rfl⟩, rfl⟩
    | watch => exact ⟨_, .inr ⟨_, .fileChanged, rfl⟩, ⟨n, id, pid, port, url, rfl⟩, rfl⟩
    | auto =>
      dsimp only
      split
      · exact ⟨_, .inr ⟨_, .restarted _ _, rfl⟩, ⟨n, id, pid, port, url, rfl⟩, rfl⟩
      · exact ⟨_, .inl rfl, ⟨n, id, pid, port, url, rfl⟩, rfl⟩
  | _ =>
    refine .inr ⟨fun _ _ _ _ _ => Response.noConfusion, ?_⟩
    cases reason <;> exact ⟨_, rfl⟩

/-- **What the new table has**, and annotations, broadcasts and the watcher keep, a respawn has. -/
theorem respawn_rule {P : Actor → Prop} {os : Os} {name : String} {reason : RespawnReason}
    (code : Option ℤ) {pm : ProcessManager} {resp : Response}
    (h : (a.settleCount name reason).pm.respawn os name (reason != .manual) = (pm, resp))
    (htable : ∀ broadcasts, P { a.settleCount name reason with pm, broadcasts })
    (hannotate : ∀ a' msg, SupervisorMessage msg → P a' → P (a'.annotate name msg))
    (hwatcher : ∀ a', a'.pm = pm → P a' → P (a'.setupWatcher os name).1) :
    P (a.respawn os name reason code).1 := by
  rcases respawn_branches code h with ⟨a', ha', -, heq⟩ | ⟨-, broadcasts, heq⟩
  · rw [heq]
    rcases ha' with rfl | ⟨msg, hmsg, rfl⟩
    · exact hwatcher _ rfl (htable _)
    · exact hwatcher _ (pm_annotate ..) (hannotate _ msg hmsg (htable _))
  · exact heq ▸ htable broadcasts

theorem snd_respawn (os : Os) (name : String) (reason : RespawnReason) (code : Option ℤ)
    (a : Actor) : (a.respawn os name reason code).2 =
      ((a.settleCount name reason).pm.respawn os name (reason != .manual)).2 := by
  rcases h : (a.settleCount name reason).pm.respawn os name (reason != .manual) with ⟨pm, resp⟩
  rcases respawn_branches code h with ⟨_, -, -, heq⟩ | ⟨-, _, heq⟩ <;> rw [heq]

theorem holdings_pm (a : Actor) (pm : ProcessManager) : Actor.holdings { a with pm } =
    { a.holdings with
      processes := pm.processes
      nextGeneration := pm.nextGeneration
      spawned := pm.spawned
      dropped := pm.dropped } := rfl

/-- A fresh incarnation for a record whose teardown has ended, in the table. -/
theorem respawn_process_moves {a₁ : Actor} {name : String} {p : ManagedProcess}
    {leaderExit : Option (Option ℤ)} {reason : RespawnReason} {ws : List Waiter} (os : Os)
    (code : Option ℤ) (rotate : Bool) (hp : a.pm.processes.lookup name = some p)
    (hbatch : a.stopAll = none) (hlife : p.life = .stopping leaderExit (.respawn reason) ws)
    (ha₁ : a₁.holdings = { a.holdings with
      processes := a.pm.processes.update name (parkedFor code reason) (parkedFor_name code reason) }) :
    Moves (Move.Within E Nobody (a.Relaunches name))
      ⟨{ b with due := (name, p.generation) :: b.due }, a.holdings⟩
      ⟨{ b with hand := ws.map Waiter.reply ++ b.hand, leaving := name :: b.leaving },
        Actor.holdings { a₁ with pm := (a₁.pm.respawn os name rotate).1 }⟩ := by
  have hprocs : a₁.pm.processes = a.pm.processes.update name (parkedFor code reason) (parkedFor_name code reason) :=
    congrArg Holdings.processes ha₁
  have hp₁ : a₁.pm.processes.lookup name = some (parkedFor code reason p) :=
    hprocs ▸ Table.lookup_update_of (parkedFor code reason) (parkedFor_name code reason) hp
  have hgen : a₁.pm.nextGeneration = a.pm.nextGeneration := congrArg Holdings.nextGeneration ha₁
  have hspawned : a₁.pm.spawned = a.pm.spawned := congrArg Holdings.spawned ha₁
  have hdropped : a₁.pm.dropped = a.pm.dropped := congrArg Holdings.dropped ha₁
  rw [holdings_pm a₁, ha₁, ProcessManager.respawn, hp₁]
  dsimp only [ProcessManager.nextId]
  cases os.spawn with
  | ok pid =>
    have hmove : Custody ⟨{ b with due := (name, p.generation) :: b.due }, a.holdings⟩
        (.relaunch name reason) _ :=
      .relaunch (f := fun q => { parkedFor code reason q with
        id := s!"p{a₁.pm.idCounter}"
        pid := pid
        startedAt := os.now
        generation := a.pm.nextGeneration + 1
        life := .running ⟨a.pm.spawned, pid⟩ }) (fun _ => rfl) hp hbatch hlife rfl rfl rfl rfl
    dsimp only [ProcessManager.update]
    rw [hprocs, hgen, hspawned, hdropped, Table.update_update]
    exact .one hmove ⟨rfl, rfl, hbatch⟩
  | error message =>
    have hmove : Custody ⟨{ b with due := (name, p.generation) :: b.due }, a.holdings⟩
        (.fail name reason) _ :=
      .fail (f := fun q => { parkedFor code reason q with
        pid := 0
        life := .exited code .spawnFailed none false }) (fun _ => rfl) hp hbatch hlife rfl rfl rfl rfl
    dsimp only [ProcessManager.update]
    rw [hprocs, hgen, hspawned, hdropped, Table.update_update]
    exact .one hmove ⟨rfl, rfl, hbatch⟩

/-- **A respawn** relaunches the record, or leaves it failed. -/
theorem respawn_moves {name : String} {p : ManagedProcess} {leaderExit : Option (Option ℤ)}
    {reason : RespawnReason} {ws : List Waiter} (os : Os) (code : Option ℤ)
    (hs : Sound { b with due := (name, p.generation) :: b.due } a.holdings)
    (hp : a.pm.processes.lookup name = some p) (hbatch : a.stopAll = none)
    (hlife : p.life = .stopping leaderExit (.respawn reason) ws) :
    Moves (Move.Within E Nobody (a.Relaunches name))
      ⟨{ b with due := (name, p.generation) :: b.due }, a.holdings⟩
      ⟨{ b with hand := ws.map Waiter.reply ++ b.hand, leaving := name :: b.leaving },
        (respawn os name reason code
          { a with pm := a.pm.setLife name (.exited code .manual none false) }).1.holdings⟩ := by
  let parked : Actor := { a with pm := a.pm.setLife name (.exited code .manual none false) }
  have hsettled : (parked.settleCount name reason).holdings = { a.holdings with
      processes := a.pm.processes.update name (parkedFor code reason) (parkedFor_name code reason) } :=
    settled_processes name code reason
  have hmoves := respawn_process_moves (E := E) (b := b) os code (reason != .manual) hp hbatch hlife
    hsettled
  have hparked : (parked.settleCount name reason).pm.processes.lookup name =
      some (parkedFor code reason p) := by
    rw [show (parked.settleCount name reason).pm.processes = _ from congrArg Holdings.processes hsettled]
    exact Table.lookup_update_of (parkedFor code reason) (parkedFor_name code reason) hp
  obtain ⟨q, hq⟩ := ProcessManager.lookup_respawn os (reason != .manual) hparked
  rcases hrespawn : (parked.settleCount name reason).pm.respawn os name (reason != .manual) with
    ⟨pm, resp⟩
  rw [hrespawn] at hmoves hq
  refine respawn_rule (P := fun a' => Moves (Move.Within E Nobody (a.Relaunches name)) _ ⟨_, a'.holdings⟩)
    code hrespawn (fun _ => hmoves) (fun _ _ _ h => by rwa [holdings_annotate]) fun a' hpm h => ?_
  exact h.trans (setupWatcher_moves os (h.sound hs) (hpm ▸ hq)).within

@[simp] theorem stopAll_annotate (name msg : String) (a : Actor) :
    (a.annotate name msg).stopAll = a.stopAll := congrArg Holdings.stopAll (holdings_annotate ..)

@[simp] theorem stopAll_setupWatcher (os : Os) (name : String) (a : Actor) :
    (a.setupWatcher os name).1.stopAll = a.stopAll := by
  rw [setupWatcher]
  split
  · rfl
  split
  · rfl
  · cases os.watch <;> rfl

/-- A respawn leaves the batch alone. -/
theorem stopAll_respawn (os : Os) (name : String) (reason : RespawnReason) (code : Option ℤ)
    (a : Actor) : (a.respawn os name reason code).1.stopAll = a.stopAll := by
  rcases hrespawn : (a.settleCount name reason).pm.respawn os name (reason != .manual) with ⟨pm, resp⟩
  exact respawn_rule (P := fun a' => a'.stopAll = a.stopAll) code hrespawn (fun _ => rfl)
    (fun _ _ _ => (stopAll_annotate ..).trans) fun _ _ => (stopAll_setupWatcher ..).trans

/-! ## The end of a teardown -/

/-- After the record has its new life: the waiters are answered, and the batch is left. -/
theorem finish_moves {name : String} {ws : List Waiter} (restartReply : Response)
    (hs : Sound { b with hand := ws.map Waiter.reply ++ b.hand, leaving := [name] } a.holdings)
    (hgone : ∀ p, a.pm.processes.lookup name = some p → a.stopAll.isSome = true →
      p.life.isStopping = false) :
    Moves (Move.Idle E)
      ⟨{ b with hand := ws.map Waiter.reply ++ b.hand, leaving := [name] }, a.holdings⟩
      ⟨{ b with leaving := [] },
        ((ws.foldl (answerWaiter name restartReply) a).leaveBatch name).publishProxyState.holdings⟩ := by
  have hanswers := foldl_answer_moves (E := E) Waiter.reply (waiterAnswer name restartReply)
    (answerWaiter_eq name restartReply) { b with leaving := [name] } ws a
  have hpm := foldl_answer_same Actor.pm Waiter.reply (waiterAnswer name restartReply)
    (fun _ _ _ => rfl) (answerWaiter_eq name restartReply) ws a
  have hbatch := foldl_answer_same Actor.stopAll Waiter.reply (waiterAnswer name restartReply)
    (fun _ _ _ => rfl) (answerWaiter_eq name restartReply) ws a
  rw [holdings_publishProxyState]
  refine hanswers.trans (leaveBatch_moves (hanswers.sound hs) ?_)
  rwa [hpm, hbatch]

theorem finishTeardown_moves {name : String} {generation : ℕ} (os : Os) (code : Option ℤ)
    (hs : Sound { b with due := (name, generation) :: b.due } a.holdings)
    (hleaving : b.leaving = []) :
    Moves (Move.Within E Nobody (a.Relaunches name))
      ⟨{ b with due := (name, generation) :: b.due }, a.holdings⟩
      ⟨b, (a.finishTeardown os name generation code).holdings⟩ := by
  obtain ⟨hand, due, leaving, gone, requests⟩ := b
  obtain rfl : leaving = [] := hleaving
  obtain ⟨p, hp, rfl, hstop⟩ := hs.due List.mem_cons_self
  obtain rfl := Table.key_eq hp
  rw [finishTeardown, ProcessManager.find_of_lookup hp]
  dsimp only
  rw [if_pos rfl]
  cases hl : p.life with
  | running => exact absurd hstop (by simp [hl])
  | exited => exact absurd hstop (by simp [hl])
  | stopping leaderExit andThen ws =>
    cases andThen with
    | park =>
      have hpark : Custody ⟨⟨hand, (p.name, p.generation) :: due, [], gone, requests⟩, a.holdings⟩
          (.park p.name) ⟨⟨ws.map Waiter.reply ++ hand, due, [p.name], gone, requests⟩, Actor.holdings
            { a with pm := a.pm.setLife p.name (.exited code .manual none false) }⟩ :=
        .park (b := ⟨hand, due, [], gone, requests⟩) hp hl
      have hparked : Moves (Move.Within E Nobody (a.Relaunches p.name))
          _ _ := .one hpark trivial
      refine hparked.trans (finish_moves (b := ⟨hand, due, [], gone, requests⟩)
        (actorError "restart superseded by stop") (hparked.sound hs) ?_).within
      intro q hq _
      obtain rfl := Option.some.inj ((lookup_update hp (ManagedProcess.withLife _)
        fun _ => rfl).symm.trans hq)
      rfl
    | respawn reason =>
      have hbatch : a.stopAll = none := hs.no_batch hp (hl ▸ Life.not_settled_respawn)
      have hrespawn := respawn_moves (E := E) (b := ⟨hand, due, [], gone, requests⟩) os code hs hp hbatch hl
      refine hrespawn.trans (finish_moves (b := ⟨hand, due, [], gone, requests⟩) _
        (hrespawn.sound hs) ?_).within
      intro q _ hsome
      rw [stopAll_respawn] at hsome
      rw [hbatch] at hsome
      exact absurd hsome (by simp)

/-! ## Stop-all -/

/-- One record of a stop-all: settled afterwards, and waited for exactly if it is stopping. -/
theorem stopOne_spec {st : Actor × Finset String} {name : String} {p : ManagedProcess}
    (hp : st.1.pm.processes.lookup name = some p) (hbatch : st.1.stopAll = none) :
    ∃ q, (∀ m, (stopOne st name).1.pm.processes.lookup m =
        if m = name then some q else st.1.pm.processes.lookup m) ∧
      (stopOne st name).1.stopAll = none ∧ q.life.Settled ∧
      ((q.life.isStopping = true ∧ (stopOne st name).2 = insert name st.2) ∨
        (q = p ∧ q.life.isStopping = false ∧ (stopOne st name).2 = st.2)) ∧
      Moves (Move.Idle E) ⟨b, st.1.holdings⟩ ⟨b, (stopOne st name).1.holdings⟩ := by
  obtain rfl := Table.key_eq hp
  have hupdate (f : ManagedProcess → ManagedProcess) (hf : ∀ q, (f q).name = q.name) (m : String) :
      (st.1.pm.processes.update p.name f hf).lookup m =
        if m = p.name then some (f p) else st.1.pm.processes.lookup m := by
    rw [Table.lookup_update]
    split
    · rw [‹m = p.name›, hp]
      rfl
    · rfl
  have hstart (hlife : p.life.isStopping = false) :
      let a' := st.1.startTeardown p.name .park none
      (∀ m, a'.pm.processes.lookup m = if m = p.name then some { p with
        watchHandle := none, life := .stopping p.life.leaderExit .park [] }
        else st.1.pm.processes.lookup m) ∧ a'.stopAll = none ∧
        Moves (Move.Idle E) ⟨b, st.1.holdings⟩ ⟨b, a'.holdings⟩ := by
    have hafter := holdings_startTeardown hp hlife .park none
    refine ⟨fun m => ?_, (congrArg Holdings.stopAll hafter).trans hbatch,
      startTeardown_moves hp hlife hbatch none trivial (.inl rfl)⟩
    have hprocs : (st.1.startTeardown p.name .park none).pm.processes = _ :=
      congrArg Holdings.processes hafter
    rw [hprocs]
    exact hupdate _ _ m
  rw [stopOne, ProcessManager.find_of_lookup hp]
  dsimp only
  cases hl : p.life with
  | running inc =>
    obtain ⟨hlookup, hnone, hmoves⟩ := hstart (by rw [hl]; rfl)
    exact ⟨_, hlookup, hnone, .inl ⟨_, _, rfl⟩, .inl ⟨rfl, rfl⟩, hmoves⟩
  | stopping leaderExit andThen ws =>
    refine ⟨p.withLife (.stopping leaderExit .park ws), hupdate (ManagedProcess.withLife _)
      fun _ => rfl, hbatch, .inl ⟨_, _, rfl⟩, .inl ⟨rfl, rfl⟩, ?_⟩
    have hmove : Custody ⟨b, st.1.holdings⟩ (.join p.name .park none) _ :=
      @Custody.join b _ _ _ _ _ .park _ none hp hl fun _ => rfl
    rw [Option.toList_none, List.append_nil] at hmove
    exact .one hmove trivial
  | exited code why inc timer =>
    cases inc with
    | some inc =>
      obtain ⟨hlookup, hnone, hmoves⟩ := hstart (by rw [hl]; rfl)
      exact ⟨_, hlookup, hnone, .inl ⟨_, _, rfl⟩, .inl ⟨rfl, rfl⟩, hmoves⟩
    | none =>
      refine ⟨p, fun m => ?_, hbatch, .inr ⟨_, _, _, hl⟩, .inr ⟨rfl, by rw [hl]; rfl, rfl⟩, .refl _⟩
      by_cases hm : m = p.name
      · rw [if_pos hm, hm]
        exact hp
      · rw [if_neg hm]

/-- A stop-all that has gone over the records `done`. -/
structure Swept (done : List String) (st : Actor × Finset String) : Prop where
  batch : st.1.stopAll = none
  waits : ∀ n ∈ st.2, ∃ p, st.1.pm.processes.lookup n = some p ∧ p.life.isStopping = true
  settled : ∀ n ∈ done, ∀ p, st.1.pm.processes.lookup n = some p →
    p.life.Settled ∧ (p.life.isStopping = true → n ∈ st.2)

theorem Swept.stopOne {done : List String} {st : Actor × Finset String} {name : String}
    {p : ManagedProcess} (h : Swept done st) (hp : st.1.pm.processes.lookup name = some p) :
    Swept (done ++ [name]) (stopOne st name) := by
  obtain ⟨q, hlookup, hnone, hsettled, hset, -⟩ :=
    stopOne_spec (b := ⟨[], [], [], [], 0⟩) (E := fun _ => none) hp h.batch
  refine ⟨hnone, fun n hn => ?_, fun n hn r hr => ?_⟩
  · rw [hlookup]
    split
    · subst n
      rcases hset with ⟨hstop, -⟩ | ⟨rfl, -, hsame⟩
      · exact ⟨q, rfl, hstop⟩
      · obtain ⟨p', hp', hstop⟩ := h.waits name (hsame ▸ hn)
        obtain rfl := Option.some.inj (hp.symm.trans hp')
        exact ⟨q, rfl, hstop⟩
    · rename_i hne
      rcases hset with ⟨-, hins⟩ | ⟨-, -, hsame⟩
      · rw [hins] at hn
        exact h.waits n (Finset.mem_of_mem_insert_of_ne hn hne)
      · exact h.waits n (hsame ▸ hn)
  · rw [hlookup] at hr
    split at hr
    · subst n
      obtain rfl := Option.some.inj hr
      refine ⟨hsettled, fun hstop => ?_⟩
      rcases hset with ⟨-, hins⟩ | ⟨-, hnot, -⟩
      · exact hins ▸ Finset.mem_insert_self name st.2
      · exact absurd (hstop.symm.trans hnot) (by simp)
    · rename_i hne
      obtain ⟨hsr, hin⟩ := h.settled n ((List.mem_append.mp hn).resolve_right fun he =>
        hne (List.mem_singleton.mp he)) r hr
      refine ⟨hsr, fun hstop => ?_⟩
      rcases hset with ⟨-, hins⟩ | ⟨-, -, hsame⟩
      · exact hins ▸ Finset.mem_insert_of_mem (hin hstop)
      · exact hsame ▸ hin hstop

/-- **The sweep** of a stop-all, over all the records. -/
theorem foldl_stopOne : ∀ (names done : List String) (st : Actor × Finset String), Swept done st →
    (∀ n ∈ names, ∃ p, st.1.pm.processes.lookup n = some p) →
    Swept (done ++ names) (names.foldl stopOne st) ∧
      (∀ n, ((names.foldl stopOne st).1.pm.processes.lookup n).isSome =
        (st.1.pm.processes.lookup n).isSome) ∧
      Moves (Move.Idle E) ⟨b, st.1.holdings⟩ ⟨b, (names.foldl stopOne st).1.holdings⟩
  | [], done, st, h, _ => ⟨by rwa [List.append_nil], fun _ => rfl, .refl _⟩
  | name :: names, done, st, h, hnames => by
    obtain ⟨p, hp⟩ := hnames name List.mem_cons_self
    obtain ⟨q, hlookup, -, -, -, hmoves⟩ := stopOne_spec (b := b) hp h.batch
    have hkeys (n : String) : ((stopOne st name).1.pm.processes.lookup n).isSome =
        (st.1.pm.processes.lookup n).isSome := by
      rw [hlookup]
      split
      · rw [‹n = name›, hp]
        rfl
      · rfl
    have hrest : ∀ n ∈ names, ∃ p, (stopOne st name).1.pm.processes.lookup n = some p :=
      fun n hn => Option.isSome_iff_exists.mp
        ((hkeys n).trans (Option.isSome_iff_exists.mpr (hnames n (List.mem_cons_of_mem name hn))))
    obtain ⟨hswept, hsame, hmoves'⟩ := foldl_stopOne names (done ++ [name]) _ (h.stopOne hp) hrest
    rw [List.append_assoc, List.singleton_append] at hswept
    exact ⟨hswept, fun n => (hsame n).trans (hkeys n), hmoves.trans hmoves'⟩

/-- After the sweep, a batch waits for exactly the stopping records, and all are settled. -/
theorem swept_stopAll (os : Os) (hbatch : a.stopAll = none) :
    let st := (a.refresh os).pm.names.foldl stopOne (a.refresh os, ∅)
    st.1.stopAll = none ∧
      (∀ n, n ∈ st.2 ↔ ∃ p, st.1.pm.processes.lookup n = some p ∧ p.life.isStopping = true) ∧
      (∀ n p, st.1.pm.processes.lookup n = some p → p.life.Settled) ∧
      ∀ b, Moves (Move.Idle os.exits) ⟨b, a.holdings⟩ ⟨b, st.1.holdings⟩ := by
  have hnames : ∀ n ∈ (a.refresh os).pm.names, ∃ p, (a.refresh os).pm.processes.lookup n = some p :=
    fun n hn => Table.mem_keys.mp hn
  have hstart : Swept [] (a.refresh os, ∅) :=
    ⟨hbatch, fun n hn => absurd hn (Finset.notMem_empty n), fun n hn => absurd hn List.not_mem_nil⟩
  obtain ⟨hswept, hkeys, -⟩ :=
    foldl_stopOne (b := ⟨[], [], [], [], 0⟩) (E := os.exits) _ [] _ hstart hnames
  rw [List.nil_append] at hswept
  have hin : ∀ n p, ((a.refresh os).pm.names.foldl stopOne (a.refresh os, ∅)).1.pm.processes.lookup
      n = some p → n ∈ (a.refresh os).pm.names := by
    intro n p hp
    have hsome := (hkeys n).symm.trans (Option.isSome_iff_exists.mpr ⟨p, hp⟩)
    exact Table.mem_keys.mpr (Option.isSome_iff_exists.mp hsome)
  refine ⟨hswept.batch, fun n => ⟨hswept.waits n, ?_⟩, fun n p hp => ?_, fun b => ?_⟩
  · rintro ⟨p, hp, hstop⟩
    exact (hswept.settled n (hin n p hp) p hp).2 hstop
  · exact (hswept.settled n (hin n p hp) p hp).1
  · exact (a.refresh_moves os b).trans (foldl_stopOne _ [] _ hstart hnames).2.2

/-- A settled record that is not stopping holds nothing. -/
theorem idle_of_settled {l : Life} (h : l.Settled) (hstop : l.isStopping = false) :
    l.inc = none := by
  rcases h with ⟨_, _, rfl⟩ | ⟨_, _, _, rfl⟩
  · exact absurd hstop (by simp)
  · rfl

theorem handleStopAll_moves (os : Os) (reply : Reply) (hleaving : b.leaving = []) :
    Moves (Move.Idle os.exits) ⟨{ b with hand := reply :: b.hand }, a.holdings⟩
      ⟨b, (a.handleStopAll os reply).holdings⟩ := by
  obtain ⟨hand, due, leaving, gone, requests⟩ := b
  obtain rfl : leaving = [] := hleaving
  rw [handleStopAll]
  cases hB : a.stopAll with
  | some B => exact .one (.joinBatch (b := ⟨hand, due, [], gone, requests⟩) hB) trivial
  | none =>
    have hswept := swept_stopAll os hB
    dsimp only at hswept ⊢
    generalize (a.refresh os).pm.names.foldl stopOne (a.refresh os, ∅) = st at hswept ⊢
    obtain ⟨a', S⟩ := st
    obtain ⟨hnone, hS, hsettled, hmoves⟩ := hswept
    dsimp only at hnone hS hsettled hmoves ⊢
    rw [holdings_publishProxyState]
    refine (hmoves _).trans ?_
    split
    · rename_i hempty
      have hreplies : [reply] = a'.holdings.batchReplies ++ [reply] := by
        simp [Holdings.batchReplies, holdings, hnone]
      refine finishStopAll_moves (b := ⟨hand, due, [], gone, requests⟩) [reply] hreplies fun n p hp => ?_
      have hstop : p.life.isStopping = false := by
        by_contra hstop
        have hn := (hS n).mpr ⟨p, hp, Bool.eq_true_of_not_eq_false hstop⟩
        exact absurd (hempty ▸ hn) (Finset.notMem_empty n)
      exact ⟨idle_of_settled (hsettled n p hp) hstop, hstop⟩
    · exact .one (@Custody.openBatch ⟨hand, due, [], gone, requests⟩ _ _ [reply] hnone
        (Finset.nonempty_iff_ne_empty.mpr ‹_›) hS hsettled rfl) trivial

/-! ## Spawn -/

/-- Resolving a port leaves the table alone. -/
theorem resolvePort_same {os : Os} {port resolved : Option ℕ} {pm pm' : ProcessManager}
    (h : pm.resolvePort os port = .ok (resolved, pm')) :
    pm'.processes = pm.processes ∧ pm'.nextGeneration = pm.nextGeneration ∧
      pm'.spawned = pm.spawned ∧ pm'.dropped = pm.dropped ∧ pm'.idCounter = pm.idCounter := by
  rw [ProcessManager.resolvePort.eq_def] at h
  split at h
  · obtain ⟨-, rfl⟩ := Prod.mk.inj (Except.ok.inj h)
    exact ⟨rfl, rfl, rfl, rfl, rfl⟩
  split at h
  · dsimp only at h
    split at h
    · obtain ⟨-, rfl⟩ := Prod.mk.inj (Except.ok.inj h)
      exact ⟨rfl, rfl, rfl, rfl, rfl⟩
    · exact absurd h (by simp)
  · obtain ⟨-, rfl⟩ := Prod.mk.inj (Except.ok.inj h)
    exact ⟨rfl, rfl, rfl, rfl, rfl⟩

/-- A spawn either refuses and leaves the table alone, or adds a fresh record to it. -/
theorem spawnProcess_cases (os : Os) (command : String) (name cwd : Option String)
    (env : Option (List (String × String))) (port : Option ℕ) (pm : ProcessManager) :
    ∃ pm' resp, pm.spawnProcess os command name cwd env port = (pm', resp) ∧
    pm'.idCounter = pm.idCounter + 1 ∧
    ((pm'.processes = pm.processes ∧ pm'.nextGeneration = pm.nextGeneration ∧
      pm'.spawned = pm.spawned ∧ pm'.dropped = pm.dropped ∧
      ∃ code message, resp = .error code message) ∨
    ∃ p pid, pm'.processes = pm.processes.insert p ∧ pm'.nextGeneration = pm.nextGeneration + 1 ∧
      pm'.spawned = pm.spawned + 1 ∧ pm'.dropped = pm.dropped ∧
      pm.processes.lookup p.name = none ∧ p.life = .running ⟨pm.spawned, pid⟩ ∧
      p.generation = pm.nextGeneration + 1 ∧ p.restartCount = 0 ∧ p.id = s!"p{pm.idCounter}" ∧
      p.name = name.getD s!"p{pm.idCounter}" ∧ ∃ id port url, resp = .runOk p.name id pid port url) := by
  rcases h : pm.spawnProcess os command name cwd env port with ⟨pm', resp⟩
  refine ⟨pm', resp, rfl, ?_⟩
  rw [ProcessManager.spawnProcess] at h
  dsimp only [ProcessManager.nextId] at h
  split at h
  · obtain ⟨rfl, rfl⟩ := Prod.mk.inj h
    exact ⟨rfl, .inl ⟨rfl, rfl, rfl, rfl, _, _, rfl⟩⟩
  split at h
  · obtain ⟨rfl, rfl⟩ := Prod.mk.inj h
    exact ⟨rfl, .inl ⟨rfl, rfl, rfl, rfl, _, _, rfl⟩⟩
  split at h
  · obtain ⟨rfl, rfl⟩ := Prod.mk.inj h
    exact ⟨rfl, .inl ⟨rfl, rfl, rfl, rfl, _, _, rfl⟩⟩
  rename_i resolved pm₂ hok
  obtain ⟨hprocs, hgen, hspawned, hdropped, hcounter⟩ := resolvePort_same hok
  split at h
  · obtain ⟨rfl, rfl⟩ := Prod.mk.inj h
    exact ⟨hcounter, .inl ⟨hprocs, hgen, hspawned, hdropped, _, _, rfl⟩⟩
  rename_i hfree
  split at h
  · obtain ⟨rfl, rfl⟩ := Prod.mk.inj h
    exact ⟨hcounter, .inl ⟨hprocs, hgen, hspawned, hdropped, _, _, rfl⟩⟩
  · rename_i pid _
    obtain ⟨rfl, rfl⟩ := Prod.mk.inj h
    refine ⟨hcounter, .inr ⟨pm₂.freshProcess os command (name.getD s!"p{pm.idCounter}") s!"p{pm.idCounter}"
      cwd env resolved pid, pid, congrArg (Table.insert _) hprocs, congrArg (· + 1) hgen,
      congrArg (· + 1) hspawned, hdropped, ?_, ?_, congrArg (· + 1) hgen, rfl, rfl, rfl, _, _, _,
      rfl⟩⟩
    · exact hprocs ▸ Option.not_isSome_iff_eq_none.mp hfree
    · exact congrArg (fun k => Life.running ⟨k, pid⟩) hspawned

/-- A spawn that is refused only counts the id. -/
theorem spawnProcess_of_error {os : Os} {command : String} {name cwd : Option String}
    {env : Option (List (String × String))} {port : Option ℕ} {pm pm' : ProcessManager}
    {code : ErrorCode} {message : String}
    (h : pm.spawnProcess os command name cwd env port = (pm', .error code message)) :
    pm'.idCounter = pm.idCounter + 1 ∧ pm'.processes = pm.processes ∧
      pm'.nextGeneration = pm.nextGeneration ∧ pm'.spawned = pm.spawned ∧
      pm'.dropped = pm.dropped := by
  obtain ⟨pm₁, resp, heq, hcounter, hcases⟩ := spawnProcess_cases os command name cwd env port pm
  obtain ⟨rfl, rfl⟩ := Prod.mk.inj (heq.symm.trans h)
  rcases hcases with ⟨hprocs, hgen, hspawned, hdropped, -⟩ |
    ⟨_, _, -, -, -, -, -, -, -, -, -, -, _, _, _, hresp⟩
  · exact ⟨hcounter, hprocs, hgen, hspawned, hdropped⟩
  · exact nomatch hresp

/-- The record `p` is the one that a spawn from `pm` to `pm'` adds. -/
structure Created (name : Option String) (pm pm' : ProcessManager) (p : ManagedProcess) : Prop where
  idCounter : pm'.idCounter = pm.idCounter + 1
  processes : pm'.processes = pm.processes.insert p
  nextGeneration : pm'.nextGeneration = pm.nextGeneration + 1
  spawned : pm'.spawned = pm.spawned + 1
  dropped : pm'.dropped = pm.dropped
  free : pm.processes.lookup p.name = none
  running : ∃ pid, p.life = .running ⟨pm.spawned, pid⟩
  generation : p.generation = pm.nextGeneration + 1
  restartCount : p.restartCount = 0
  id : p.id = s!"p{pm.idCounter}"
  name_eq : p.name = name.getD s!"p{pm.idCounter}"

namespace Created

variable {name : Option String} {pm pm' : ProcessManager} {p : ManagedProcess}

theorem lookup (h : Created name pm pm' p) : pm'.processes.lookup p.name = some p := by
  rw [h.processes, Table.lookup_insert, if_pos rfl]

theorem lookup_of_ne (h : Created name pm pm' p) {m : String} (hm : m ≠ p.name) :
    pm'.processes.lookup m = pm.processes.lookup m := by
  rw [h.processes, Table.lookup_insert, if_neg hm]

end Created

/-- A spawn that works adds a record, and answers with its name. -/
theorem spawnProcess_of_runOk {os : Os} {command : String} {name cwd : Option String}
    {env : Option (List (String × String))} {port : Option ℕ} {pm pm' : ProcessManager}
    {n id : String} {pid : ℕ} {port' : Option ℕ} {url : Option String}
    (h : pm.spawnProcess os command name cwd env port = (pm', .runOk n id pid port' url)) :
    ∃ p, p.name = n ∧ Created name pm pm' p := by
  obtain ⟨pm₁, resp, heq, hcounter, hcases⟩ := spawnProcess_cases os command name cwd env port pm
  obtain ⟨rfl, rfl⟩ := Prod.mk.inj (heq.symm.trans h)
  rcases hcases with ⟨-, -, -, -, _, _, hresp⟩ |
    ⟨p, pid', hprocs, hgen, hspawned, hdropped, hfree, hrun, hpgen, hcount, hid, hname, _, _, _, hresp⟩
  · exact nomatch hresp
  · obtain ⟨rfl, -⟩ := Response.runOk.inj hresp
    exact ⟨p, rfl, hcounter, hprocs, hgen, hspawned, hdropped, hfree, ⟨pid', hrun⟩, hpgen, hcount,
      hid, hname⟩

/-- **What the watcher and the annotation keep** holds of the outfit. -/
theorem outfit_rule {P : Actor → Prop} {os : Os} {name : String} {restart : Option RestartPolicy}
    {watch : Option WatchConfig}
    (hupdate : watch = none →
      P (a.update name fun p => { p with restartPolicy := restart, watchConfig := watch }))
    (hwatcher : watch.isSome = true → P ((a.update name fun p =>
      { p with restartPolicy := restart, watchConfig := watch }).setupWatcher os name).1)
    (hannotate : ∀ a' msg, SupervisorMessage msg → P a' → P (a'.annotate name msg)) :
    P (a.outfit os name restart watch) := by
  rw [outfit]
  split
  · rename_i hsome
    have hset := hwatcher hsome
    revert hset
    rcases Actor.setupWatcher os name _ with ⟨a', result⟩
    intro hset
    cases result with
    | ok => exact hset
    | error => exact hannotate a' _ (.watchSetupFailed _) hset
  · exact hupdate (Option.not_isSome_iff_eq_none.mp ‹_›)

/-- **A `Run`** is refused while a stop-all runs, or its spawn fails, or a record is fitted out. -/
theorem handleSpawn_cases (os : Os) (command : String) (name cwd : Option String)
    (env : Option (List (String × String))) (port : Option ℕ) (restart : Option RestartPolicy)
    (watch : Option WatchConfig) (reply : Reply) (a : Actor) :
    (a.stopAll.isSome = true ∧ a.handleSpawn os command name cwd env port restart watch reply =
      a.respond reply stopAllInProgress) ∨
    a.stopAll = none ∧ ((∃ pm code message,
      a.pm.spawnProcess os command name cwd env port = (pm, .error code message) ∧
      a.handleSpawn os command name cwd env port restart watch reply =
        (publishProxyState { a with pm }).respond reply (.error code message)) ∨
    ∃ pm p id pid port' url url',
      a.pm.spawnProcess os command name cwd env port = (pm, .runOk p.name id pid port' url) ∧
      Created name a.pm pm p ∧
      (url' = match port', (outfit os p.name restart watch { a with pm }).proxyPort with
        | some port, some pp => some (processUrl p.name port (some pp))
        | _, _ => url) ∧
      a.handleSpawn os command name cwd env port restart watch reply =
        (outfit os p.name restart watch { a with pm }).publishProxyState.respond reply
          (.runOk p.name id pid port' url')) := by
  rw [handleSpawn]
  split
  · exact .inl ⟨‹_›, rfl⟩
  refine .inr ⟨Option.not_isSome_iff_eq_none.mp ‹_›, ?_⟩
  obtain ⟨pm, resp, heq, -, hcases⟩ := spawnProcess_cases os command name cwd env port a.pm
  rw [heq]
  rcases hcases with ⟨-, -, -, -, code, message, rfl⟩ |
    ⟨p, pid, -, -, -, -, -, -, -, -, -, -, id, port', url, rfl⟩
  · exact .inl ⟨pm, code, message, rfl, rfl⟩
  · obtain ⟨p', hname, hcreated⟩ := spawnProcess_of_runOk heq
    rw [← hname]
    exact .inr ⟨pm, p', id, pid, port', url, _, rfl, hcreated, rfl, rfl⟩

/-- Who may be created: a record that is not there, if no stop-all runs. -/
def Creates (a : Actor) (n : String) (kind : Launch) : Prop :=
  kind = .fresh ∧ a.stopAll = none ∧ a.pm.processes.lookup n = none

theorem handleSpawn_moves (os : Os) (command : String) (name cwd : Option String)
    (env : Option (List (String × String))) (port : Option ℕ) (restart : Option RestartPolicy)
    (watch : Option WatchConfig) (reply : Reply)
    (hs : Sound { b with hand := reply :: b.hand } a.holdings) :
    Moves (Move.Within E Nobody a.Creates)
      ⟨{ b with hand := reply :: b.hand }, a.holdings⟩
      ⟨b, (a.handleSpawn os command name cwd env port restart watch reply).holdings⟩ := by
  rcases handleSpawn_cases os command name cwd env port restart watch reply a with ⟨-, hspawn⟩ |
    ⟨hbatch, ⟨pm, code, message, herror, hspawn⟩ | ⟨pm, p, id, pid, port', url, url', -, h, -, hspawn⟩⟩
  · rw [hspawn]
    exact (answer_moves ..).within
  · obtain ⟨-, hprocs, hgen, hspawned, hdropped⟩ := spawnProcess_of_error herror
    have hsame : Actor.holdings { a with pm } = a.holdings := by
      rw [holdings_pm a, hprocs, hgen, hspawned, hdropped]
      rfl
    rw [hspawn, ← hsame, ← holdings_publishProxyState]
    exact (answer_moves ..).within
  obtain ⟨_, hrun⟩ := h.running
  have hcreate : Custody ⟨{ b with hand := reply :: b.hand }, a.holdings⟩ (.create p.name)
      ⟨{ b with hand := reply :: b.hand }, Actor.holdings { a with pm }⟩ := by
    rw [holdings_pm a pm, h.processes, h.nextGeneration, h.spawned, h.dropped]
    exact .create h.free hbatch hrun h.generation h.restartCount
  have hcreated : Moves (Move.Within E Nobody a.Creates)
      ⟨{ b with hand := reply :: b.hand }, a.holdings⟩ _ := .one hcreate ⟨rfl, hbatch, h.free⟩
  -- the fresh record gets its policy and its watch config
  have hok : RecordOk { p with restartPolicy := restart, watchConfig := watch } :=
    .of_not_exited (fun _ _ _ _ he => Life.noConfusion (hrun.symm.trans he))
      fun _ max _ _ => h.restartCount ▸ Nat.zero_le max
  have hedit : Moves (Move.Within E Nobody a.Creates)
      ⟨{ b with hand := reply :: b.hand }, Actor.holdings { a with pm }⟩
      ⟨{ b with hand := reply :: b.hand }, (Actor.update p.name (fun p =>
        { p with restartPolicy := restart, watchConfig := watch }) { a with pm }).holdings⟩ :=
    .one (.edit (f := fun p => { p with restartPolicy := restart, watchConfig := watch })
      (fun _ => rfl) h.lookup rfl rfl rfl hok) trivial
  have hattached := hcreated.trans hedit
  have hp' := lookup_update (a := { a with pm }) h.lookup
    (fun p => { p with restartPolicy := restart, watchConfig := watch }) fun _ => rfl
  have houtfit : Moves (Move.Within E Nobody a.Creates)
      ⟨{ b with hand := reply :: b.hand }, a.holdings⟩
      ⟨{ b with hand := reply :: b.hand }, (outfit os p.name restart watch { a with pm }).holdings⟩ := by
    refine outfit_rule (P := fun a' => Moves (Move.Within E Nobody a.Creates) _ ⟨_, a'.holdings⟩)
      (fun _ => hattached) (fun _ => ?_) fun _ _ _ hmoves => ?_
    · exact hattached.trans (setupWatcher_moves os (hattached.sound hs) hp').within
    · rwa [holdings_annotate]
  rw [hspawn]
  rw [← holdings_publishProxyState (outfit os p.name restart watch { a with pm })] at houtfit
  exact houtfit.trans (answer_moves ..).within

/-! ## The tick -/

/-- A record that is due a restart, read off. -/
theorem restartDue_iff {p : ManagedProcess} : p.restartDue = true ↔
    ∃ code inc policy, p.life = .exited code .natural inc false ∧
      p.restartPolicy = some policy ∧ policy.mode.shouldRestart code = true := by
  rw [ManagedProcess.restartDue]
  split
  · rename_i code inc policy hl hpol
    constructor
    · exact fun h => ⟨code, inc, policy, hl, hpol, h⟩
    · rintro ⟨code', inc', policy', hl', hpol', h⟩
      obtain ⟨rfl, -, -, -⟩ := Life.exited.inj (hl.symm.trans hl')
      obtain rfl := Option.some.inj (hpol.symm.trans hpol')
      exact h
  · rename_i hno
    refine ⟨fun h => absurd h (by simp), ?_⟩
    rintro ⟨code, inc, policy, hl, hpol, -⟩
    exact absurd hpol (hno code inc policy hl)

/-- What a spent budget means for a record with a limit. -/
theorem lt_of_not_budgetSpent {p : ManagedProcess} {policy : RestartPolicy}
    (hpol : p.restartPolicy = some policy) (h : p.budgetSpent = false) (max : ℕ)
    (hmax : policy.maxRestarts = some max) : p.restartCount < max := by
  rw [ManagedProcess.budgetSpent, hpol] at h
  simpa [hmax] using h

/-- The record `n` awaits the verdict of the tick. -/
def Due (spent : Bool) (n : String) (a : Actor) : Prop :=
  ∃ p, a.pm.processes.lookup n = some p ∧ p.restartDue = true ∧ p.budgetSpent = spent

/-- A property that the verdicts of a tick keep: what they annotate, what they make of an exited
record, and what is published in between. -/
structure KeptByVerdicts (P : Actor → Prop) : Prop where
  annotate : ∀ a name msg, SupervisorMessage msg → P a → P (a.annotate name msg)
  publish : ∀ a, P a → P a.publishProxyState
  mark : ∀ a p code why inc timer, a.pm.processes.lookup p.name = some p →
    p.life = .exited code why inc timer → P a →
    P { a with pm := a.pm.setLife p.name (.exited code .exhausted inc timer) }
  arm : ∀ a p name code why inc timer, a.pm.processes.lookup p.name = some p →
    p.life = .exited code why inc timer → P a →
    P { a with
      pm := a.pm.setLife p.name (.exited code why inc true)
      inFlight := .autoRestart name p.generation :: a.inFlight }

namespace KeptByVerdicts

variable {P : Actor → Prop}

theorem exhaust (hP : KeptByVerdicts P) (h : P a) (name : String) : P (a.exhaust name) := by
  have hmarked (a' : Actor) (h' : P a') : P { a' with pm := a'.pm.markFailed name } := by
    rw [ProcessManager.markFailed]
    split
    · rename_i p hfind
      split
      · exact hP.mark a' p _ _ _ _ (ProcessManager.lookup_of_find hfind) ‹_› h'
      · exact h'
    · exact h'
  rw [Actor.exhaust]
  split
  · exact hmarked _ (hP.annotate a name _ (.exhausted _) h)
  · exact hmarked a h

theorem armTimer (hP : KeptByVerdicts P) (h : P a) (name : String) : P (a.armTimer name) := by
  rw [Actor.armTimer]
  split
  · exact h
  · rename_i p hfind
    split
    · exact hP.arm a p name _ _ _ _ (ProcessManager.lookup_of_find hfind) ‹_› h
    · exact h

/-- **Giving the verdicts** keeps it. -/
theorem scheduleRestarts (hP : KeptByVerdicts P) (h : P a) : P a.scheduleRestarts := by
  rw [Actor.scheduleRestarts]
  split
  · exact h
  dsimp only
  have hexhausted (names : List String) : P (names.foldl Actor.exhaust a) :=
    List.foldlRecOn names _ h fun _ h' name _ => hP.exhaust h' name
  refine List.foldlRecOn _ _ ?_ fun _ h' name _ => hP.armTimer h' name
  split
  · exact hexhausted _
  · exact hP.publish _ (hexhausted _)

/-- **A tick** keeps it, if the look does. -/
theorem tick (hP : KeptByVerdicts P) (os : Os) (h : P (a.refresh os)) : P (a.tick os) := by
  rw [Actor.tick]
  split
  · exact hP.scheduleRestarts (hP.publish _ h)
  · exact hP.scheduleRestarts h

end KeptByVerdicts

theorem exhaust_spec {n : String} (hbatch : a.stopAll = none) (hdue : Due true n a) :
    (∀ m, m ≠ n → (a.exhaust n).pm.processes.lookup m = a.pm.processes.lookup m) ∧
      (a.exhaust n).stopAll = none ∧
      ∀ b, Moves (Move.Idle E) ⟨b, a.holdings⟩ ⟨b, (a.exhaust n).holdings⟩ := by
  obtain ⟨p, hp, hdue, -⟩ := hdue
  obtain ⟨code, inc, policy, hl, -, -⟩ := restartDue_iff.mp hdue
  obtain rfl := Table.key_eq hp
  have hmark : a.pm.markFailed p.name = a.pm.setLife p.name (.exited code .exhausted inc false) := by
    rw [ProcessManager.markFailed, ProcessManager.find_of_lookup hp]
    dsimp only
    rw [hl]
  have hmarked (a' : Actor) (hpm : a'.pm = a.pm) (ha' : a'.holdings = a.holdings) :
      Actor.holdings { a' with pm := a'.pm.markFailed p.name } = { a.holdings with
        processes := a.pm.processes.update p.name
          (ManagedProcess.withLife (.exited code .exhausted inc false))
          (ManagedProcess.withLife_name _) } := by
    rw [holdings_pm a', hpm, hmark, ha']
    rfl
  have hafter : (a.exhaust p.name).holdings = { a.holdings with
      processes := a.pm.processes.update p.name
        (ManagedProcess.withLife (.exited code .exhausted inc false))
        (ManagedProcess.withLife_name _) } := by
    rw [exhaust]
    dsimp only
    split
    · exact hmarked _ (pm_annotate ..) (holdings_annotate ..)
    · exact hmarked a rfl rfl
  refine ⟨fun m hm => ?_, (congrArg Holdings.stopAll hafter).trans hbatch, fun b => ?_⟩
  · have hprocs : (a.exhaust p.name).pm.processes = _ := congrArg Holdings.processes hafter
    rw [hprocs]
    exact Table.lookup_update_ne hm _ (ManagedProcess.withLife_name _) _
  · rw [hafter]
    exact .one (.exhaust hp hbatch hl) trivial

theorem armTimer_spec {n : String} (hbatch : a.stopAll = none) (hdue : Due false n a) :
    (∀ m, m ≠ n → (a.armTimer n).pm.processes.lookup m = a.pm.processes.lookup m) ∧
      (a.armTimer n).stopAll = none ∧
      ∀ b, Moves (Move.Idle E) ⟨b, a.holdings⟩ ⟨b, (a.armTimer n).holdings⟩ := by
  obtain ⟨p, hp, hdue, hspent⟩ := hdue
  obtain ⟨code, inc, policy, hl, hpol, hrestart⟩ := restartDue_iff.mp hdue
  obtain rfl := Table.key_eq hp
  have hafter : a.armTimer p.name = { a with
      pm := a.pm.setLife p.name (.exited code .natural inc true)
      inFlight := .autoRestart p.name p.generation :: a.inFlight } := by
    rw [armTimer, ProcessManager.find_of_lookup hp]
    dsimp only
    rw [hl]
  rw [hafter]
  refine ⟨fun m hm => Table.lookup_update_ne hm _ _ _, hbatch, fun b => ?_⟩
  exact .one (.arm hp hbatch hl hpol hrestart (lt_of_not_budgetSpent hpol hspent)) trivial

/-- Giving verdicts one after the other: each leaves the other records as they were. -/
theorem foldl_verdict_moves {f : Actor → String → Actor} {spent : Bool}
    (hf : ∀ (a : Actor) n, a.stopAll = none → Due spent n a →
      (∀ m, m ≠ n → (f a n).pm.processes.lookup m = a.pm.processes.lookup m) ∧
        (f a n).stopAll = none ∧ ∀ b, Moves (Move.Idle E) ⟨b, a.holdings⟩ ⟨b, (f a n).holdings⟩)
    {names : List String} (hnd : names.Nodup) (hbatch : a.stopAll = none)
    (hdue : ∀ n ∈ names, Due spent n a) :
    (names.foldl f a).stopAll = none ∧
      (∀ m, m ∉ names → (names.foldl f a).pm.processes.lookup m = a.pm.processes.lookup m) ∧
      ∀ b, Moves (Move.Idle E) ⟨b, a.holdings⟩ ⟨b, (names.foldl f a).holdings⟩ := by
  induction names generalizing a with
  | nil => exact ⟨hbatch, fun _ _ => rfl, fun _ => .refl _⟩
  | cons n names ih =>
    obtain ⟨hn, hnd⟩ := List.nodup_cons.mp hnd
    obtain ⟨hother, hnone, hmoves⟩ := hf a n hbatch (hdue n List.mem_cons_self)
    have hdue' : ∀ m ∈ names, Due spent m (f a n) := fun m hm => by
      have hmn : m ≠ n := fun he => hn (he ▸ hm)
      obtain ⟨p, hp, hrest⟩ := hdue m (List.mem_cons_of_mem n hm)
      exact ⟨p, (hother m hmn).trans hp, hrest⟩
    obtain ⟨hnone', hother', hmoves'⟩ := ih hnd hnone hdue'
    refine ⟨hnone', fun m hm => ?_, fun b => (hmoves b).trans (hmoves' b)⟩
    rw [List.mem_cons, not_or] at hm
    obtain ⟨hmn, hm⟩ := hm
    exact (hother' m hm).trans (hother m hmn)

/-- The names the tick gives a verdict on are distinct, and each is due. -/
theorem classify_spec (keep : ManagedProcess → Bool) (spent : Bool)
    (hkeep : ∀ p, keep p = true → p.budgetSpent = spent) :
    (((a.pm.processes.values.filter (·.restartDue)).filter keep).map (·.name)).Nodup ∧
      ∀ n ∈ ((a.pm.processes.values.filter (·.restartDue)).filter keep).map (·.name),
        Due spent n a := by
  constructor
  · have hsub := (List.filter_sublist (p := keep)
      (l := a.pm.processes.values.filter (·.restartDue))).trans List.filter_sublist
    refine (hsub.map _).nodup ?_
    rw [Table.map_key_values]
    exact a.pm.processes.nodup_keys
  · intro n hn
    obtain ⟨p, hp, rfl⟩ := List.mem_map.mp hn
    obtain ⟨hp, hk⟩ := List.mem_filter.mp hp
    obtain ⟨hp, hdue⟩ := List.mem_filter.mp hp
    exact ⟨p, Table.mem_values.mp hp, hdue, hkeep p hk⟩

theorem scheduleRestarts_moves :
    Moves (Move.Idle E) ⟨b, a.holdings⟩ ⟨b, a.scheduleRestarts.holdings⟩ := by
  rw [scheduleRestarts]
  split
  · exact .refl _
  rename_i hsome
  have hbatch : a.stopAll = none := Option.not_isSome_iff_eq_none.mp hsome
  dsimp only [ProcessManager.classifyRestartCandidates]
  obtain ⟨hnd, hdue⟩ := classify_spec (a := a) (·.budgetSpent) true fun _ h => h
  obtain ⟨hnd', hdue'⟩ := classify_spec (a := a) (fun p => !p.budgetSpent) false
    fun p h => by simpa using h
  obtain ⟨hnone, hother, hmoves⟩ := foldl_verdict_moves (E := E) (fun _ _ => exhaust_spec) hnd hbatch hdue
  generalize ((a.pm.processes.values.filter (·.restartDue)).filter (·.budgetSpent)).map
    (·.name) = exhausted at *
  refine (hmoves b).trans ?_
  have harm (a' : Actor) (hpm : a'.pm = (exhausted.foldl exhaust a).pm)
      (ha' : a'.holdings = (exhausted.foldl exhaust a).holdings) :
      Moves (Move.Idle E) ⟨b, (exhausted.foldl exhaust a).holdings⟩ ⟨b, ((((a.pm.processes.values.filter
        (·.restartDue)).filter fun p => !p.budgetSpent).map (·.name)).foldl armTimer a').holdings⟩ := by
    have hnone' : a'.stopAll = none := (congrArg Holdings.stopAll ha').trans hnone
    rw [← ha']
    refine (foldl_verdict_moves (fun _ _ => armTimer_spec) hnd' hnone' fun n hn => ?_).2.2 b
    obtain ⟨p, hp, hrest, hspent⟩ := hdue' n hn
    refine ⟨p, ?_, hrest, hspent⟩
    rw [hpm, hother n, hp]
    intro hmem
    -- a record is not on both lists
    obtain ⟨q, hq, -, hspent'⟩ := hdue n hmem
    obtain rfl := Option.some.inj (hp.symm.trans hq)
    exact absurd (hspent.symm.trans hspent') (by simp)
  split
  · exact harm _ rfl rfl
  · exact harm _ (pm_publishProxyState _) (holdings_publishProxyState _)

theorem tick_moves (os : Os) : Moves (Move.Idle os.exits) ⟨b, a.holdings⟩ ⟨b, (a.tick os).holdings⟩ := by
  rw [tick]
  refine (a.refresh_moves os b).trans ?_
  split
  · rw [← holdings_publishProxyState]
    exact scheduleRestarts_moves
  · exact scheduleRestarts_moves

end Actor

end AgentProcs
