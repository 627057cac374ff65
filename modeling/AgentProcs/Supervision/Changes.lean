import AgentProcs.Supervision.LastCommand

/-!
# Supervision/Changes — where a record of the table comes from

    w.record n ──changes──▸ w'.record n        observe · recount · begin · join · park · mark · unwatch
               ──launch───▸                    a fresh incarnation, id and generation
               ──refusal──▸                    a respawn whose spawn failed

One step of the daemon leaves a record that changed in small ways, or one it launched, or one whose
respawn was refused.  What small changes cannot break and a launch brings along is an invariant of
every record.
-/

namespace AgentProcs

/-- **One change of a record** that spawns nothing into it. -/
inductive RecordChange : ManagedProcess → ManagedProcess → Prop
  | observe (os : Os) (p : ManagedProcess) : RecordChange p (p.observeExit os)
  | recount (count : ℕ) (p : ManagedProcess) : RecordChange p { p with restartCount := count }
  | begin {p : ManagedProcess} (andThen : AfterStop) (waiters : List Waiter)
      (hlife : p.life.isStopping = false) : RecordChange p
        { p with watchHandle := none, life := .stopping p.life.leaderExit andThen waiters }
  | join {p : ManagedProcess} {leaderExit : Option (Option ℤ)} {was : AfterStop}
      {waiting : List Waiter} (andThen : AfterStop) (waiters : List Waiter)
      (hlife : p.life = .stopping leaderExit was waiting) :
      RecordChange p { p with life := .stopping leaderExit andThen waiters }
  | park {p : ManagedProcess} (code : Option ℤ) (hlife : p.life.isStopping = true) :
      RecordChange p { p with life := .exited code .manual none false }
  | mark {p : ManagedProcess} {code : Option ℤ} {why why' : ExitWhy} {inc : Option Incarnation}
      {timer timer' : Bool} (hlife : p.life = .exited code why inc timer)
      (hwhy : why' = why ∨ why' = .exhausted) :
      RecordChange p { p with life := .exited code why' inc timer' }
  | unwatch {p : ManagedProcess} (hinc : p.life.inc = none) :
      RecordChange p { p with watchHandle := none }

/-- Any number of such changes. -/
abbrev Changed : ManagedProcess → ManagedProcess → Prop := Relation.ReflTransGen RecordChange

namespace Actor

/-- **Every record left is one that was there**, changed; none is missing unless all are gone. -/
structure Changes (gone : Prop) (a a' : Actor) : Prop where
  kept : ∀ n, (a.pm.processes.lookup n).isSome = true →
    (a'.pm.processes.lookup n).isSome = true ∨ gone
  records : ∀ n q, a'.pm.processes.lookup n = some q →
    ∃ p, a.pm.processes.lookup n = some p ∧ Changed p q
  watchers : a'.watchers = a.watchers
  idCounter : a'.pm.idCounter = a.pm.idCounter

namespace Changes

variable {gone : Prop} {a a' a'' : Actor} {p : ManagedProcess} {name : String}

theorem of_pm (hpm : a'.pm = a.pm) (hwatchers : a'.watchers = a.watchers) : Changes gone a a' :=
  ⟨fun _ hn => .inl (hpm ▸ hn), fun _ q hq => ⟨q, hpm ▸ hq, .refl⟩, hwatchers, by rw [hpm]⟩

theorem refl (a : Actor) : Changes gone a a := of_pm rfl rfl

theorem trans (h : Changes gone a a') (h' : Changes gone a' a'') : Changes gone a a'' := by
  refine ⟨fun n hn => (h.kept n hn).elim (h'.kept n) .inr, fun n r hr => ?_,
    h'.watchers.trans h.watchers, h'.idCounter.trans h.idCounter⟩
  obtain ⟨q, hq, hqr⟩ := h'.records n r hr
  obtain ⟨p, hp, hpq⟩ := h.records n q hq
  exact ⟨p, hp, hpq.trans hqr⟩

/-- An empty table has no record to account for. -/
theorem of_clear (hgone : gone) (hpm : a'.pm = a.pm.clear) (hwatchers : a'.watchers = a.watchers) :
    Changes gone a a' := by
  refine ⟨fun _ _ => .inr hgone, fun n q hq => ?_, hwatchers, by rw [hpm]; rfl⟩
  rw [hpm] at hq
  exact absurd hq (by simp [ProcessManager.clear])

/-- Changing one record. -/
theorem update (hp : a.pm.processes.lookup name = some p) (f : ManagedProcess → ManagedProcess)
    (hf : ∀ p, (f p).name = p.name) (hchange : RecordChange p (f p))
    (hpm : a'.pm = a.pm.update name f hf) (hwatchers : a'.watchers = a.watchers) :
    Changes gone a a' := by
  refine ⟨fun n hn => .inl ?_, fun n q hq => ?_, hwatchers, by rw [hpm]; rfl⟩
  · rw [hpm]
    change (Table.lookup n (a.pm.processes.update name f hf)).isSome = true
    rw [Table.lookup_update]
    split
    · rwa [Option.isSome_map]
    · exact hn
  rw [hpm] at hq
  rcases Table.lookup_update_cases f hf hp hq with ⟨rfl, rfl⟩ | ⟨-, hq⟩
  · exact ⟨p, hp, .single hchange⟩
  · exact ⟨q, hq, .refl⟩

end Changes

variable {gone : Prop} {a : Actor} {n : String}

/-! ## Small steps -/

theorem refresh_changes (os : Os) (a : Actor) : Changes gone a (a.refresh os) := by
  have hlookup (n : String) : (a.refresh os).pm.processes.lookup n =
      (a.pm.processes.lookup n).map (·.observeExit os) :=
    Table.lookup_map _ (ManagedProcess.observeExit_name os) _ _
  refine ⟨fun n hn => .inl ?_, fun n q hq => ?_, rfl, rfl⟩
  · rwa [hlookup, Option.isSome_map]
  rw [hlookup] at hq
  obtain ⟨p, hp, rfl⟩ := Option.map_eq_some_iff.mp hq
  exact ⟨p, hp, .single (.observe os p)⟩

theorem watchers_publishProxyState (a : Actor) : a.publishProxyState.watchers = a.watchers :=
  congrArg Holdings.watchers (holdings_publishProxyState a)

theorem publish_changes (a : Actor) : Changes gone a a.publishProxyState :=
  .of_pm (pm_publishProxyState a) (watchers_publishProxyState a)

theorem annotate_changes (name msg : String) (a : Actor) : Changes gone a (a.annotate name msg) :=
  .of_pm (pm_annotate ..) (congrArg Holdings.watchers (holdings_annotate name msg a))

theorem startTeardown_changes (name : String) (andThen : AfterStop) (waiter : Option Waiter)
    (a : Actor) : Changes gone a (a.startTeardown name andThen waiter) := by
  rw [startTeardown]
  split
  · exact .refl a
  · rename_i p hfind
    have hp := ProcessManager.lookup_of_find hfind
    dsimp only
    split
    · rename_i hl
      have hbegin := RecordChange.begin (p := p) andThen waiter.toList (by rw [hl]; rfl)
      rw [hl] at hbegin
      exact .update hp _ _ hbegin rfl rfl
    · rename_i hl
      have hbegin := RecordChange.begin (p := p) andThen waiter.toList (by rw [hl]; rfl)
      rw [hl] at hbegin
      exact .update hp _ _ hbegin rfl rfl
    · exact .of_pm rfl rfl

/-! ## The tick -/

theorem tick_changes (os : Os) (a : Actor) : Changes gone a (a.tick os) := by
  refine KeptByVerdicts.tick (P := Changes gone a) ?_ os (refresh_changes os a)
  exact {
    annotate := fun _ _ _ _ h => h.trans (annotate_changes ..)
    publish := fun _ h => h.trans (publish_changes _)
    mark := fun _ _ _ _ _ _ hp hl h => h.trans (.update hp _ _ (.mark hl (.inr rfl)) rfl rfl)
    arm := fun _ _ _ _ _ _ _ hp hl h => h.trans (.update hp _ _ (.mark hl (.inl rfl)) rfl rfl) }

/-! ## The commands that launch nothing -/

theorem handleStop_changes (os : Os) (target : String) (reply : Reply) (a : Actor) :
    Changes gone a (a.handleStop os target reply) := by
  rw [handleStop]
  refine (refresh_changes os a).trans ?_
  split
  · exact .of_pm rfl rfl
  · rename_i p hfind
    have hp := ProcessManager.lookup_of_find hfind
    split
    · rename_i hl
      exact .update hp _ _ (.join _ _ hl) rfl rfl
    · rename_i hl
      exact .update hp _ _ (.unwatch (by rw [hl]; rfl)) rfl rfl
    · exact startTeardown_changes ..
    · exact startTeardown_changes ..

theorem handleRestart_changes (os : Os) (target : String) (reply : Reply) (a : Actor) :
    Changes gone a (a.handleRestart os target reply) := by
  rw [handleRestart]
  split
  · exact .of_pm rfl rfl
  dsimp only
  refine (refresh_changes os a).trans ?_
  split
  · exact .of_pm rfl rfl
  · rename_i p hfind
    split
    · rename_i hl
      exact .update (ProcessManager.lookup_of_find hfind) _ _ (.join _ _ hl) rfl rfl
    · exact startTeardown_changes ..

/-- A record whose restarts are counted anew, and whose teardown then begins. -/
theorem recount_changes {p : ManagedProcess} (hfind : a.pm.find n = some p) (count : ℕ → ℕ)
    (name : String) (andThen : AfterStop) : Changes gone a ((a.update p.name fun p =>
      { p with restartCount := count p.restartCount }).startTeardown name andThen none) := by
  have hrecount : Changes gone a (a.update p.name fun p =>
      { p with restartCount := count p.restartCount }) :=
    .update (ProcessManager.lookup_of_find hfind)
      (fun p => { p with restartCount := count p.restartCount }) (fun _ => rfl) (.recount _ p) rfl rfl
  exact hrecount.trans (startTeardown_changes ..)

theorem handleAutoRestart_changes (name : String) (generation : ℕ) (a : Actor) :
    Changes gone a (a.handleAutoRestart name generation) := by
  rw [handleAutoRestart]
  split
  · exact .refl a
  split
  · exact .refl a
  · rename_i p hfind
    split
    · split
      · exact recount_changes hfind (· + 1) ..
      · exact .refl a
    · exact .refl a

theorem handleWatchRestart_changes (name : String) (generation : ℕ) (a : Actor) :
    Changes gone a (a.handleWatchRestart name generation) := by
  rw [handleWatchRestart]
  split
  · exact .refl a
  split
  · exact .refl a
  · rename_i p hfind
    split
    · split
      · exact .refl a
      · exact .refl a
      · exact recount_changes hfind (fun _ => 0) ..
    · exact .refl a

theorem publish_answer_changes (reply : Reply) (ans : Answer) (a : Actor) :
    Changes gone a (a.publishProxyState.answer reply ans) :=
  (publish_changes a).trans (.of_pm rfl rfl)

theorem handleStatus_changes (os : Os) (reply : Reply) (a : Actor) :
    Changes gone a (a.handleStatus os reply) := by
  rw [handleStatus]
  refine (refresh_changes os a).trans ?_
  split
  · exact (publish_changes _).trans (.of_pm rfl rfl)
  · exact .of_pm rfl rfl

theorem handleEnableProxy_changes (proxyPort : ℕ) (reply : Reply) (a : Actor) :
    Changes gone a (a.handleEnableProxy proxyPort reply) := by
  rw [handleEnableProxy]
  split
  · exact .of_pm rfl rfl
  · have henable : Changes gone a { a with proxyPort := some proxyPort, pm := a.pm.enableProxy } :=
      ⟨fun _ hn => .inl hn, fun _ q hq => ⟨q, hq, .refl⟩, rfl, rfl⟩
    exact henable.trans (publish_answer_changes ..)

/-! ## Stop-all -/

theorem finishStopAll_changes (batch : StopAllBatch) (a : Actor) (hgone : gone) :
    Changes gone a ({ a with stopAll := some batch }).finishStopAll := by
  refine .of_clear hgone (pm_finishStopAll rfl) ?_
  exact foldl_answer_same Actor.watchers id (fun _ => .response allStopped) (fun _ _ _ => rfl)
    (fun _ _ => rfl) _ _

theorem leaveBatch_changes (name : String) (a : Actor)
    (hgone : ∀ B, a.stopAll = some B → B.remaining.erase name = ∅ → gone) :
    Changes gone a (a.leaveBatch name) := by
  rw [leaveBatch]
  split
  · exact .refl a
  · rename_i B hB
    dsimp only
    split
    · exact finishStopAll_changes _ a (hgone B hB ‹_›)
    · exact .of_pm rfl rfl

theorem stopOne_changes (name : String) (st : Actor × Finset String) :
    Changes gone st.1 (stopOne st name).1 := by
  rw [stopOne]
  split
  · exact .refl _
  · rename_i p hfind
    split
    · rename_i hl
      exact .update (ProcessManager.lookup_of_find hfind) _ _ (.join _ _ hl) rfl rfl
    · exact .refl _
    · exact startTeardown_changes ..
    · exact startTeardown_changes ..

theorem foldl_stopOne_changes (names : List String) (st : Actor × Finset String) :
    Changes gone st.1 (names.foldl stopOne st).1 := by
  induction names generalizing st with
  | nil => exact .refl _
  | cons name names ih => exact (stopOne_changes name st).trans (ih (stopOne st name))

/-- The sweep only adds names. -/
theorem subset_foldl_stopOne (names : List String) (st : Actor × Finset String) :
    st.2 ⊆ (names.foldl stopOne st).2 := by
  induction names generalizing st with
  | nil => exact Finset.Subset.refl _
  | cons name names ih =>
    refine Finset.Subset.trans ?_ (ih (stopOne st name))
    rw [stopOne]
    split
    · exact Finset.Subset.refl _
    · split
      · exact Finset.subset_insert _ _
      · exact Finset.Subset.refl _
      · exact Finset.subset_insert _ _
      · exact Finset.subset_insert _ _

/-- **A sweep that waits for nobody** has found nothing to stop. -/
theorem idle_of_foldl_stopOne {names : List String} (st : Actor × Finset String)
    (hbatch : st.1.stopAll = none)
    (hnames : ∀ n ∈ names, ∃ p, st.1.pm.processes.lookup n = some p)
    (hempty : (names.foldl stopOne st).2 = ∅) : ∀ n ∈ names, ∀ p,
      st.1.pm.processes.lookup n = some p → p.life.Settled ∧ p.life.isStopping = false := by
  induction names generalizing st with
  | nil => exact fun n hn => absurd hn List.not_mem_nil
  | cons name names ih =>
    obtain ⟨p, hp⟩ := hnames name List.mem_cons_self
    obtain ⟨q, hlookup, hbatch', hsettled, hset, -⟩ :=
      stopOne_spec (b := ⟨[], [], [], [], 0⟩) (E := fun _ => none) hp hbatch
    have hsub := subset_foldl_stopOne names (stopOne st name)
    rw [List.foldl_cons] at hempty
    rcases hset with ⟨-, hins⟩ | ⟨rfl, hstop, -⟩
    · exact absurd (hempty ▸ hsub (hins ▸ Finset.mem_insert_self name st.2))
        (Finset.notMem_empty name)
    have hsame (m : String) : (stopOne st name).1.pm.processes.lookup m =
        st.1.pm.processes.lookup m := by
      rw [hlookup]
      split
      · rw [‹m = name›, hp]
      · rfl
    intro n hn r hr
    rcases List.mem_cons.mp hn with rfl | hn
    · obtain rfl := Option.some.inj (hp.symm.trans hr)
      exact ⟨hsettled, hstop⟩
    · refine ih _ hbatch' (fun m hm => ?_) hempty n hn r (by rw [hsame, hr])
      rw [hsame]
      exact hnames m (List.mem_cons_of_mem _ hm)

theorem handleStopAll_changes (os : Os) (reply : Reply) (a : Actor) (hgone : a.stopAll = none →
    ((a.refresh os).pm.names.foldl stopOne (a.refresh os, ∅)).2 = ∅ → gone) :
    Changes gone a (a.handleStopAll os reply) := by
  rw [handleStopAll]
  split
  · exact .of_pm rfl rfl
  · rename_i hnone
    dsimp only
    have hstops : Changes gone (a.refresh os) _ :=
      foldl_stopOne_changes (a.refresh os).pm.names (a.refresh os, ∅)
    generalize (a.refresh os).pm.names.foldl stopOne (a.refresh os, ∅) = st at hstops hgone ⊢
    refine ((refresh_changes os a).trans hstops).trans (.trans ?_ (publish_changes _))
    split
    · exact finishStopAll_changes _ st.1 (hgone hnone ‹_›)
    · exact .of_pm rfl rfl

/-- Nor was there anything to stop before the leaders were looked at. -/
theorem idle_of_sweep (os : Os) (hbatch : a.stopAll = none)
    (hempty : ((a.refresh os).pm.names.foldl stopOne (a.refresh os, ∅)).2 = ∅) {p : ManagedProcess}
    (hp : a.pm.processes.lookup n = some p) :
    ∃ code why timer, p.life = .exited code why none timer := by
  have hlookup : (a.refresh os).pm.processes.lookup n = some (p.observeExit os) := by
    refine (Table.lookup_map _ (ManagedProcess.observeExit_name os) _ n).trans ?_
    rw [hp]
    rfl
  have hnames : ∀ m ∈ (a.refresh os).pm.names,
      ∃ p, (a.refresh os).pm.processes.lookup m = some p := fun m hm => Table.mem_keys.mp hm
  obtain ⟨hsettled, hstop⟩ := idle_of_foldl_stopOne (a.refresh os, ∅) hbatch hnames hempty
    n (Table.mem_keys.mpr ⟨_, hlookup⟩) _ hlookup
  rcases p.observeExit_cases os with hsame | ⟨inc, code, -, -, hafter⟩
  · rw [hsame] at hsettled hstop
    rcases hsettled with ⟨_, _, hl⟩ | hexited
    · exact absurd hstop (by simp [hl])
    · exact hexited
  · rw [hafter] at hsettled
    exact absurd hsettled Life.not_settled_zombie

/-- Telling those who wait for a report. -/
theorem told_changes (name : String) (resp : Response) (ws : List Waiter) (a : Actor)
    (hgone : ∀ B, a.stopAll = some B → B.remaining.erase name = ∅ → gone) :
    Changes gone a (a.told name resp ws) := by
  have hanswers : Changes gone a (ws.foldl (answerWaiter name resp) a) :=
    .of_pm (pm_foldl_answerWaiter ..) (foldl_answer_same Actor.watchers Waiter.reply
      (waiterAnswer name resp) (fun _ _ _ => rfl) (answerWaiter_eq name resp) ws a)
  have hstop : (ws.foldl (answerWaiter name resp) a).stopAll = a.stopAll :=
    foldl_answer_same Actor.stopAll Waiter.reply (waiterAnswer name resp) (fun _ _ _ => rfl)
      (answerWaiter_eq name resp) ws a
  exact (hanswers.trans (leaveBatch_changes name _ (hstop ▸ hgone))).trans (publish_changes _)

/-- A report, when the stop was to end in a park. -/
theorem finishTeardown_park_changes {p : ManagedProcess} {leaderExit : Option (Option ℤ)}
    {ws : List Waiter} (os : Os) (code : Option ℤ) (hp : a.pm.processes.lookup p.name = some p)
    (hl : p.life = .stopping leaderExit .park ws)
    (hgone : ∀ B, a.stopAll = some B → B.remaining.erase p.name = ∅ → gone) :
    Changes gone a (a.finishTeardown os p.name p.generation code) := by
  rw [finishTeardown_park os code hp hl]
  refine Changes.trans ?_ (told_changes _ _ _ _ hgone)
  exact .update hp _ _ (.park code (by rw [hl]; rfl)) rfl rfl

/-! ## Launches -/

/-- A watcher, if the record has a config, with the stamp of the record. -/
def Watching (watchers : List WatchHandle) (p : ManagedProcess) : Prop :=
  p.watchConfig.isSome = true →
    p.watchHandle = some ⟨p.name, p.generation⟩ ∧ ⟨p.name, p.generation⟩ ∈ watchers

/-- **A fresh incarnation**, with a new id and generation, and watched if it is to be. -/
structure Launched (a a' : Actor) (p : ManagedProcess) : Prop where
  running : ∃ pid, p.life = .running ⟨a.pm.spawned, pid⟩
  generation : p.generation = a.pm.nextGeneration + 1
  id : p.id = s!"p{a.pm.idCounter}"
  watching : Watching a'.watchers p

theorem watchers_subset_setupWatcher (os : Os) (name : String) (a : Actor) :
    a.watchers ⊆ (a.setupWatcher os name).1.watchers := by
  rw [setupWatcher]
  split
  · exact List.Subset.refl _
  split
  · exact List.Subset.refl _
  · cases os.watch with
    | ok => exact List.subset_cons_self _ _
    | error => exact List.Subset.refl _

theorem idCounter_setupWatcher (os : Os) (name : String) (a : Actor) :
    (a.setupWatcher os name).1.pm.idCounter = a.pm.idCounter := by
  rw [setupWatcher]
  split
  · rfl
  split
  · rfl
  · cases os.watch <;> rfl

/-- Setting up a watcher leaves one, or clears the config. -/
theorem setupWatcher_watching {name : String} {q : ManagedProcess} (os : Os)
    (hq : a.pm.processes.lookup name = some q) :
    (∃ r, (∀ m, (a.setupWatcher os name).1.pm.processes.lookup m =
        if m = name then some r else a.pm.processes.lookup m) ∧
      r.life = q.life ∧ r.generation = q.generation ∧ r.id = q.id ∧
      Watching (a.setupWatcher os name).1.watchers r) ∧
    (∀ h ∈ a.watchers, h ∈ (a.setupWatcher os name).1.watchers) ∧
    (a.setupWatcher os name).1.pm.idCounter = a.pm.idCounter := by
  obtain rfl := Table.key_eq hq
  obtain ⟨handle, config, hlookup, hwatching⟩ := lookup_setupWatcher os hq
  exact ⟨⟨_, hlookup, rfl, rfl, rfl, hwatching⟩, watchers_subset_setupWatcher os _ a,
    idCounter_setupWatcher os _ a⟩

/-- What a respawn that fails leaves of its record. -/
def refusal (count : ℕ) (code : Option ℤ) (p : ManagedProcess) : ManagedProcess :=
  { p with restartCount := count, pid := 0, life := .exited code .spawnFailed none false }

/-- **A respawn** launches its record, or is refused. -/
theorem respawn_cases {name : String} {q : ManagedProcess} (os : Os) (reason : RespawnReason)
    (code : Option ℤ) (hq : a.pm.processes.lookup name = some q) :
    (∀ h ∈ a.watchers, h ∈ (a.respawn os name reason code).1.watchers) ∧
    (a.respawn os name reason code).1.pm.idCounter = a.pm.idCounter + 1 ∧
    match os.spawn with
    | .ok _ => ∃ r, (a.respawn os name reason code).1.pm.processes.lookup name = some r ∧
        Launched a (a.respawn os name reason code).1 r
    | .error _ => ∃ count code', (a.respawn os name reason code).1.pm.processes.lookup name =
        some (refusal count code' q) := by
  have hsettled := lookup_settleCount reason hq
  cases hspawn : os.spawn with
  | ok pid =>
    have hresp : ∃ pm id url, (a.settleCount name reason).pm.respawn os name (reason != .manual) =
        (pm, .runOk name id pid q.port url) ∧ pm.idCounter = a.pm.idCounter + 1 ∧
        ∃ r, pm.processes.lookup name = some r ∧ r.life = .running ⟨a.pm.spawned, pid⟩ ∧
          r.generation = a.pm.nextGeneration + 1 ∧ r.id = s!"p{a.pm.idCounter}" := by
      rw [ProcessManager.respawn, hsettled, hspawn]
      exact ⟨_, _, _, rfl, rfl, _, Table.lookup_update_of _ _ hsettled, rfl, rfl, rfl⟩
    obtain ⟨pm, id, url, hrespawn, hpm, r, hr, hlife, hrgen, hid⟩ := hresp
    rcases respawn_branches code hrespawn with ⟨a', ha', -, heq⟩ | ⟨hno, -⟩
    · have hsame : a'.pm = pm ∧ a'.watchers = a.watchers := by
        rcases ha' with rfl | ⟨msg, -, rfl⟩
        · exact ⟨rfl, rfl⟩
        · exact ⟨pm_annotate .., congrArg Holdings.watchers (holdings_annotate ..)⟩
      obtain ⟨⟨r', hlookup, hlife', hgen', hid', hwatching⟩, hkept, hcounter⟩ :=
        setupWatcher_watching (a := a') os (hsame.1 ▸ hr)
      rw [heq]
      refine ⟨hsame.2 ▸ hkept, by rw [hcounter, hsame.1, hpm], r', ?_, ?_⟩
      · rw [hlookup, if_pos rfl]
      · exact ⟨⟨pid, hlife'.trans hlife⟩, hgen'.trans hrgen, hid'.trans hid, hwatching⟩
    · exact absurd rfl (hno _ _ _ _ _)
  | error message =>
    have hresp : ∃ pm code', (a.settleCount name reason).pm.respawn os name (reason != .manual) =
        (pm, .error .general message) ∧ pm.idCounter = a.pm.idCounter + 1 ∧
        pm.processes.lookup name = some (refusal (reason.settle q.restartCount) code' q) := by
      rw [ProcessManager.respawn, hsettled, hspawn]
      exact ⟨_, _, rfl, rfl, Table.lookup_update_of _ _ hsettled⟩
    obtain ⟨pm, code', hrespawn, hpm, hrefused⟩ := hresp
    rcases respawn_branches code hrespawn with ⟨_, -, ⟨_, _, _, _, _, hok⟩, -⟩ | ⟨-, _, heq⟩
    · exact Response.noConfusion hok
    · rw [heq]
      exact ⟨fun _ hmem => hmem, hpm, _, code', hrefused⟩

/-- A report, when the stop was to end in a respawn. -/
theorem finishTeardown_respawn_cases {p : ManagedProcess} {leaderExit : Option (Option ℤ)}
    {reason : RespawnReason} {ws : List Waiter} (os : Os) (code : Option ℤ)
    (hp : a.pm.processes.lookup p.name = some p)
    (hl : p.life = .stopping leaderExit (.respawn reason) ws) (hbatch : a.stopAll = none) :
    let a' := a.finishTeardown os p.name p.generation code
    (∀ m, m ≠ p.name → a'.pm.processes.lookup m = a.pm.processes.lookup m) ∧
    (∀ h ∈ a.watchers, h ∈ a'.watchers) ∧ a'.pm.idCounter = a.pm.idCounter + 1 ∧
    match os.spawn with
    | .ok _ => ∃ r, a'.pm.processes.lookup p.name = some r ∧ Launched a a' r
    | .error _ => ∃ count code', a'.pm.processes.lookup p.name = some (refusal count code' p) := by
  intro a'
  let parked : Actor := { a with pm := a.pm.setLife p.name (.exited code .manual none false) }
  have hparked : parked.pm.processes.lookup p.name = some _ :=
    lookup_update hp (ManagedProcess.withLife (.exited code .manual none false)) fun _ => rfl
  have hreport : a' = told p.name (parked.respawn os p.name reason code).2 ws
      (parked.respawn os p.name reason code).1 := by
    change a.finishTeardown os p.name p.generation code = _
    rw [finishTeardown, ProcessManager.find_of_lookup hp]
    dsimp only
    rw [if_pos rfl, hl]
    rfl
  have hpm : a'.pm = (parked.respawn os p.name reason code).1.pm := by
    rw [hreport]
    exact pm_told_of_none _ _ _ ((stopAll_respawn ..).trans hbatch)
  have hwatchers : a'.watchers = (parked.respawn os p.name reason code).1.watchers := by
    rw [hreport]
    exact (told_changes _ _ _ _ fun _ _ _ => trivial).watchers
  obtain ⟨hkept, hcounter, hcases⟩ := respawn_cases os reason code hparked
  rw [hpm, hwatchers]
  refine ⟨fun m hm => ?_, hkept, hcounter, ?_⟩
  · exact (lookup_respawn_ne os reason code hparked hm).trans
      (Table.lookup_update_ne hm (ManagedProcess.withLife _) (ManagedProcess.withLife_name _) _)
  · cases hspawn : os.spawn with
    | ok pid =>
      rw [hspawn] at hcases
      obtain ⟨r, hr, hlaunched⟩ := hcases
      exact ⟨r, hr, hlaunched.running, hlaunched.generation, hlaunched.id,
        hwatchers ▸ hlaunched.watching⟩
    | error message =>
      rw [hspawn] at hcases
      exact hcases

/-- What a spawn does: the records that are there stay as they are, and it may launch one. -/
structure Spawns (name : Option String) (a a' : Actor) : Prop where
  kept : ∀ n, (a.pm.processes.lookup n).isSome = true → (a'.pm.processes.lookup n).isSome = true
  records : ∀ n q, a'.pm.processes.lookup n = some q → a.pm.processes.lookup n = some q ∨
    Launched a a' q ∧ a'.pm.idCounter = a.pm.idCounter + 1 ∧ n = name.getD s!"p{a.pm.idCounter}"
  watchers : ∀ h ∈ a.watchers, h ∈ a'.watchers
  idCounter : a'.pm.idCounter = a.pm.idCounter ∨ a'.pm.idCounter = a.pm.idCounter + 1

/-- The record is fitted out as `r`, and the others are as they were in `a`. -/
structure Fitted (a : Actor) (r : ManagedProcess) (a' : Actor) : Prop where
  lookup : ∀ m, a'.pm.processes.lookup m = if m = r.name then some r else a.pm.processes.lookup m
  watching : Watching a'.watchers r
  watchers : a.watchers ⊆ a'.watchers

theorem fitted_outfit {pm : ProcessManager} {p : ManagedProcess} {name : Option String} (os : Os)
    (restart : Option RestartPolicy) (watch : Option WatchConfig) {a : Actor}
    (h : Created name a.pm pm p) : ∃ handle config, Fitted a
      { p with restartPolicy := restart, watchHandle := handle, watchConfig := config }
      (outfit os p.name restart watch { a with pm }) := by
  let attach (p : ManagedProcess) : ManagedProcess :=
    { p with restartPolicy := restart, watchConfig := watch }
  let attached : Actor := Actor.update p.name attach { a with pm } fun _ => rfl
  have hattached : attached.pm.processes.lookup p.name = some (attach p) :=
    lookup_update (a := { a with pm }) h.lookup attach fun _ => rfl
  have hothers (m : String) (hm : m ≠ p.name) :
      attached.pm.processes.lookup m = a.pm.processes.lookup m :=
    (Table.lookup_update_ne hm attach (fun _ => rfl) _).trans (h.lookup_of_ne hm)
  refine outfit_rule (P := fun a' => ∃ handle config, Fitted a
    { p with restartPolicy := restart, watchHandle := handle, watchConfig := config } a')
    (fun hnone => ?_) (fun _ => ?_) ?_
  · refine ⟨p.watchHandle, watch, fun m => ?_, fun hsome => ?_, List.Subset.refl _⟩
    · split
      · rw [‹m = _›]
        exact hattached
      · exact hothers m ‹_›
    · rw [hnone] at hsome
      exact absurd hsome Bool.false_ne_true
  · obtain ⟨handle, config, hlookup, hwatching⟩ := lookup_setupWatcher os hattached
    refine ⟨handle, config, fun m => ?_, hwatching, watchers_subset_setupWatcher os _ attached⟩
    rw [hlookup]
    split
    · rfl
    · exact hothers m ‹_›
  · rintro a' msg - ⟨handle, config, hfitted⟩
    have hnote : Changes False a' _ := annotate_changes p.name msg a'
    refine ⟨handle, config, fun m => ?_, hnote.watchers.symm ▸ hfitted.watching,
      hnote.watchers.symm ▸ hfitted.watchers⟩
    rw [pm_annotate]
    exact hfitted.lookup m

theorem idCounter_outfit (os : Os) (name : String) (restart : Option RestartPolicy)
    (watch : Option WatchConfig) (a : Actor) :
    (a.outfit os name restart watch).pm.idCounter = a.pm.idCounter :=
  outfit_rule (P := fun a' => a'.pm.idCounter = a.pm.idCounter) (fun _ => rfl)
    (fun _ => idCounter_setupWatcher ..) fun _ _ _ h => by rwa [pm_annotate]

theorem handleSpawn_spawns (os : Os) (command : String) (name cwd : Option String)
    (env : Option (List (String × String))) (port : Option ℕ) (restart : Option RestartPolicy)
    (watch : Option WatchConfig) (reply : Reply) (a : Actor) :
    Spawns name a (a.handleSpawn os command name cwd env port restart watch reply) := by
  have hpm (a₁ : Actor) (ans : Answer) : (a₁.publishProxyState.answer reply ans).pm = a₁.pm :=
    pm_publishProxyState a₁
  have hwatchers (a₁ : Actor) (ans : Answer) :
      (a₁.publishProxyState.answer reply ans).watchers = a₁.watchers :=
    watchers_publishProxyState a₁
  rcases handleSpawn_cases os command name cwd env port restart watch reply a with ⟨-, hspawn⟩ |
    ⟨-, ⟨pm, code, message, herror, hspawn⟩ | ⟨pm, p, id, pid, port', url, url', -, h, -, hspawn⟩⟩ <;>
    rw [hspawn]
  · exact ⟨fun _ hn => hn, fun _ _ hq => .inl hq, fun _ hmem => hmem, .inl rfl⟩
  · obtain ⟨hcounter, hprocs, -⟩ := spawnProcess_of_error herror
    dsimp only [respond]
    refine ⟨fun n hn => ?_, fun n q hq => ?_, fun h hmem => ?_, .inr ?_⟩
    · rwa [hpm, hprocs]
    · rw [hpm, hprocs] at hq
      exact .inl hq
    · rwa [hwatchers]
    · rw [hpm, hcounter]
  obtain ⟨handle, config, hfitted⟩ := fitted_outfit os restart watch h
  have hcounter' : ((outfit os p.name restart watch { a with pm }).publishProxyState.respond reply
      (.runOk p.name id pid port' url')).pm.idCounter = a.pm.idCounter + 1 := by
    rw [respond, hpm, idCounter_outfit, h.idCounter]
  refine ⟨fun n hn => ?_, fun n q hq => ?_, (hwatchers _ _).symm ▸ hfitted.watchers,
    .inr hcounter'⟩
  · rw [respond, hpm, hfitted.lookup]
    split
    · rfl
    · exact hn
  · rw [respond, hpm, hfitted.lookup] at hq
    split at hq
    · obtain rfl := Option.some.inj hq
      exact .inr ⟨⟨h.running, h.generation, h.id, (hwatchers _ _).symm ▸ hfitted.watching⟩,
        hcounter', ‹n = p.name›.trans h.name_eq⟩
    · exact .inl hq

end Actor

/-! ## One step -/

variable {w w' : World} {n : String}

/-- The event reports the end of a stop that was to end in a respawn of the record, and the spawn
fails. -/
def Refused (w : World) (e : Event) (n : String) (p : ManagedProcess) : Prop :=
  ∃ os code leaderExit reason ws message, e = .deliver os (.stopFinished n p.generation code) ∧
    w.record n = some p ∧ p.life = .stopping leaderExit (.respawn reason) ws ∧
    os.spawn = .error message

/-- The event empties the table: a stop-all that finds nothing to stop, or the report of the last
record that one waits for. -/
def FinishesStopAll (w : World) : Event → Prop
  | .client _ (.stopAll _) => w.actor.stopAll = none ∧
      ∀ n p, w.record n = some p → ∃ code why timer, p.life = .exited code why none timer
  | .deliver _ (.stopFinished name _ _) => ∃ B, w.actor.stopAll = some B ∧ B.remaining ⊆ {name}
  | _ => False

/-- The event is a `Run` that takes this name, or the next id if it is to have none. -/
def Takes (w : World) (e : Event) (n : String) : Prop :=
  ∃ os command name cwd env port restart watch reply,
    e = .client os (.spawn command name cwd env port restart watch reply) ∧
      n = name.getD s!"p{w.actor.pm.idCounter}"

/-- Where the records after a step come from. -/
structure Descended (w : World) (e : Event) (w' : World) : Prop where
  kept : ∀ n, (w.record n).isSome = true → (w'.record n).isSome = true ∨ FinishesStopAll w e
  records : ∀ n q, w'.record n = some q → (∃ p, w.record n = some p ∧ Changed p q) ∨
    (Actor.Launched w.actor w'.actor q ∧ w'.actor.pm.idCounter = w.actor.pm.idCounter + 1 ∧
      ((w.record n).isSome = true ∨ Takes w e n)) ∨
    ∃ p count code, Refused w e n p ∧ q = Actor.refusal count code p
  watchers : ∀ h ∈ w.actor.watchers, h ∈ w'.actor.watchers
  idCounter : w'.actor.pm.idCounter = w.actor.pm.idCounter ∨
    w'.actor.pm.idCounter = w.actor.pm.idCounter + 1

theorem Actor.Changes.descended {e : Event}
    (h : Actor.Changes (FinishesStopAll w e) w.actor w'.actor) : Descended w e w' where
  kept := h.kept
  records n q hq := .inl (h.records n q hq)
  watchers _ hmem := h.watchers.symm ▸ hmem
  idCounter := .inl h.idCounter

theorem descended_of_same {e : Event} (hpm : w'.actor.pm = w.actor.pm)
    (hwatchers : w'.actor.watchers = w.actor.watchers) : Descended w e w' :=
  (Actor.Changes.of_pm hpm hwatchers).descended

/-- A report finds the stopping record it is about. -/
theorem due_of_inFlight {name : String} {generation : ℕ} {code : Option ℤ}
    (hs : Sound w.books w.actor.holdings)
    (hmem : .stopFinished name generation code ∈ w.actor.inFlight) :
    ∃ p, w.record name = some p ∧ p.name = name ∧ p.generation = generation ∧
      p.life.isStopping = true := by
  obtain ⟨p, hp, hgen, hstop⟩ := (hs.deliver hmem).due (List.mem_cons_self (a := (name, generation)))
  exact ⟨p, hp, Table.key_eq hp, hgen, hstop⟩

/-- A report that ends in a launch, or in a refusal. -/
theorem descended_respawn {os : Os} {code : Option ℤ} {p : ManagedProcess}
    {leaderExit : Option (Option ℤ)} {reason : RespawnReason} {ws : List Waiter}
    (hs : Sound w.books w.actor.holdings) (hp : w.record p.name = some p)
    (hl : p.life = .stopping leaderExit (.respawn reason) ws) :
    Descended w (.deliver os (.stopFinished p.name p.generation code))
      (w.deliver os (.stopFinished p.name p.generation code)) := by
  have hbatch : w.actor.stopAll = none := hs.no_batch hp (hl ▸ Life.not_settled_respawn)
  obtain ⟨hothers, hkept, hcounter, hcases⟩ := Actor.finishTeardown_respawn_cases
    (a := (w.take (.stopFinished p.name p.generation code)).actor) os code hp hl hbatch
  refine ⟨fun n hn => .inl ?_, fun n q hq => ?_, hkept, .inr hcounter⟩
  · by_cases hname : n = p.name
    · subst hname
      cases hspawn : os.spawn with
      | ok pid =>
        rw [hspawn] at hcases
        obtain ⟨r, hr, -⟩ := hcases
        exact Option.isSome_of_eq_some hr
      | error message =>
        rw [hspawn] at hcases
        obtain ⟨count, code', hr⟩ := hcases
        exact Option.isSome_of_eq_some hr
    · exact (congrArg Option.isSome (hothers n hname)).trans hn
  · by_cases hname : n = p.name
    · subst hname
      cases hspawn : os.spawn with
      | ok pid =>
        rw [hspawn] at hcases
        obtain ⟨r, hr, hlaunched⟩ := hcases
        obtain rfl := Option.some.inj (hr.symm.trans hq)
        exact .inr (.inl ⟨⟨hlaunched.running, hlaunched.generation, hlaunched.id,
          hlaunched.watching⟩, hcounter, .inl (Option.isSome_of_eq_some hp)⟩)
      | error message =>
        rw [hspawn] at hcases
        obtain ⟨count, code', hr⟩ := hcases
        obtain rfl := Option.some.inj (hr.symm.trans hq)
        exact .inr (.inr ⟨p, count, code', ⟨os, code, leaderExit, reason, ws, message, rfl, hp, hl,
          hspawn⟩, rfl⟩)
    · exact .inl ⟨q, (hothers n hname).symm.trans hq, .refl⟩

/-- **Every record a step leaves** was changed, launched or refused. -/
theorem descended_step {e : Event} (hs : Sound w.books w.actor.holdings) (hstep : Step w e w') :
    Descended w e w' := by
  cases hstep with
  | exit | fileChanged | teardownDone => exact descended_of_same rfl rfl
  | tick => exact (Actor.tick_changes _ _).descended
  | @client os cmd hos hreply =>
    cases cmd with
    | autoRestart | watchRestart | stopFinished => exact absurd hreply (by simp [PmCommand.reply])
    | stop => exact (Actor.handleStop_changes ..).descended
    | restart => exact (Actor.handleRestart_changes ..).descended
    | spawn command name cwd env port restart watch reply =>
      have hspawns :=
        w.actor.handleSpawn_spawns os command name cwd env port restart watch reply
      refine ⟨fun n hn => .inl (hspawns.kept n hn), fun n q hq => ?_, hspawns.watchers,
        hspawns.idCounter⟩
      refine (hspawns.records n q hq).imp (fun hq => ⟨q, hq, .refl⟩) fun h => .inl ?_
      exact ⟨h.1, h.2.1, .inr ⟨os, command, name, cwd, env, port, restart, watch, reply, rfl, h.2.2⟩⟩
    | stopAll reply =>
      refine Actor.Changes.descended (Actor.handleStopAll_changes os reply w.actor
        fun hnone hempty => ⟨hnone, fun n p hp => ?_⟩)
      exact Actor.idle_of_sweep os hnone hempty hp
    | status reply | statusSnapshot reply => exact (Actor.handleStatus_changes ..).descended
    | isProcessExited target reply =>
      exact ((Actor.refresh_changes os _).trans (Actor.publish_answer_changes ..)).descended
    | enableProxy => exact (Actor.handleEnableProxy_changes ..).descended
    | hasProcess | sessionName | subscribe => exact descended_of_same rfl rfl
  | @deliver os cmd hos hmem =>
    obtain ⟨n, g, hstamp, -⟩ := hs.stamps.inFlight cmd hmem
    have htake (gone : Prop) : Actor.Changes gone w.actor (w.take cmd).actor := .of_pm rfl rfl
    cases cmd with
    | autoRestart => exact ((htake _).trans (Actor.handleAutoRestart_changes ..)).descended
    | watchRestart => exact ((htake _).trans (Actor.handleWatchRestart_changes ..)).descended
    | stopFinished name generation code =>
      obtain ⟨p, hp, rfl, rfl, hstop⟩ := due_of_inFlight hs hmem
      cases hl : p.life with
      | running | exited => exact absurd hstop (by simp [hl])
      | stopping leaderExit andThen ws =>
        cases andThen with
        | park =>
          refine ((htake _).trans (Actor.finishTeardown_park_changes os code hp hl ?_)).descended
          refine fun B hB hempty => ⟨B, hB, ?_⟩
          rcases (Finset.erase_eq_empty_iff ..).mp hempty with h | h <;> simp [h]
        | respawn reason => exact descended_respawn hs hp hl
    | _ => exact absurd hstamp (by simp [PmCommand.stamp])

end AgentProcs
