import AgentProcs.Machinery.Fairness
import AgentProcs.Supervision.StopAll
import AgentProcs.Supervision.WindingUp

/-!
# Supervision/UnderWay — what is under way stays so until it ends

    teardown ─────────▸ its end        command in flight ─────────▸ its delivery
    waiting in the batch ─────────▸ told that all are stopped

No handler drops a teardown, a command, an answer or a client that waits: each of them is there until
the one event that is about it.
-/

namespace AgentProcs

/-! ## What a handler drops: nothing -/

/-- **What is under way stays so**, and answers are not taken back. -/
structure Keeps (a a' : Actor) : Prop where
  teardowns : ∀ t ∈ a.teardowns, t ∈ a'.teardowns
  inFlight : ∀ cmd ∈ a.inFlight, cmd ∈ a'.inFlight
  answers : ∀ x ∈ a.answers, x ∈ a'.answers

/-- And who waits in the batch goes on waiting, for no more than before, or is told. -/
structure Carries (a a' : Actor) : Prop extends Keeps a a' where
  batch : ∀ B, a.stopAll = some B → ∀ r ∈ B.replies,
    (∃ B', a'.stopAll = some B' ∧ r ∈ B'.replies ∧ B'.remaining ⊆ B.remaining) ∨
      (r, .response allStopped) ∈ a'.answers

namespace Keeps

variable {a a' a'' : Actor}

/-- The lists are as they were. -/
theorem of_eq (hteardowns : a'.teardowns = a.teardowns) (hinFlight : a'.inFlight = a.inFlight)
    (hanswers : a'.answers = a.answers) : Keeps a a' :=
  ⟨fun _ ht => hteardowns ▸ ht, fun _ hcmd => hinFlight ▸ hcmd, fun _ hx => hanswers ▸ hx⟩

theorem of_holdings (h : a'.holdings = a.holdings) : Keeps a a' :=
  of_eq (congrArg Holdings.teardowns h) (congrArg Holdings.inFlight h) (congrArg Holdings.answers h)

theorem trans (h : Keeps a a') (h' : Keeps a' a'') : Keeps a a'' :=
  ⟨fun t ht => h'.teardowns t (h.teardowns t ht), fun cmd hcmd => h'.inFlight cmd (h.inFlight cmd hcmd),
    fun x hx => h'.answers x (h.answers x hx)⟩

theorem answer (reply : Reply) (ans : Answer) (a : Actor) : Keeps a (a.answer reply ans) :=
  ⟨fun _ => id, fun _ => id, fun _ => List.mem_cons_of_mem _⟩

theorem foldl_answer {α : Type} {f : Actor → α → Actor} (reply : α → Reply) (ans : α → Answer)
    (hf : ∀ a x, f a x = a.answer (reply x) (ans x)) (xs : List α) (a : Actor) :
    Keeps a (xs.foldl f a) :=
  List.foldlRecOn xs f (.of_eq rfl rfl rfl) fun a' h x _ => h.trans (hf a' x ▸ answer ..)

theorem finishStopAll (a : Actor) : Keeps a a.finishStopAll := by
  rw [Actor.finishStopAll]
  split
  · exact .of_eq rfl rfl rfl
  · refine Keeps.trans ?_ (foldl_answer id (fun _ => .response allStopped) (fun _ _ => rfl) _ _)
    exact .of_eq rfl rfl rfl

end Keeps

namespace Carries

variable {a a' a'' : Actor}

theorem of_keeps (h : Keeps a a') (hbatch : a'.stopAll = a.stopAll) : Carries a a' :=
  ⟨h, fun B hB _ hr => .inl ⟨B, hbatch.trans hB, hr, Finset.Subset.refl _⟩⟩

theorem of_holdings (h : a'.holdings = a.holdings) : Carries a a' :=
  of_keeps (.of_holdings h) (congrArg Holdings.stopAll h)

theorem refl (a : Actor) : Carries a a := .of_holdings rfl

theorem trans (h : Carries a a') (h' : Carries a' a'') : Carries a a'' := by
  refine ⟨h.toKeeps.trans h'.toKeeps, fun B hB r hr => ?_⟩
  rcases h.batch B hB r hr with ⟨B', hB', hr', hsub⟩ | htold
  · rcases h'.batch B' hB' r hr' with ⟨B'', hB'', hr'', hsub'⟩ | htold
    · exact .inl ⟨B'', hB'', hr'', Finset.Subset.trans hsub' hsub⟩
    · exact .inr htold
  · exact .inr (h'.answers _ htold)

theorem publish (a : Actor) : Carries a a.publishProxyState :=
  .of_holdings (Actor.holdings_publishProxyState a)

theorem annotate (name msg : String) (a : Actor) : Carries a (a.annotate name msg) :=
  .of_holdings (Actor.holdings_annotate name msg a)

theorem answer (reply : Reply) (ans : Answer) (a : Actor) : Carries a (a.answer reply ans) :=
  .of_keeps (.answer reply ans a) rfl

end Carries

namespace Actor

variable {a : Actor}

/-! ## Small steps -/

theorem startTeardown_carries (name : String) (andThen : AfterStop) (waiter : Option Waiter)
    (a : Actor) : Carries a (a.startTeardown name andThen waiter) := by
  rw [startTeardown]
  split
  · exact .refl a
  dsimp only
  split
  · exact .of_keeps ⟨fun _ => List.mem_cons_of_mem _, fun _ => id, fun _ => id⟩ rfl
  · exact .of_keeps ⟨fun _ => List.mem_cons_of_mem _, fun _ => id, fun _ => id⟩ rfl
  · exact .of_keeps (.of_eq rfl rfl rfl) rfl

theorem setupWatcher_carries (os : Os) (name : String) (a : Actor) :
    Carries a (a.setupWatcher os name).1 := by
  rw [setupWatcher]
  split
  · exact .refl a
  split
  · exact .refl a
  · cases os.watch with
    | ok => exact .of_keeps (.of_eq rfl rfl rfl) rfl
    | error => exact .of_keeps (.of_eq rfl rfl rfl) rfl

theorem respawn_carries (os : Os) (name : String) (reason : RespawnReason) (code : Option ℤ)
    (a : Actor) : Carries a (a.respawn os name reason code).1 := by
  rcases h : (a.settleCount name reason).pm.respawn os name (reason != .manual) with ⟨pm, resp⟩
  refine respawn_rule (P := Carries a) code h (fun _ => ?_)
    (fun a' msg _ h => h.trans (.annotate name msg a'))
    fun a' _ h => h.trans (setupWatcher_carries os name a')
  exact .of_keeps (.of_eq rfl rfl rfl) rfl

/-- Whoever waits in a batch that is finished is told. -/
theorem finishStopAll_carries {B : StopAllBatch} (S : Finset String) (hB : a.stopAll = some B) :
    Carries a (finishStopAll { a with stopAll := some ⟨S, B.replies⟩ }) := by
  have hopen : Keeps a { a with stopAll := some ⟨S, B.replies⟩ } := .of_eq rfl rfl rfl
  have hfinished : Finished a (finishStopAll { a with stopAll := some ⟨S, B.replies⟩ }) := by
    refine finishStopAll_finished fun B' hB' => ?_
    obtain rfl := Option.some.inj (hB.symm.trans hB')
    exact fun _ => id
  exact ⟨hopen.trans (.finishStopAll _), fun B' hB' r hr => .inr (hfinished.told B' hB' r hr)⟩

theorem leaveBatch_carries (name : String) (a : Actor) : Carries a (a.leaveBatch name) := by
  rw [leaveBatch]
  split
  · exact .refl a
  · rename_i B hB
    dsimp only
    split
    · exact finishStopAll_carries _ hB
    · refine ⟨.of_eq rfl rfl rfl, fun B' hB' r hr => .inl ?_⟩
      obtain rfl := Option.some.inj (hB.symm.trans hB')
      exact ⟨_, rfl, hr, Finset.erase_subset ..⟩

/-! ## Handlers -/

theorem told_carries (name : String) (resp : Response) (ws : List Waiter) (a : Actor) :
    Carries a (a.told name resp ws) := by
  have hanswered : Carries a (ws.foldl (answerWaiter name resp) a) :=
    .of_keeps (.foldl_answer Waiter.reply (waiterAnswer name resp) (answerWaiter_eq name resp) ws a)
      (foldl_answer_same Actor.stopAll Waiter.reply (waiterAnswer name resp) (fun _ _ _ => rfl)
        (answerWaiter_eq name resp) ws a)
  exact (hanswered.trans (leaveBatch_carries ..)).trans (.publish _)

theorem finishTeardown_carries (os : Os) (name : String) (generation : ℕ) (code : Option ℤ)
    (a : Actor) : Carries a (a.finishTeardown os name generation code) := by
  rw [finishTeardown]
  split
  · exact .refl a
  split
  · have hset (pm : ProcessManager) : Carries a { a with pm } := .of_keeps (.of_eq rfl rfl rfl) rfl
    dsimp only
    split
    · rename_i andThen ws _
      cases andThen with
      | park => exact (hset _).trans (told_carries name _ ws _)
      | respawn reason =>
        exact ((hset _).trans (respawn_carries ..)).trans (told_carries name _ ws _)
    · exact .of_keeps (.of_eq rfl rfl rfl) rfl
  · exact .refl a

theorem stopOne_carries (st : Actor × Finset String) (name : String) :
    Carries st.1 (stopOne st name).1 := by
  rw [stopOne]
  split
  · exact .refl _
  · split
    · exact .of_keeps (.of_eq rfl rfl rfl) rfl
    · exact .refl _
    · exact startTeardown_carries ..
    · exact startTeardown_carries ..

theorem handleStopAll_carries (os : Os) (reply : Reply) (a : Actor) :
    Carries a (a.handleStopAll os reply) := by
  rw [handleStopAll]
  cases hB : a.stopAll with
  | some B =>
    refine ⟨.of_eq rfl rfl rfl, fun B' hB' r hr => .inl ?_⟩
    obtain rfl := Option.some.inj (hB.symm.trans hB')
    exact ⟨_, rfl, List.mem_append_left _ hr, Finset.Subset.refl _⟩
  | none =>
    -- nobody waits in a batch yet
    refine ⟨?_, fun B hB' => absurd (hB.symm.trans hB') (by simp)⟩
    have hsweep : Carries a ((a.refresh os).pm.names.foldl stopOne (a.refresh os, ∅)).1 := by
      refine List.foldlRecOn (motive := fun st => Carries a st.1) _ stopOne ?_
        fun st h name _ => h.trans (stopOne_carries st name)
      exact .of_keeps (.of_eq rfl rfl rfl) rfl
    have hopen (B : StopAllBatch) : Keeps a
        { ((a.refresh os).pm.names.foldl stopOne (a.refresh os, ∅)).1 with stopAll := some B } :=
      hsweep.toKeeps.trans (.of_eq rfl rfl rfl)
    dsimp only
    split
    · exact ((hopen _).trans (.finishStopAll _)).trans (Carries.publish _).toKeeps
    · exact (hopen _).trans (Carries.publish _).toKeeps

theorem handleStop_carries (os : Os) (target : String) (reply : Reply) (a : Actor) :
    Carries a (a.handleStop os target reply) := by
  have hlooked : Carries a (a.refresh os) := .of_keeps (.of_eq rfl rfl rfl) rfl
  rw [handleStop]
  refine hlooked.trans ?_
  split
  · exact .answer ..
  · split
    · exact .of_keeps (.of_eq rfl rfl rfl) rfl
    · exact .of_keeps ⟨fun _ => id, fun _ => id, fun _ => List.mem_cons_of_mem _⟩ rfl
    · exact startTeardown_carries ..
    · exact startTeardown_carries ..

theorem handleRestart_carries (os : Os) (target : String) (reply : Reply) (a : Actor) :
    Carries a (a.handleRestart os target reply) := by
  have hlooked : Carries a (a.refresh os) := .of_keeps (.of_eq rfl rfl rfl) rfl
  rw [handleRestart]
  split
  · exact .answer ..
  refine hlooked.trans ?_
  dsimp only
  split
  · exact .answer ..
  · split
    · exact .of_keeps (.of_eq rfl rfl rfl) rfl
    · exact startTeardown_carries ..

theorem handleSpawn_carries (os : Os) (command : String) (name cwd : Option String)
    (env : Option (List (String × String))) (port : Option ℕ) (restart : Option RestartPolicy)
    (watch : Option WatchConfig) (reply : Reply) (a : Actor) :
    Carries a (a.handleSpawn os command name cwd env port restart watch reply) := by
  have htable (pm : ProcessManager) : Carries a { a with pm } := .of_keeps (.of_eq rfl rfl rfl) rfl
  rcases handleSpawn_cases os command name cwd env port restart watch reply a with ⟨-, h⟩ |
    ⟨-, ⟨pm, code, message, -, h⟩ | ⟨pm, p, id, pid, port', url, url', -, -, -, h⟩⟩
  · exact h ▸ .answer ..
  · exact h ▸ ((htable pm).trans (.publish _)).trans (.answer ..)
  · have hset : Carries a (({ a with pm } : Actor).update p.name fun p =>
        { p with restartPolicy := restart, watchConfig := watch }) :=
      .of_keeps (.of_eq rfl rfl rfl) rfl
    have houtfit : Carries a (outfit os p.name restart watch { a with pm }) :=
      outfit_rule (fun _ => hset) (fun _ => hset.trans (setupWatcher_carries ..))
        fun a' msg _ h => h.trans (.annotate ..)
    exact h ▸ (houtfit.trans (.publish _)).trans (.answer ..)

theorem handleStatus_carries (os : Os) (reply : Reply) (a : Actor) :
    Carries a (a.handleStatus os reply) := by
  have hlooked : Carries a (a.refresh os) := .of_keeps (.of_eq rfl rfl rfl) rfl
  rw [handleStatus]
  refine hlooked.trans ?_
  split
  · exact (Carries.publish _).trans (.answer ..)
  · exact .answer ..

theorem handleAutoRestart_carries (name : String) (generation : ℕ) (a : Actor) :
    Carries a (a.handleAutoRestart name generation) := by
  have hcharged (p : ManagedProcess) : Carries a (a.update p.name fun p =>
      { p with restartCount := p.restartCount + 1 }) := .of_keeps (.of_eq rfl rfl rfl) rfl
  rw [handleAutoRestart]
  split
  · exact .refl a
  split
  · exact .refl a
  split
  · split
    · exact (hcharged _).trans (startTeardown_carries ..)
    · exact .refl a
  · exact .refl a

theorem handleWatchRestart_carries (name : String) (generation : ℕ) (a : Actor) :
    Carries a (a.handleWatchRestart name generation) := by
  have hcleared (p : ManagedProcess) : Carries a (a.update p.name fun p =>
      { p with restartCount := 0 }) := .of_keeps (.of_eq rfl rfl rfl) rfl
  rw [handleWatchRestart]
  split
  · exact .refl a
  split
  · exact .refl a
  split
  · split
    · exact .refl a
    · exact .refl a
    · exact (hcleared _).trans (startTeardown_carries ..)
  · exact .refl a

/-- **A command drops nothing.** -/
theorem handleCommand_carries (os : Os) (cmd : PmCommand) (a : Actor) :
    Carries a (a.handleCommand os cmd) := by
  cases cmd with
  | spawn => exact handleSpawn_carries ..
  | stop => exact handleStop_carries ..
  | stopAll => exact handleStopAll_carries ..
  | restart => exact handleRestart_carries ..
  | status | statusSnapshot => exact handleStatus_carries ..
  | hasProcess | sessionName | subscribe => exact .answer ..
  | isProcessExited =>
    have hlooked (pm : ProcessManager) : Carries a { a with pm } := .of_keeps (.of_eq rfl rfl rfl) rfl
    exact ((hlooked _).trans (.publish _)).trans (.answer ..)
  | enableProxy proxyPort reply =>
    change Carries a (a.handleEnableProxy proxyPort reply)
    rw [handleEnableProxy]
    split
    · exact .answer ..
    · have hset : Carries a { a with proxyPort := some proxyPort, pm := a.pm.enableProxy } :=
        .of_keeps (.of_eq rfl rfl rfl) rfl
      exact (hset.trans (.publish _)).trans (.answer ..)
  | autoRestart => exact handleAutoRestart_carries ..
  | watchRestart => exact handleWatchRestart_carries ..
  | stopFinished => exact finishTeardown_carries ..

theorem tick_carries (os : Os) (a : Actor) : Carries a (a.tick os) := by
  refine KeptByVerdicts.tick (P := Carries a) ?_ os (.of_keeps (.of_eq rfl rfl rfl) rfl)
  exact {
    annotate := fun a' name msg _ h => h.trans (.annotate name msg a')
    publish := fun a' h => h.trans (.publish a')
    mark := fun _ _ _ _ _ _ _ _ h => h.trans (.of_keeps (.of_eq rfl rfl rfl) rfl)
    arm := fun _ _ _ _ _ _ _ _ _ h => h.trans
      (.of_keeps ⟨fun _ => id, fun _ => List.mem_cons_of_mem _, fun _ => id⟩ rfl) }

end Actor

/-! ## A step -/

/-- This teardown ends. -/
def Event.Ends (t : Teardown) : Event → Prop
  | .teardownDone t' _ => t' = t
  | _ => False

/-- This command arrives. -/
def Event.Delivers (cmd : PmCommand) : Event → Prop
  | .deliver _ cmd' => cmd' = cmd
  | _ => False

variable {w w' : World} {e : Event}

/-- **A teardown** is there until it ends. -/
theorem teardown_step {t : Teardown} (hstep : Step w e w') (ht : t ∈ w.actor.teardowns)
    (hno : ¬e.Ends t) : t ∈ w'.actor.teardowns := by
  cases hstep with
  | exit | fileChanged => exact ht
  | client => exact (Actor.handleCommand_carries ..).teardowns t ht
  | @deliver os cmd => exact (Actor.handleCommand_carries os cmd (w.take cmd).actor).teardowns t ht
  | tick => exact (Actor.tick_carries ..).teardowns t ht
  | teardownDone => exact (List.mem_erase_of_ne fun he => hno he.symm).mpr ht

/-- Its end leaves its report. -/
theorem report_of_ends {t : Teardown} (hstep : Step w e w') (hends : e.Ends t) :
    ∃ code, .stopFinished t.name t.generation code ∈ w'.actor.inFlight := by
  cases hstep with
  | @teardownDone t' code =>
    obtain rfl : t' = t := hends
    exact ⟨code, List.mem_cons_self⟩
  | _ => exact hends.elim

/-- **A command** is in flight until it is delivered. -/
theorem inFlight_step {cmd : PmCommand} (hstep : Step w e w') (hmem : cmd ∈ w.actor.inFlight)
    (hno : ¬e.Delivers cmd) : cmd ∈ w'.actor.inFlight := by
  cases hstep with
  | exit => exact hmem
  | fileChanged | teardownDone => exact List.mem_cons_of_mem _ hmem
  | client => exact (Actor.handleCommand_carries ..).inFlight cmd hmem
  | @deliver os cmd' =>
    exact (Actor.handleCommand_carries os cmd' (w.take cmd').actor).inFlight cmd
      ((List.mem_erase_of_ne fun he => hno he.symm).mpr hmem)
  | tick => exact (Actor.tick_carries ..).inFlight cmd hmem

/-- **Who waits in the batch** goes on waiting, or is told. -/
theorem batch_step {B : StopAllBatch} {r : Reply} (hstep : Step w e w')
    (hB : w.actor.stopAll = some B) (hr : r ∈ B.replies) :
    (∃ B', w'.actor.stopAll = some B' ∧ r ∈ B'.replies ∧ B'.remaining ⊆ B.remaining) ∨
      (r, .response allStopped) ∈ w'.actor.answers := by
  cases hstep with
  | exit | fileChanged | teardownDone => exact .inl ⟨B, hB, hr, Finset.Subset.refl _⟩
  | client => exact (Actor.handleCommand_carries ..).batch B hB r hr
  | @deliver os cmd =>
    exact (Actor.handleCommand_carries os cmd (w.take cmd).actor).batch B hB r hr
  | tick => exact (Actor.tick_carries ..).batch B hB r hr

end AgentProcs
