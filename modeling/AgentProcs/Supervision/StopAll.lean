import AgentProcs.Supervision.Answers

/-!
# Supervision/StopAll — while a stop-all runs, nothing starts; when it ends, nothing is left

    StopAll ──▸ { stopping, park } ⋯ one report each ⋯ ──▸ clear, answer everyone

The batch lists the stopping records, every continuation is a park, and every other record holds
nothing; so the last report leaves an empty table and no teardown under way.
-/

namespace AgentProcs

/-! ## Nothing starts -/

/-- Incarnations are only spawned by the moves that launch. -/
theorem Moves.spawned_eq {E : Incarnation → Option (Option ℤ)} {R : String → RespawnReason → Prop} {L : String → Launch → Prop}
    {d d' : Desk} (h : Moves (Move.Within E R L) d d') (hL : ∀ n k, ¬ L n k) :
    d'.holdings.spawned = d.holdings.spawned := by
  refine h.invariant (P := fun d' => d'.holdings.spawned = d.holdings.spawned) rfl ?_
  intro d₁ m d₂ hd hmove hm
  cases hmove with
  | relaunch => exact absurd hm (hL _ _)
  | create => exact absurd hm (hL _ _)
  | _ => exact hd

/-! ## Who says that everything is stopped -/

/-- Nobody is newly told that all processes are stopped. -/
def Silent (a a' : Actor) : Prop :=
  ∀ r, (r, Answer.response allStopped) ∈ a'.answers → (r, Answer.response allStopped) ∈ a.answers

namespace Silent

variable {a a' a'' : Actor}

theorem of_eq (h : a'.answers = a.answers) : Silent a a' := fun _ hr => h ▸ hr

theorem trans (h : Silent a a') (h' : Silent a' a'') : Silent a a'' := fun r hr => h r (h' r hr)

theorem answer {ans : Answer} (h : Silent a a') (hans : ans ≠ .response allStopped)
    (reply : Reply) : Silent a (a'.answer reply ans) := by
  intro r hr
  rcases List.mem_cons.mp hr with heq | hold
  · exact absurd (Prod.mk.inj heq).2.symm hans
  · exact h r hold

theorem publish (a : Actor) : Silent a a.publishProxyState :=
  of_eq (congrArg Holdings.answers (Actor.holdings_publishProxyState a))

end Silent

theorem Answer.Plain.ne_allStopped {ans : Answer} (h : ans.Plain) : ans ≠ .response allStopped := by
  rintro rfl
  exact h rfl

/-- Whoever is told something is told something else. -/
theorem Tells.silent {ok : Answer → Prop} {a a' : Actor} (h : Tells ok a a')
    (hok : ∀ ans, ok ans → ans ≠ .response allStopped) : Silent a a' :=
  fun _ hr => (h.answers _ hr).resolve_right fun hans => hok _ hans rfl

theorem Tells.silent_of_plain {a a' : Actor} (h : Tells Answer.Plain a a') : Silent a a' :=
  h.silent fun _ => Answer.Plain.ne_allStopped

namespace Actor

variable {a : Actor}

theorem handleSpawn_silent (os : Os) (command : String) (name cwd : Option String)
    (env : Option (List (String × String))) (port : Option ℕ) (restart : Option RestartPolicy)
    (watch : Option WatchConfig) (reply : Reply) :
    Silent a (a.handleSpawn os command name cwd env port restart watch reply) := by
  rcases handleSpawn_cases os command name cwd env port restart watch reply a with ⟨-, hspawn⟩ |
    ⟨-, ⟨pm, code, message, -, hspawn⟩ | ⟨pm, p, id, pid, port', url, url', -, -, -, hspawn⟩⟩
  · exact hspawn ▸ (Silent.of_eq rfl).answer (plain_error _ _).ne_allStopped reply
  · exact hspawn ▸ (Silent.publish { a with pm }).answer (plain_error _ _).ne_allStopped reply
  · have htable : Silent a { a with pm } := .of_eq rfl
    have houtfit : Speaks Answer.Plain _ (outfit os p.name restart watch { a with pm }) := .outfit ..
    have hfitted := htable.trans (houtfit.silent_of_plain.trans (.publish _))
    exact hspawn ▸ hfitted.answer (by simp [allStopped]) reply

theorem handleEnableProxy_silent (proxyPort : ℕ) (reply : Reply) :
    Silent a (a.handleEnableProxy proxyPort reply) := by
  rw [handleEnableProxy]
  split
  · exact (Silent.of_eq rfl).answer (by simp) reply
  · exact ((Silent.of_eq rfl).trans (Silent.publish _)).answer (by simp) reply

/-- What a restart is told is not that all processes are stopped. -/
theorem respawn_ne_allStopped (os : Os) (name : String) (reason : RespawnReason)
    (code : Option ℤ) (a : Actor) : (a.respawn os name reason code).2 ≠ allStopped := by
  have hresp (pm : ProcessManager) (rotate : Bool) : (pm.respawn os name rotate).2 ≠ allStopped := by
    rw [ProcessManager.respawn]
    split
    · simp [allStopped]
    · dsimp only
      split <;> simp [allStopped]
  rw [snd_respawn]
  exact hresp _ _

end Actor

/-- The batch of `a` is over in `a'`: the table is empty, and everyone in it has been told. -/
structure Finished (a a' : Actor) : Prop where
  ended : a'.stopAll = none
  empty : a'.pm.processes = .empty
  told : ∀ B, a.stopAll = some B → ∀ r ∈ B.replies, (r, .response allStopped) ∈ a'.answers

namespace Actor

variable {a : Actor}

theorem finishStopAll_finished {S : Finset String} {replies : List Reply} {a₀ : Actor}
    (htold : ∀ B, a₀.stopAll = some B → B.replies ⊆ replies) :
    Finished a₀ (finishStopAll { a with stopAll := some ⟨S, replies⟩ }) := by
  have htell : ∀ (rs : List Reply) (a : Actor), ∀ r, r ∈ rs ∨ (r, .response allStopped) ∈ a.answers →
      (r, .response allStopped) ∈ (rs.foldl (fun a reply => a.respond reply allStopped) a).answers := by
    intro rs
    induction rs with
    | nil => exact fun a r h => h.resolve_left List.not_mem_nil
    | cons s rs ih =>
      intro a r h
      refine ih _ r ?_
      rcases h with h | h
      · rcases List.mem_cons.mp h with rfl | h
        · exact .inr List.mem_cons_self
        · exact .inl h
      · exact .inr (List.mem_cons_of_mem _ h)
  exact ⟨foldl_answer_same Actor.stopAll id (fun _ => .response allStopped) (fun _ _ _ => rfl)
      (fun _ _ => rfl) replies _,
    congrArg ProcessManager.processes (foldl_answer_same Actor.pm id
      (fun _ => .response allStopped) (fun _ _ _ => rfl) (fun _ _ => rfl) replies _),
    fun B hB r hr => htell replies _ r (.inl (htold B hB hr))⟩

theorem leaveBatch_cases (name : String) (a : Actor) :
    Silent a (a.leaveBatch name) ∨ Finished a (a.leaveBatch name) := by
  rw [leaveBatch]
  split
  · exact .inl (Silent.of_eq rfl)
  · rename_i B hB
    dsimp only
    split
    · refine .inr (finishStopAll_finished fun B' hB' => ?_)
      obtain rfl := Option.some.inj (hB.symm.trans hB')
      exact fun _ => id
    · exact .inl (Silent.of_eq rfl)

theorem Finished.publish {a a' : Actor} (h : Finished a a') : Finished a a'.publishProxyState := by
  have hsame := holdings_publishProxyState a'
  have hanswers : a'.publishProxyState.answers = a'.answers := congrArg Holdings.answers hsame
  exact ⟨(congrArg Holdings.stopAll hsame).trans h.ended, (congrArg Holdings.processes hsame).trans
    h.empty, fun B hB r hr => hanswers ▸ h.told B hB r hr⟩

theorem finishTeardown_cases (os : Os) (name : String) (generation : ℕ) (code : Option ℤ) :
    Silent a (a.finishTeardown os name generation code) ∨
      Finished a (a.finishTeardown os name generation code) := by
  -- after the record has its new life, the waiters are answered and the batch is left
  have htail (a' : Actor) (ws : List Waiter) (resp : Response) (hsilent : Silent a a')
      (hbatch : a'.stopAll = a.stopAll) (hresp : resp ≠ allStopped) :
      Silent a ((ws.foldl (answerWaiter name resp) a').leaveBatch name).publishProxyState ∨
        Finished a ((ws.foldl (answerWaiter name resp) a').leaveBatch name).publishProxyState := by
    have hanswers : Silent a' (ws.foldl (answerWaiter name resp) a') := by
      refine (foldl_answerWaiter_speaks name resp ws a').silent ?_
      rintro ans (hplain | rfl)
      · exact hplain.ne_allStopped
      · exact fun heq => hresp (Answer.response.inj heq)
    have hsame : (ws.foldl (answerWaiter name resp) a').stopAll = a.stopAll :=
      (foldl_answer_same Actor.stopAll Waiter.reply (waiterAnswer name resp) (fun _ _ _ => rfl)
        (answerWaiter_eq name resp) ws a').trans hbatch
    rcases leaveBatch_cases name (ws.foldl (answerWaiter name resp) a') with h | h
    · exact .inl (hsilent.trans (hanswers.trans (h.trans (Silent.publish _))))
    · exact .inr (Finished.publish ⟨h.ended, h.empty, fun B hB => h.told B (hsame.trans hB)⟩)
  rw [finishTeardown]
  split
  · exact .inl (Silent.of_eq rfl)
  split
  · dsimp only
    split
    · split
      · exact htail _ _ _ (Silent.of_eq rfl) rfl (by simp [actorError, allStopped])
      · exact htail _ _ _ ((Silent.of_eq rfl).trans
          (respawn_speaks _ _ _ _ _).silent_of_plain)
          (stopAll_respawn ..) (respawn_ne_allStopped _ _ _ _ _)
    · exact .inl (Silent.of_eq rfl)
  · exact .inl (Silent.of_eq rfl)

theorem handleStopAll_cases (os : Os) (reply : Reply) :
    Silent a (a.handleStopAll os reply) ∨ Finished a (a.handleStopAll os reply) := by
  rw [handleStopAll]
  cases hB : a.stopAll with
  | some B => exact .inl (Silent.of_eq rfl)
  | none =>
    dsimp only
    have hsweep : Silent a ((a.refresh os).pm.names.foldl stopOne (a.refresh os, ∅)).1 :=
      (Silent.of_eq rfl).trans (foldl_stopOne_speaks _ (a.refresh os, ∅)).silent_of_plain
    split
    · refine .inr (Finished.publish (finishStopAll_finished fun B hB' => ?_))
      exact absurd (hB.symm.trans hB') (by simp)
    · exact .inl ((hsweep.trans (Silent.of_eq rfl)).trans (Silent.publish _))

end Actor

namespace Actor

/-- A command tells nobody that everything is stopped, or it is where the batch is over. -/
theorem handleCommand_cases (os : Os) (cmd : PmCommand) (a : Actor) :
    Silent a (a.handleCommand os cmd) ∨ Finished a (a.handleCommand os cmd) := by
  cases cmd with
  | spawn => exact .inl (handleSpawn_silent _ _ _ _ _ _ _ _ _)
  | stop => exact .inl (handleStop_speaks _ _ _).silent_of_plain
  | stopAll => exact handleStopAll_cases ..
  | restart => exact .inl (handleRestart_speaks _ _ _).silent_of_plain
  | status | statusSnapshot => exact .inl (handleStatus_speaks _ _).silent_of_plain
  | hasProcess | sessionName | subscribe => exact .inl ((Silent.of_eq rfl).answer (by simp) _)
  | isProcessExited => exact .inl (handleIsProcessExited_speaks _ _ _).silent_of_plain
  | enableProxy => exact .inl (handleEnableProxy_silent _ _)
  | autoRestart => exact .inl (handleAutoRestart_speaks _ _).silent_of_plain
  | watchRestart => exact .inl (handleWatchRestart_speaks _ _).silent_of_plain
  | stopFinished => exact finishTeardown_cases ..

end Actor

/-! ## Every run -/

variable {w w' : World}

theorem step_cases {e : Event} (h : Step w e w') :
    Silent w.actor w'.actor ∨ Finished w.actor w'.actor := by
  cases h with
  | client => exact Actor.handleCommand_cases ..
  | @deliver os cmd =>
    rcases Actor.handleCommand_cases os cmd (w.take cmd).actor with hs | hf
    · exact .inl ((Silent.of_eq rfl).trans hs)
    · exact .inr ⟨hf.ended, hf.empty, hf.told⟩
  | tick => exact .inl (Actor.tick_speaks _).silent_of_plain
  | exit | fileChanged | teardownDone => exact .inl (Silent.of_eq rfl)

/-- **An empty table owns nothing**: every incarnation is gone. -/
theorem gone_of_empty (hs : Sound w.books w.actor.holdings)
    (hempty : w.actor.pm.processes = .empty) (k : ℕ) (hk : k < w.actor.pm.spawned) :
    ∃ i ∈ w.tornDown, i.serial = k := by
  have hnone : w.actor.teardowns = [] := by
    refine List.eq_nil_iff_forall_not_mem.mpr fun t ht => ?_
    obtain ⟨p, hp, -⟩ := World.record_of_teardown hs ht
    rw [World.record, hempty, Table.lookup_empty] at hp
    exact absurd hp (by simp)
  have hcustody := hs.custody k
  rw [show w.actor.holdings.processes = .empty from hempty,
    show w.actor.holdings.teardowns = [] from hnone, Table.tally_empty, List.countP_nil,
    if_pos (show k < w.actor.holdings.spawned from hk)] at hcustody
  obtain ⟨i, hi, hserial⟩ := List.countP_pos_iff.mp
    (show 0 < w.books.gone.countP (·.isSerial k) by omega)
  exact ⟨i, hi, by simpa [Incarnation.isSerial] using hserial⟩

/-- While the batch `B` runs. -/
structure Draining (w : World) (B : StopAllBatch) : Prop where
  /-- It waits for exactly the stopping records. -/
  remaining : ∀ n, n ∈ B.remaining ↔ ∃ p, w.record n = some p ∧ p.life.isStopping = true
  /-- Their continuations are parks. -/
  parks : ∀ n p leaderExit andThen waiters, w.record n = some p →
    p.life = .stopping leaderExit andThen waiters → andThen = .park
  /-- Every other record has exited and holds no incarnation. -/
  others : ∀ n p, w.record n = some p → p.life.isStopping = false →
    ∃ code why timer, p.life = .exited code why none timer
  /-- Spawn and Restart are refused. -/
  refused : ∀ os cmd reply, ((∃ command name cwd env port restart watch,
      cmd = .spawn command name cwd env port restart watch reply) ∨
      ∃ target, cmd = .restart target reply) →
    (w.receive os cmd).actor = w.actor.respond reply stopAllInProgress
  /-- AutoRestart and WatchRestart are ignored. -/
  ignored : ∀ os cmd n g, (cmd = .autoRestart n g ∨ cmd = .watchRestart n g) →
    (w.deliver os cmd).actor = (w.take cmd).actor

/-- The step from `w` to `w'` says that all processes are stopped, and they are. -/
structure AllStopped (w w' : World) : Prop where
  gone : ∀ k < w'.actor.pm.spawned, ∃ i ∈ w'.tornDown, i.serial = k
  empty : ∀ n, w'.record n = none
  ended : w'.actor.stopAll = none
  /-- Every stop-all that joined the batch is told. -/
  told : ∀ B, w.actor.stopAll = some B → ∀ r ∈ B.replies,
    (r, .response allStopped) ∈ w'.actor.answers

/-- The state before a running batch. -/
theorem draining_of_sound (hs : Sound w.books w.actor.holdings) {B : StopAllBatch}
    (hB : w.actor.stopAll = some B) : Draining w B := by
  obtain ⟨-, hmem, hsettled⟩ := hs.batch B hB
  have hsome : w.actor.stopAll.isSome = true := by rw [hB]; rfl
  refine ⟨fun n => (hmem n).trans (or_iff_right List.not_mem_nil),
    fun n p leaderExit andThen ws hp hl => ?_, fun n p hp hstop => ?_,
    fun os cmd reply hcmd => ?_, fun os cmd n g hcmd => ?_⟩
  · rcases hsettled n p hp with ⟨_, _, hpark⟩ | ⟨_, _, _, hexited⟩
    · exact (Life.stopping.inj (hl.symm.trans hpark)).2.1
    · exact Life.noConfusion (hl.symm.trans hexited)
  · rcases hsettled n p hp with ⟨_, _, hpark⟩ | hexited
    · rw [hpark] at hstop
      exact absurd hstop (by simp)
    · exact hexited
  · rcases hcmd with ⟨command, name, cwd, env, port, restart, watch, rfl⟩ | ⟨target, rfl⟩
    · exact if_pos hsome
    · exact if_pos hsome
  · rcases hcmd with rfl | rfl
    · exact if_pos hsome
    · exact if_pos hsome

/-- **Stop-all safety.**  While a batch runs nothing is spawned, from the step that accepts it on;
and the step that says "all processes stopped" is one after which nothing is left. -/
theorem stopAll_safe (h : daemon.Reachable w) :
    (∀ B, w.actor.stopAll = some B → Draining w B) ∧
    (∀ e w', Step w e w' → (w.actor.stopAll.isSome = true ∨ ∃ os r, e = .client os (.stopAll r)) →
      w'.actor.pm.spawned = w.actor.pm.spawned) ∧
    ∀ e w' r, Step w e w' → (r, .response allStopped) ∈ w'.actor.answers →
      (r, .response allStopped) ∉ w.actor.answers → AllStopped w w' := by
  have hs := sound_of_reachable h
  refine ⟨fun B hB => draining_of_sound hs hB, fun e w' hstep hbatch => ?_,
    fun e w' r hstep hnew hold => ?_⟩
  · refine (step_moves hs hstep).spawned_eq fun n k hn => ?_
    -- an event that launches does so only when no batch runs
    rcases hbatch with hsome | ⟨os, r, rfl⟩
    · have hne : w.actor.stopAll ≠ none := by
        rw [Option.isSome_iff_ne_none] at hsome
        exact hsome
      unfold Event.launches at hn
      split at hn
      · exact hne hn.2.1
      · exact hne hn.2.2
      · exact hn
    · exact hn
  · have hfinished := (step_cases hstep).resolve_left fun hsilent =>
      hold (hsilent r hnew)
    have hs' : Sound w'.books w'.actor.holdings := (step_moves hs hstep).sound hs
    refine ⟨gone_of_empty hs' hfinished.empty, fun n => ?_, hfinished.ended, hfinished.told⟩
    rw [World.record, hfinished.empty]
    exact Table.lookup_empty n

/-- A stop-all of one running process, and a second one that joins it. -/
theorem stopAll_safe_joined :
    let spawned := (World.new "s").receive (.quiet 7)
      (.spawn "srv" (some "web") none none none none none 0)
    let batch := (spawned.receive (.quiet 7) (.stopAll 1)).receive (.quiet 7) (.stopAll 2)
    let torn := batch.finish ⟨"web", 1, some ⟨0, 7⟩, none⟩ (some 0)
    AllStopped torn (torn.deliver (.quiet 7) (.stopFinished "web" 1 (some 0))) := by
  refine (stopAll_safe ?_).2.2 _ _ 2 (.deliver rfl ?_) (by decide) (by decide)
  · refine World.reachable_finish ?_ (by decide) trivial
    exact World.reachable_receive (World.reachable_receive (World.reachable_receive
      (World.reachable_new "s") rfl rfl) rfl rfl) rfl rfl
  · decide

end AgentProcs
