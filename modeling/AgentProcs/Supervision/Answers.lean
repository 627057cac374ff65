import AgentProcs.Supervision.Ownership

/-!
# Supervision/Answers — what a handler says, and what it leaves unsaid

    handler ──▸ answers ⊆ answers before ∪ { ok }        proxyPort unchanged

Two answers say something about the daemon as a whole: that everything is stopped, and that a process
runs under a port and a URL.  Most handlers give neither, and only one sets the proxy port.
-/

namespace AgentProcs

/-- An answer that reports neither a launch nor the end of a stop-all. -/
def Answer.Plain : Answer → Prop
  | .response (.runOk ..) => False
  | .response resp => resp ≠ allStopped
  | _ => True

/-- The proxy port stays, and everybody who is told something new is told something `ok`. -/
structure Tells (ok : Answer → Prop) (a a' : Actor) : Prop where
  proxyPort : a'.proxyPort = a.proxyPort
  answers : ∀ x ∈ a'.answers, x ∈ a.answers ∨ ok x.2

namespace Tells

variable {ok ok' : Answer → Prop} {a a' a'' : Actor}

theorem of_eq (hproxy : a'.proxyPort = a.proxyPort) (h : a'.answers = a.answers) : Tells ok a a' :=
  ⟨hproxy, fun _ hx => .inl (h ▸ hx)⟩

theorem trans (h : Tells ok a a') (h' : Tells ok a' a'') : Tells ok a a'' :=
  ⟨h'.proxyPort.trans h.proxyPort, fun x hx => (h'.answers x hx).elim (h.answers x) .inr⟩

theorem mono (h : Tells ok a a') (hok : ∀ ans, ok ans → ok' ans) : Tells ok' a a' :=
  ⟨h.proxyPort, fun x hx => (h.answers x hx).imp_right (hok x.2)⟩

theorem answer {ans : Answer} (hans : ok ans) (reply : Reply) (a : Actor) :
    Tells ok a (a.answer reply ans) := by
  refine ⟨rfl, fun x hx => ?_⟩
  rcases List.mem_cons.mp hx with rfl | hx
  · exact .inr hans
  · exact .inl hx

end Tells

/-- All that is new on the supervisor channels is a line of the actor's. -/
structure Notes (a a' : Actor) : Prop where
  new : ∀ x ∈ a'.annotations, x ∈ a.annotations ∨ SupervisorMessage x.2

namespace Notes

variable {a a' a'' : Actor}

theorem of_eq (h : a'.annotations = a.annotations) : Notes a a' :=
  ⟨fun _ hx => .inl (h ▸ hx)⟩

theorem trans (h : Notes a a') (h' : Notes a' a'') : Notes a a'' :=
  ⟨fun x hx => (h'.new x hx).elim (h.new x) .inr⟩

theorem annotate {name msg : String} (hmsg : SupervisorMessage msg) (a : Actor) :
    Notes a (a.annotate name msg) := by
  rw [Actor.annotate]
  split
  · exact ⟨fun x hx => (List.mem_cons.mp hx).elim (fun h => .inr (h ▸ hmsg)) .inl⟩
  · exact of_eq rfl

end Notes

/-- What is said to those who wait, and into the logs. -/
structure Speaks (ok : Answer → Prop) (a a' : Actor) : Prop extends Tells ok a a', Notes a a'

namespace Speaks

variable {ok ok' : Answer → Prop} {a a' a'' : Actor}

theorem of_eq (hproxy : a'.proxyPort = a.proxyPort) (hanswers : a'.answers = a.answers)
    (hannotations : a'.annotations = a.annotations) : Speaks ok a a' :=
  ⟨.of_eq hproxy hanswers, .of_eq hannotations⟩

theorem trans (h : Speaks ok a a') (h' : Speaks ok a' a'') : Speaks ok a a'' :=
  ⟨h.toTells.trans h'.toTells, h.toNotes.trans h'.toNotes⟩

theorem mono (h : Speaks ok a a') (hok : ∀ ans, ok ans → ok' ans) : Speaks ok' a a' :=
  ⟨h.toTells.mono hok, h.toNotes⟩

theorem answer {ans : Answer} (hans : ok ans) (reply : Reply) (a : Actor) :
    Speaks ok a (a.answer reply ans) := ⟨.answer hans reply a, .of_eq rfl⟩

theorem refresh (os : Os) (a : Actor) : Speaks ok a (a.refresh os) := of_eq rfl rfl rfl

theorem update (name : String) (f : ManagedProcess → ManagedProcess) (hf : ∀ p, (f p).name = p.name)
    (a : Actor) : Speaks ok a (a.update name f hf) := of_eq rfl rfl rfl

theorem annotate {name msg : String} (hmsg : SupervisorMessage msg) (a : Actor) :
    Speaks ok a (a.annotate name msg) := by
  refine ⟨?_, .annotate hmsg a⟩
  rw [Actor.annotate]
  split <;> exact .of_eq rfl rfl

theorem publish (a : Actor) : Speaks ok a a.publishProxyState := by
  rw [Actor.publishProxyState]
  split <;> exact of_eq rfl rfl rfl

theorem setupWatcher (os : Os) (name : String) (a : Actor) :
    Speaks ok a (a.setupWatcher os name).1 := by
  rw [Actor.setupWatcher]
  split
  · exact of_eq rfl rfl rfl
  split
  · exact of_eq rfl rfl rfl
  · cases os.watch <;> exact of_eq rfl rfl rfl

theorem outfit (os : Os) (name : String) (restart : Option RestartPolicy)
    (watch : Option WatchConfig) (a : Actor) : Speaks ok a (a.outfit os name restart watch) :=
  Actor.outfit_rule (fun _ => update ..) (fun _ => (update ..).trans (setupWatcher ..))
    fun _ _ hmsg h => h.trans (annotate hmsg _)

theorem startTeardown (name : String) (andThen : AfterStop) (waiter : Option Waiter) (a : Actor) :
    Speaks ok a (a.startTeardown name andThen waiter) := by
  rw [Actor.startTeardown]
  split
  · exact of_eq rfl rfl rfl
  · dsimp only
    split <;> exact of_eq rfl rfl rfl

theorem foldl {α : Type} {f : Actor → α → Actor} (hf : ∀ a x, Speaks ok a (f a x)) :
    ∀ (xs : List α) (a : Actor), Speaks ok a (xs.foldl f a)
  | [], _ => of_eq rfl rfl rfl
  | x :: xs, a => (hf a x).trans (foldl hf xs (f a x))

end Speaks

/-- The answer to one stop is not the answer to a stop-all. -/
theorem plain_stopped (name : String) : Answer.Plain (.response (stopped name)) := by
  intro h
  have hmsg : "stopped " ++ name = "all processes stopped" := Response.ok.inj h
  have hchars : "stopped ".toList ++ name.toList = "all processes stopped".toList := by
    rw [← String.toList_append, hmsg]
  exact absurd (congrArg List.head? hchars) (by simp)

theorem plain_error (code : ErrorCode) (message : String) :
    Answer.Plain (.response (.error code message)) := by
  simp [Answer.Plain, allStopped]

namespace Actor

variable {a : Actor}

/-! ## Handlers that answer plainly -/

theorem handleStop_speaks (os : Os) (target : String) (reply : Reply) :
    Speaks Answer.Plain a (a.handleStop os target reply) := by
  rw [handleStop]
  refine (Speaks.refresh os a).trans ?_
  split
  · exact .answer (plain_error _ _) reply _
  · split
    · exact .of_eq rfl rfl rfl
    · exact (Speaks.update ..).trans (.answer (plain_stopped _) reply _)
    · exact .startTeardown ..
    · exact .startTeardown ..

theorem handleRestart_speaks (os : Os) (target : String) (reply : Reply) :
    Speaks Answer.Plain a (a.handleRestart os target reply) := by
  rw [handleRestart]
  split
  · exact .answer (plain_error _ _) reply a
  refine (Speaks.refresh os a).trans ?_
  dsimp only
  split
  · exact .answer (plain_error _ _) reply _
  · split
    · exact .of_eq rfl rfl rfl
    · exact .startTeardown ..

theorem handleStatus_speaks (os : Os) (reply : Reply) :
    Speaks Answer.Plain a (a.handleStatus os reply) := by
  have hstatus (pm : ProcessManager) (pp : Option ℕ) :
      Answer.Plain (.response (rewriteUrls pp (pm.statusSnapshot os))) := by
    cases pp <;> simp [rewriteUrls, ProcessManager.statusSnapshot, Answer.Plain, allStopped]
  rw [handleStatus]
  refine (Speaks.refresh os a).trans ?_
  split
  · exact (Speaks.publish _).trans (.answer (hstatus _ _) reply _)
  · exact .answer (hstatus _ _) reply _

theorem handleIsProcessExited_speaks (os : Os) (target : String) (reply : Reply) :
    Speaks Answer.Plain a (a.handleIsProcessExited os target reply) :=
  ((Speaks.refresh os a).trans (Speaks.publish _)).trans (.answer trivial reply _)

theorem handleAutoRestart_speaks (name : String) (generation : ℕ) :
    Speaks Answer.Plain a (a.handleAutoRestart name generation) := by
  rw [handleAutoRestart]
  split
  · exact .of_eq rfl rfl rfl
  split
  · exact .of_eq rfl rfl rfl
  split
  · split
    · exact (Speaks.update ..).trans (Speaks.startTeardown ..)
    · exact .of_eq rfl rfl rfl
  · exact .of_eq rfl rfl rfl

theorem handleWatchRestart_speaks (name : String) (generation : ℕ) :
    Speaks Answer.Plain a (a.handleWatchRestart name generation) := by
  rw [handleWatchRestart]
  split
  · exact .of_eq rfl rfl rfl
  split
  · exact .of_eq rfl rfl rfl
  split
  · split
    · exact .of_eq rfl rfl rfl
    · exact .of_eq rfl rfl rfl
    · exact (Speaks.update ..).trans (Speaks.startTeardown ..)
  · exact .of_eq rfl rfl rfl

theorem tick_speaks (os : Os) : Speaks Answer.Plain a (a.tick os) := by
  refine KeptByVerdicts.tick (P := Speaks Answer.Plain a) ?_ os (.refresh os a)
  exact {
    annotate := fun _ _ _ hmsg h => h.trans (.annotate hmsg _)
    publish := fun _ h => h.trans (.publish _)
    mark := fun _ _ _ _ _ _ _ _ h => h.trans (.of_eq rfl rfl rfl)
    arm := fun _ _ _ _ _ _ _ _ _ h => h.trans (.of_eq rfl rfl rfl) }

/-- A respawn answers nobody by itself. -/
theorem respawn_speaks (os : Os) (name : String) (reason : RespawnReason) (code : Option ℤ)
    (a : Actor) : Speaks Answer.Plain a (a.respawn os name reason code).1 := by
  rcases hrespawn : (a.settleCount name reason).pm.respawn os name (reason != .manual) with ⟨pm, resp⟩
  exact respawn_rule (P := Speaks Answer.Plain a) code hrespawn (fun _ => .of_eq rfl rfl rfl)
    (fun _ _ hmsg h => h.trans (.annotate hmsg _)) fun _ _ h => h.trans (.setupWatcher ..)

/-- The sweep of a stop-all tells nobody anything. -/
theorem foldl_stopOne_speaks : ∀ (names : List String) (st : Actor × Finset String),
    Speaks Answer.Plain st.1 (names.foldl stopOne st).1
  | [], _ => Speaks.of_eq rfl rfl rfl
  | name :: names, st => by
    refine Speaks.trans ?_ (foldl_stopOne_speaks names (stopOne st name))
    rw [stopOne]
    split
    · exact Speaks.of_eq rfl rfl rfl
    · split
      · exact Speaks.of_eq rfl rfl rfl
      · exact Speaks.of_eq rfl rfl rfl
      · exact Speaks.startTeardown _ _ _ _
      · exact Speaks.startTeardown _ _ _ _

/-! ## The end of a stop-all, and a report -/

theorem finishStopAll_speaks (batch : StopAllBatch) : Speaks (· = .response allStopped) a
    (finishStopAll { a with stopAll := some batch }) := by
  have hanswers : Speaks (· = .response allStopped) { a with stopAll := none, pm := a.pm.clear }
      (finishStopAll { a with stopAll := some batch }) := by
    refine Speaks.foldl (fun a reply => ?_) batch.replies _
    exact .answer (by rfl) reply a
  exact ⟨⟨hanswers.proxyPort, hanswers.answers⟩, ⟨hanswers.new⟩⟩

theorem leaveBatch_speaks (name : String) :
    Speaks (· = .response allStopped) a (a.leaveBatch name) := by
  rw [leaveBatch]
  split
  · exact .of_eq rfl rfl rfl
  · dsimp only
    split
    · exact finishStopAll_speaks _
    · exact .of_eq rfl rfl rfl

theorem handleStopAll_speaks (os : Os) (reply : Reply) :
    Speaks (fun ans => ans.Plain ∨ ans = .response allStopped) a (a.handleStopAll os reply) := by
  rw [handleStopAll]
  split
  · exact .of_eq rfl rfl rfl
  dsimp only
  refine (Speaks.refresh os a).trans ?_
  have hsweep := foldl_stopOne_speaks (a.refresh os).pm.names (a.refresh os, ∅)
  generalize (a.refresh os).pm.names.foldl stopOne (a.refresh os, ∅) = st at hsweep ⊢
  refine (hsweep.mono fun _ => .inl).trans (Speaks.trans ?_ (Speaks.publish _))
  split
  · exact (finishStopAll_speaks _).mono fun _ => .inr
  · exact .of_eq rfl rfl rfl

/-- What those who wait for a report are told. -/
theorem foldl_answerWaiter_speaks (name : String) (resp : Response) (ws : List Waiter) (a : Actor) :
    Speaks (fun ans => ans.Plain ∨ ans = .response resp) a
      (ws.foldl (answerWaiter name resp) a) := by
  refine Speaks.foldl (fun a w => ?_) ws a
  cases w with
  | stop reply => exact .answer (.inl (plain_stopped name)) reply a
  | restart reply => exact .answer (.inr rfl) reply a

end Actor

end AgentProcs
