import AgentProcs.Supervision.LastCommand
import AgentProcs.Supervision.Ownership
import AgentProcs.Supervision.Replies

/-!
# Supervision/WindingUp — nobody waits for ever

    2 · (teardowns under way) + (reports on the way) ──▸ 0 ──▸ everybody is answered

A teardown that ends leaves a report, and a report that is handled leaves nothing: whatever it
revives, it begins no teardown.  So the daemon winds up in a number of steps that is known
beforehand, in whatever order they come, and then nobody is waiting any more.
-/

namespace AgentProcs

/-- A teardown ends, or its report is handled. -/
def Event.WindsUp : Event → Prop
  | .teardownDone .. => True
  | .deliver _ (.stopFinished ..) => True
  | _ => False

/-- A report of a teardown. -/
def PmCommand.isReport : PmCommand → Bool
  | .stopFinished .. => true
  | _ => false

/-! ## A report begins nothing -/

/-- No teardown has begun or ended, and nothing has been sent. -/
structure Unqueued (a a' : Actor) : Prop where
  teardowns : a'.teardowns = a.teardowns
  inFlight : a'.inFlight = a.inFlight

namespace Unqueued

variable {a a' a'' : Actor}

theorem refl (a : Actor) : Unqueued a a := ⟨rfl, rfl⟩

theorem trans (h : Unqueued a a') (h' : Unqueued a' a'') : Unqueued a a'' :=
  ⟨h'.teardowns.trans h.teardowns, h'.inFlight.trans h.inFlight⟩

theorem of_holdings (h : a'.holdings = a.holdings) : Unqueued a a' :=
  ⟨congrArg Holdings.teardowns h, congrArg Holdings.inFlight h⟩

end Unqueued

namespace Actor

variable {a : Actor}

theorem setupWatcher_unqueued (os : Os) (name : String) (a : Actor) :
    Unqueued a (a.setupWatcher os name).1 := by
  rw [setupWatcher]
  split
  · exact .refl a
  split
  · exact .refl a
  · cases os.watch <;> exact ⟨rfl, rfl⟩

theorem respawn_unqueued (os : Os) (name : String) (reason : RespawnReason) (code : Option ℤ)
    (a : Actor) : Unqueued a (a.respawn os name reason code).1 := by
  rcases h : (a.settleCount name reason).pm.respawn os name (reason != .manual) with ⟨pm, resp⟩
  refine respawn_rule (P := Unqueued a) code h (fun _ => ?_)
    (fun a' msg _ h => h.trans (.of_holdings (holdings_annotate name msg a')))
    fun a' _ h => h.trans (setupWatcher_unqueued os name a')
  exact ⟨rfl, rfl⟩

theorem foldl_answer_unqueued {α : Type} {f : Actor → α → Actor} (reply : α → Reply)
    (ans : α → Answer) (hf : ∀ a x, f a x = a.answer (reply x) (ans x)) (xs : List α) (a : Actor) :
    Unqueued a (xs.foldl f a) :=
  ⟨foldl_answer_same Actor.teardowns reply ans (fun _ _ _ => rfl) hf xs a,
    foldl_answer_same Actor.inFlight reply ans (fun _ _ _ => rfl) hf xs a⟩

theorem leaveBatch_unqueued (name : String) (a : Actor) : Unqueued a (a.leaveBatch name) := by
  rw [leaveBatch]
  split
  · exact .refl a
  dsimp only
  split
  · rw [finishStopAll]
    dsimp only
    refine Unqueued.trans ?_
      (foldl_answer_unqueued id (fun _ => .response allStopped) (fun _ _ => rfl) ..)
    exact ⟨rfl, rfl⟩
  · exact ⟨rfl, rfl⟩

theorem told_unqueued (name : String) (resp : Response) (ws : List Waiter) (a : Actor) :
    Unqueued a (a.told name resp ws) :=
  ((foldl_answer_unqueued Waiter.reply (waiterAnswer name resp) (answerWaiter_eq name resp) ws
    a).trans (leaveBatch_unqueued ..)).trans (.of_holdings (holdings_publishProxyState _))

/-- **A report begins no teardown** and sends nothing. -/
theorem finishTeardown_unqueued (os : Os) (name : String) (generation : ℕ) (code : Option ℤ)
    (a : Actor) : Unqueued a (a.finishTeardown os name generation code) := by
  rw [finishTeardown]
  split
  · exact .refl a
  split
  · dsimp only
    split
    · rename_i andThen ws _
      cases andThen with
      | park =>
        refine Unqueued.trans ?_ (told_unqueued name _ ws _)
        exact ⟨rfl, rfl⟩
      | respawn reason =>
        refine Unqueued.trans ?_ (told_unqueued name _ ws _)
        refine Unqueued.trans ?_ (respawn_unqueued ..)
        exact ⟨rfl, rfl⟩
    · exact ⟨rfl, rfl⟩
  · exact .refl a

end Actor

/-! ## What is left -/

/-- A teardown may end at any time. -/
theorem exists_mayReport (t : Teardown) : ∃ code, t.mayReport code := by
  refine ⟨t.leaderExit.join, ?_⟩
  rw [Teardown.mayReport]
  split
  · rfl
  · rename_i hexit
    exact .inl (by rw [hexit]; rfl)
  · trivial

namespace World

variable {w w' u : World} {e : Event} {ts : List (Transition World Event)}

/-- How many steps it takes to wind up. -/
def left (w : World) : ℕ :=
  2 * w.actor.teardowns.length + w.actor.inFlight.countP (·.isReport)

theorem left_step (hstep : Step w e w') (he : e.WindsUp) : w'.left + 1 = w.left := by
  cases hstep with
  | @teardownDone t code hmem =>
    have hlen := List.length_erase_of_mem hmem
    have hpos := List.length_pos_of_mem hmem
    change 2 * (w.actor.teardowns.erase t).length + List.countP _ (_ :: w.actor.inFlight) + 1 = _
    rw [hlen, List.countP_cons_of_pos rfl, left]
    omega
  | @deliver os cmd hos hmem =>
    cases cmd with
    | stopFinished name generation code =>
      have hafter := Actor.finishTeardown_unqueued os name generation code
        (w.take (.stopFinished name generation code)).actor
      have hcount := (List.perm_cons_erase hmem).countP_eq (·.isReport)
      rw [List.countP_cons_of_pos rfl] at hcount
      change 2 * (Actor.finishTeardown os name generation code _).teardowns.length +
        (Actor.finishTeardown os name generation code _).inFlight.countP _ + 1 = _
      rw [hafter.teardowns, hafter.inFlight, left, hcount]
      rfl
    | _ => exact he.elim
  | _ => exact he.elim

theorem requests_step (hstep : Step w e w') (he : e.WindsUp) : w'.requests = w.requests := by
  cases hstep with
  | client => exact he.elim
  | _ => rfl

/-- **There is a next step** as long as something is left. -/
theorem exists_windsUp (h : 0 < w.left) : ∃ e w', e.WindsUp ∧ Step w e w' := by
  rcases ht : w.actor.teardowns with _ | ⟨t, rest⟩
  · rw [left, ht] at h
    obtain ⟨cmd, hmem, hreport⟩ := List.countP_pos_iff.mp (by simpa using h)
    cases cmd with
    | stopFinished name generation code =>
      exact ⟨.deliver { Os.quiet 0 with exits := w.exits } (.stopFinished name generation code), _,
        trivial, .deliver rfl hmem⟩
    | _ => exact Bool.noConfusion hreport
  · have hmem : t ∈ w.actor.teardowns := ht ▸ List.mem_cons_self
    obtain ⟨code, hcode⟩ := exists_mayReport t
    exact ⟨.teardownDone t code, _, trivial, .teardownDone hmem hcode⟩

/-- **Nothing is pending** when nothing is left. -/
theorem pendingReports_of_left (h : w.left = 0) (n : String) (g : ℕ) :
    w.pendingReports n g = 0 := by
  have hnone : w.actor.teardowns = [] := List.length_eq_zero_iff.mp (by rw [left] at h; omega)
  have hreports : w.actor.inFlight.countP (·.isReport) = 0 := by rw [left] at h; omega
  rw [pendingReports, hnone]
  refine (Nat.zero_add _).trans (List.countP_eq_zero.mpr fun cmd hmem hreport => ?_)
  refine List.countP_eq_zero.mp hreports cmd hmem ?_
  cases cmd with
  | stopFinished => rfl
  | _ => exact hreport

/-- Nobody is parked, and no batch runs, when no report is pending. -/
theorem exists_answer_of_left (hs : Sound w.books w.actor.holdings) (h : w.left = 0) {r : Reply}
    (hr : r < w.requests) : ∃ x, w.answersTo r = [x] := by
  have hparked : w.parkedOn r = [] := by
    refine List.eq_nil_iff_forall_not_mem.mpr ?_
    rintro ⟨n, waiter⟩ hmem
    obtain ⟨p, -, -, hpending⟩ := record_of_parked hs hmem
    exact absurd (pendingReports_of_left h n p.generation) (by omega)
  have hbatch : w.batched r = [] := by
    rcases hB : w.actor.stopAll with _ | B
    · rw [batched, Holdings.batchReplies, show w.actor.holdings.stopAll = none from hB]
      rfl
    · obtain ⟨n, p, -, -, hpending⟩ := pending_of_batch hs hB
      exact absurd (pendingReports_of_left h n p.generation) (by omega)
  have hsum := length_channels hs r
  rw [if_pos hr, hparked, hbatch] at hsum
  exact List.length_eq_one_iff.mp hsum

end World

/-- **Nobody waits for ever**: in whatever order the teardowns under way end and their reports are
handled, the daemon is done with them after as many steps as are left; up to then there is always a
next such step, and then every request received has been answered, once. -/
theorem all_answered {w u : World} {ts : List (Transition World Event)} (hw : daemon.Reachable w)
    (hrun : (daemon.guarded fun _ e => e.WindsUp).Run w ts u) :
    ts.length ≤ w.left ∧ (ts.length < w.left → ∃ e u', e.WindsUp ∧ Step u e u') ∧
      (ts.length = w.left → ∀ r < w.requests, ∃ x, u.answersTo r = [x]) := by
  have hleft : ts.length + u.left = w.left ∧ u.requests = w.requests := by
    induction hrun with
    | refl => exact ⟨Nat.zero_add _, rfl⟩
    | @snoc ts u u' e _ hstep ih =>
      have hstep' := World.left_step hstep.1 hstep.2
      rw [List.length_append, List.length_singleton]
      exact ⟨by omega, (World.requests_step hstep.1 hstep.2).trans ih.2⟩
  refine ⟨by omega, fun hlt => World.exists_windsUp (by omega), fun hdone r hr => ?_⟩
  have hu : daemon.Reachable u := hw.run hrun.of_guarded.1
  exact World.exists_answer_of_left (sound_of_reachable hu) (by omega) (hleft.2.symm ▸ hr)

/-- A restart and a stop-all of one process: after two steps, all three requests are answered. -/
theorem all_answered_restart :
    let spawned := (World.new "s").receive (.quiet 7)
      (.spawn "srv" (some "web") none none none none none 0)
    let asked := (spawned.receive (.quiet 7) (.restart "web" 1)).receive (.quiet 7) (.stopAll 2)
    let torn := asked.finish ⟨"web", 1, some ⟨0, 7⟩, none⟩ (some 0)
    let reported := torn.deliver (.quiet 7) (.stopFinished "web" 1 (some 0))
    ∀ r < 3, ∃ x, reported.answersTo r = [x] := by
  intro spawned asked torn reported
  have hasked : daemon.Reachable asked :=
    World.reachable_receive (World.reachable_receive (World.reachable_receive
      (World.reachable_new "s") rfl rfl) rfl rfl) rfl rfl
  have htorn : Step asked (.teardownDone ⟨"web", 1, some ⟨0, 7⟩, none⟩ (some 0)) torn :=
    .teardownDone (List.mem_singleton_self _) trivial
  have hreported : Step torn (.deliver (.quiet 7) (.stopFinished "web" 1 (some 0))) reported :=
    .deliver rfl (List.mem_singleton_self _)
  have hrun := (Machine.Run.refl (M := daemon.guarded fun _ e => e.WindsUp)).snoc
    ⟨htorn, trivial⟩ |>.snoc ⟨hreported, trivial⟩
  exact (all_answered hasked hrun).2.2 rfl

end AgentProcs
