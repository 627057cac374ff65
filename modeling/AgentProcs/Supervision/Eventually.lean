import AgentProcs.Machinery.Fairness
import AgentProcs.Supervision.UnderWay

/-!
# Supervision/Eventually — everybody is answered at last

    stopping ──teardown ends──▸ · ──report delivered──▸ parked or respawned, everybody answered
    batch of k ──a report──▸ batch of fewer ──▸ ⋯ ──the last report──▸ everybody answered

The daemon runs for ever, among clients that go on asking.  Provided only that every teardown ends and
every command in flight arrives, nobody waits for ever, whatever else is asked meanwhile.
-/

namespace AgentProcs

/-! ## Fair runs -/

/-- **A run of the daemon that never ends**, in which teardowns end, and what timers, watchers and
teardowns send arrives. -/
structure Fair (s : ℕ → World) (e : ℕ → Event) : Prop where
  run : daemon.Forever s e
  teardowns : ∀ t, daemon.FairTo s e (Event.Ends t)
  commands : ∀ cmd, daemon.FairTo s e (Event.Delivers cmd)

/-- The report for this name and generation is handled. -/
def Event.ReportsFor (n : String) (g : ℕ) : Event → Prop
  | .deliver _ cmd => cmd.reportsFor n g = true
  | _ => False

theorem Event.Delivers.reportsFor {ev : Event} {cmd : PmCommand} {n : String} {g : ℕ}
    (h : ev.Delivers cmd) (hcmd : cmd.reportsFor n g = true) : ev.ReportsFor n g := by
  cases ev with
  | deliver os cmd' =>
    obtain rfl : cmd' = cmd := h
    exact hcmd
  | _ => exact h.elim

/-- The record `n` is stopping, at this generation. -/
def World.Stops (n : String) (g : ℕ) (w : World) : Prop :=
  ∃ p, w.record n = some p ∧ p.generation = g ∧ p.life.isStopping = true

variable {w w' : World} {ev : Event} {n : String} {g : ℕ}

/-- A stopping record has a teardown that runs, or a report that is on its way. -/
theorem World.Stops.pending (h : w.Stops n g) (hs : Sound w.books w.actor.holdings) :
    (∃ t ∈ w.actor.teardowns, t.reportsFor n g = true) ∨
      ∃ cmd ∈ w.actor.inFlight, cmd.reportsFor n g = true := by
  obtain ⟨p, hp, rfl, hstop⟩ := h
  have hone := World.pendingReports_record hs hp
  rw [if_pos hstop, World.pendingReports] at hone
  rcases Nat.eq_zero_or_pos (w.actor.teardowns.countP (·.reportsFor n p.generation)) with h | h
  · rw [h, Nat.zero_add] at hone
    exact .inr (List.countP_pos_iff.mp (hone ▸ Nat.one_pos))
  · exact .inl (List.countP_pos_iff.mp h)

/-- Its report is the only one for its name. -/
theorem World.Stops.not_reports (h : w.Stops n g) (hs : Sound w.books w.actor.holdings)
    (hstep : Step w ev w') (hno : ¬ev.ReportsFor n g) : ¬ev.reports n := by
  obtain ⟨p, hp, rfl, -⟩ := h
  unfold Event.reports
  split
  · rintro rfl
    cases hstep with
    | deliver hos hmem =>
      obtain ⟨p', hp', hgen, -⟩ := (sound_take hs hmem).due List.mem_cons_self
      obtain rfl := Option.some.inj (hp.symm.trans hp')
      exact hno (by simp [Event.ReportsFor, PmCommand.reportsFor, hgen])
  · exact id

/-- Until its report, it goes on stopping. -/
theorem stops_step (hs : Sound w.books w.actor.holdings) (hstep : Step w ev w') (h : w.Stops n g)
    (hno : ¬ev.ReportsFor n g) : w'.Stops n g := by
  have hquiet := h.not_reports hs hstep hno
  obtain ⟨p, hp, rfl, hstop⟩ := h
  exact ⟨_, record_obeys hs hstep hquiet hp hstop, ManagedProcess.generation_obey ..,
    (ManagedProcess.isStopping_obey ..).trans hstop⟩

/-- **What lasts while a record stops** leads to what its report does. -/
theorem Fair.leadsTo_of_stops {s : ℕ → World} {e : ℕ → Event} {P Q : ℕ → Prop} (hf : Fair s e)
    (hstops : ∀ i, P i → (s i).Stops n g) (hdone : ∀ i, P i → (e i).ReportsFor n g → Q i)
    (hlasts : ∀ i, P i → ¬Q i → ¬(e i).ReportsFor n g → P (i + 1)) : LeadsTo P Q := by
  have hstays (i : ℕ) (hi : P i) (hnot : ¬Q i) : P (i + 1) :=
    hlasts i hi hnot fun hreport => hnot (hdone i hi hreport)
  -- the report is on its way
  have hreported (cmd : PmCommand) (hcmd : cmd.reportsFor n g = true) :
      LeadsTo (fun i => P i ∧ cmd ∈ (s i).actor.inFlight) Q := by
    refine (hf.commands cmd).leadsTo (fun i hi => ?_) (fun i hi hdelivers => ?_)
      fun i hi hnot hno => ⟨hstays i hi.1 hnot, inFlight_step (hf.run.step i) hi.2 hno⟩
    · exact ⟨.deliver { Os.quiet 0 with exits := (s i).exits } cmd, _, rfl, .deliver rfl hi.2⟩
    · exact hdone i hi.1 (hdelivers.reportsFor hcmd)
  -- the teardown is under way
  have hended (t : Teardown) (ht : t.reportsFor n g = true) :
      LeadsTo (fun i => P i ∧ t ∈ (s i).actor.teardowns) Q := by
    have hends : LeadsTo (fun i => P i ∧ t ∈ (s i).actor.teardowns) fun i => Q i ∨ P (i + 1) ∧
        ∃ cmd ∈ (s (i + 1)).actor.inFlight, cmd.reportsFor n g = true := by
      refine (hf.teardowns t).leadsTo (fun i hi => ?_) (fun i hi hends => ?_)
        fun i hi hnot hno => ⟨hstays i hi.1 fun hq => hnot (.inl hq),
          teardown_step (hf.run.step i) hi.2 hno⟩
      · obtain ⟨code, hcode⟩ := exists_mayReport t
        exact ⟨.teardownDone t code, _, rfl, .teardownDone hi.2 hcode⟩
      · refine or_iff_not_imp_left.mpr fun hnot => ⟨hstays i hi.1 hnot, ?_⟩
        obtain ⟨code, hmem⟩ := report_of_ends (hf.run.step i) hends
        exact ⟨_, hmem, ht⟩
    refine hends.trans (.or (.of_imp fun _ => id) fun i hi => ?_)
    obtain ⟨hi, cmd, hmem, hcmd⟩ := hi
    exact (LeadsTo.next (Q := fun i => P i ∧ cmd ∈ (s i).actor.inFlight)).trans
      (hreported cmd hcmd) i ⟨hi, hmem⟩
  intro i hi
  rcases (hstops i hi).pending (sound_of_reachable (hf.run.reachable i)) with
    ⟨t, hmem, ht⟩ | ⟨cmd, hmem, hcmd⟩
  · exact hended t ht i ⟨hi, hmem⟩
  · exact hreported cmd hcmd i ⟨hi, hmem⟩

/-! ## Who waits for one record -/

/-- Somebody waits on this channel for the record `n`, which stops. -/
def World.Parked (r : Reply) (n : String) (g : ℕ) (w : World) : Prop :=
  ∃ p, w.record n = some p ∧ p.generation = g ∧ ∃ waiter ∈ p.life.waiters, waiter.reply = r

/-- The channel has been answered. -/
def World.Told (r : Reply) (w : World) : Prop := ∃ x, (r, x) ∈ w.actor.answers

variable {r : Reply} {p : ManagedProcess}

theorem isStopping_of_waiter {waiter : Waiter} (h : waiter ∈ p.life.waiters) :
    p.life.isStopping = true := by
  by_contra hidle
  rw [Life.waiters_of_not_stopping (Bool.eq_false_of_not_eq_true hidle)] at h
  exact absurd h List.not_mem_nil

theorem World.Parked.stops (h : w.Parked r n g) : w.Stops n g := by
  obtain ⟨p, hp, hgen, waiter, hmem, -⟩ := h
  exact ⟨p, hp, hgen, isStopping_of_waiter hmem⟩

/-- A command that joins a stop sends nobody away. -/
theorem mem_waiters_obey {waiter : Waiter} (h : waiter ∈ p.life.waiters) (ask : Option Ask) :
    waiter ∈ (p.obey ask).life.waiters := by
  cases ask with
  | none => exact h
  | some ask =>
    rw [ManagedProcess.obey]
    cases hl : p.life with
    | stopping =>
      rw [hl] at h
      exact List.mem_append_left _ h
    | _ =>
      rw [hl] at h
      exact absurd h List.not_mem_nil

/-- Until the report, who waits goes on waiting. -/
theorem parked_step (hs : Sound w.books w.actor.holdings) (hstep : Step w ev w')
    (h : w.Parked r n g) (hno : ¬ev.ReportsFor n g) : w'.Parked r n g := by
  have hquiet := h.stops.not_reports hs hstep hno
  obtain ⟨p, hp, hgen, waiter, hmem, hreply⟩ := h
  refine ⟨_, record_obeys hs hstep hquiet hp (isStopping_of_waiter hmem), ?_, waiter,
    mem_waiters_obey hmem _, hreply⟩
  rw [ManagedProcess.generation_obey, hgen]

/-- What the report for a stopping record is. -/
theorem World.Stops.reported (h : w.Stops n g) (hreport : ev.ReportsFor n g) :
    ∃ os code p leaderExit andThen ws, ev = .deliver os (.stopFinished n g code) ∧
      w.record n = some p ∧ p.generation = g ∧ p.life = .stopping leaderExit andThen ws := by
  obtain ⟨p, hp, hgen, hstop⟩ := h
  cases ev with
  | deliver os cmd =>
    cases cmd with
    | stopFinished name generation code =>
      obtain ⟨rfl, rfl⟩ : name = n ∧ generation = g := by
        simpa [Event.ReportsFor, PmCommand.reportsFor] using hreport
      cases hl : p.life with
      | stopping leaderExit andThen ws => exact ⟨os, code, p, _, _, _, rfl, hp, hgen, hl⟩
      | _ => exact absurd hstop (by simp [hl])
    | _ => exact Bool.noConfusion hreport
  | _ => exact hreport.elim

/-- **The report answers** whoever waits for it. -/
theorem told_of_report (hw : daemon.Reachable w) (hstep : Step w ev w') (h : w.Parked r n g)
    (hreport : ev.ReportsFor n g) : w'.Told r := by
  obtain ⟨os, code, p, leaderExit, andThen, ws, rfl, hp, rfl, hl⟩ := h.stops.reported hreport
  obtain ⟨p', hp', -, waiter, hmem, rfl⟩ := h
  obtain rfl := Option.some.inj (hp.symm.trans hp')
  have hlast := lastWins_of_report hw hstep hp hl
  have htold {x : Reply × Answer} (h : w'.answersTo waiter.reply = [x]) :
      w'.Told waiter.reply := by
    have hx : x ∈ w'.answersTo waiter.reply := h ▸ List.mem_singleton_self x
    obtain ⟨hx, hreply⟩ := List.mem_filter.mp hx
    exact ⟨x.2, beq_iff_eq.mp hreply ▸ hx⟩
  rw [hl] at hmem
  cases waiter with
  | stop r => exact htold (hlast.stops r hmem)
  | restart r =>
    cases andThen with
    | park => exact htold ((hlast.parked rfl).2 r hmem)
    | respawn reason =>
      obtain ⟨q, resp, -, -, -, -, hanswer⟩ := hlast.respawned reason rfl
      exact htold (hanswer r hmem)

/-- **Who waits for a record is answered at last.** -/
theorem Fair.leadsTo_told_of_parked {s : ℕ → World} {e : ℕ → Event} (hf : Fair s e) (r : Reply)
    (n : String) (g : ℕ) :
    LeadsTo (fun i => (s i).Parked r n g) fun i => (s i).Told r := by
  refine LeadsTo.trans ?_ (LeadsTo.next (Q := fun i => (s i).Told r))
  exact hf.leadsTo_of_stops (fun i hi => hi.stops)
    (fun i hi hreport => told_of_report (hf.run.reachable i) (hf.run.step i) hi hreport)
    fun i hi _ hno => parked_step (sound_of_reachable (hf.run.reachable i)) (hf.run.step i) hi hno

/-! ## Who waits for all -/

/-- Somebody waits on this channel in a batch that waits for `k` records. -/
def World.Batched (r : Reply) (k : ℕ) (w : World) : Prop :=
  ∃ B, w.actor.stopAll = some B ∧ r ∈ B.replies ∧ B.remaining.card = k

/-- Or in one that waits for no more than these. -/
def World.BatchedFor (r : Reply) (S : Finset String) (w : World) : Prop :=
  ∃ B, w.actor.stopAll = some B ∧ r ∈ B.replies ∧ B.remaining ⊆ S

theorem batchedFor_step {S : Finset String} (hstep : Step w ev w') (h : w.BatchedFor r S) :
    w'.BatchedFor r S ∨ w'.Told r := by
  obtain ⟨B, hB, hr, hsub⟩ := h
  rcases batch_step hstep hB hr with ⟨B', hB', hr', hsub'⟩ | htold
  · exact .inl ⟨B', hB', hr', Finset.Subset.trans hsub' hsub⟩
  · exact .inr ⟨_, htold⟩

/-- **A report leaves the batch** waiting for one less. -/
theorem batched_of_report {S : Finset String} (hw : daemon.Reachable w) (hstep : Step w ev w')
    (h : w.BatchedFor r S) (hstops : w.Stops n g) (hn : n ∈ S) (hreport : ev.ReportsFor n g) :
    w'.Told r ∨ ∃ m < S.card, w'.Batched r m := by
  rcases batchedFor_step hstep h with ⟨B', hB', hr', hsub⟩ | htold
  · refine .inr ⟨B'.remaining.card, Finset.card_lt_card ?_, B', hB', hr', rfl⟩
    refine Finset.ssubset_iff_subset_ne.mpr ⟨hsub, ?_⟩
    rintro rfl
    obtain ⟨os, code, p, leaderExit, andThen, ws, rfl, hp, rfl, hl⟩ := hstops.reported hreport
    obtain ⟨B, hB, -⟩ := h
    -- every stop ends in a park
    obtain rfl := (draining_of_sound (sound_of_reachable hw) hB).parks n p _ _ _ hp hl
    have hdraining := draining_of_sound (sound_of_reachable (hw.step hstep)) hB'
    obtain ⟨q, hq, hstop⟩ := (hdraining.remaining n).mp hn
    obtain ⟨code, hexited⟩ := ((lastWins_of_report hw hstep hp hl).parked rfl).1 q hq
    exact absurd hstop (by simp [hexited])
  · exact .inl htold

/-- **Who waits for all is answered at last.** -/
theorem Fair.leadsTo_told_of_batched {s : ℕ → World} {e : ℕ → Event} (hf : Fair s e) (r : Reply)
    (k : ℕ) : LeadsTo (fun i => (s i).Batched r k) fun i => (s i).Told r := by
  refine LeadsTo.of_rank (P := fun k i => (s i).Batched r k) (fun k i hi => ?_) k
  obtain ⟨B, hB, hr, rfl⟩ := hi
  have hdraining := draining_of_sound (sound_of_reachable (hf.run.reachable i)) hB
  obtain ⟨n, p, hn, hp, -⟩ :=
    World.pending_of_batch (sound_of_reachable (hf.run.reachable i)) hB
  obtain ⟨p', hp', hstop⟩ := (hdraining.remaining n).mp hn
  -- one of those it waits for
  have hone : LeadsTo (fun j => (s j).BatchedFor r B.remaining ∧ (s j).Stops n p'.generation)
      fun j => (s (j + 1)).Told r ∨ ∃ m < B.remaining.card, (s (j + 1)).Batched r m := by
    refine hf.leadsTo_of_stops (fun _ hj => hj.2)
      (fun j hj hreport => batched_of_report (hf.run.reachable j) (hf.run.step j) hj.1 hj.2 hn
        hreport) fun j hj hnot hno => ⟨?_, ?_⟩
    · exact (batchedFor_step (hf.run.step j) hj.1).resolve_right fun htold => hnot (.inl htold)
    · exact stops_step (sound_of_reachable (hf.run.reachable j)) (hf.run.step j) hj.2 hno
  exact hone.trans (LeadsTo.next (Q := fun j => (s j).Told r ∨ ∃ m < B.remaining.card,
    (s j).Batched r m)) i ⟨⟨B, hB, hr, Finset.Subset.refl _⟩, p', hp', rfl, hstop⟩

/-! ## Everybody -/

/-- Who is parked waits for the record. -/
theorem World.parked_of_mem {waiter : Waiter} (hs : Sound w.books w.actor.holdings)
    (h : (n, waiter) ∈ w.parkedOn r) : ∃ g, w.Parked r n g := by
  obtain ⟨p, hp, hmem, -⟩ := World.record_of_parked hs h
  refine ⟨p.generation, p, hp, rfl, waiter, hmem, ?_⟩
  obtain ⟨q, -, hq⟩ := List.mem_flatMap.mp h
  obtain ⟨waiter', hmem', heq⟩ := List.mem_map.mp hq
  obtain ⟨-, rfl⟩ := Prod.mk.inj heq
  exact beq_iff_eq.mp (List.mem_filter.mp hmem').2

/-- Who is in the batch waits for it. -/
theorem World.batched_of_mem {c : Reply} (h : c ∈ w.batched r) : ∃ k, w.Batched r k := by
  obtain ⟨hmem, hc⟩ := List.mem_filter.mp h
  obtain rfl := beq_iff_eq.mp hc
  rw [Holdings.batchReplies] at hmem
  split at hmem
  · rename_i B hB
    exact ⟨_, B, hB, hmem, rfl⟩
  · exact absurd hmem List.not_mem_nil

/-- **Everybody is answered at last**: in every fair run, every request that has been received is
answered, exactly once, at that place or a later one. -/
theorem answered_at_last {s : ℕ → World} {e : ℕ → Event} (hf : Fair s e) {i : ℕ} {r : Reply}
    (hr : r < (s i).requests) : ∃ j, i ≤ j ∧ ∃ x, (s j).answersTo r = [x] := by
  have htold : ∃ j, i ≤ j ∧ (s j).Told r := by
    rcases (answerable_of_reachable (hf.run.reachable i)).place r hr with ⟨x, hx, -⟩ |
      ⟨n, waiter, p, -, hparked, -⟩ | ⟨c, B, -, -, hbatched, -⟩
    · have hmem : x ∈ (s i).answersTo r := hx ▸ List.mem_singleton_self x
      obtain ⟨hmem, hreply⟩ := List.mem_filter.mp hmem
      exact ⟨i, le_rfl, x.2, beq_iff_eq.mp hreply ▸ hmem⟩
    · obtain ⟨g, hi⟩ := World.parked_of_mem (sound_of_reachable (hf.run.reachable i))
        (hparked ▸ List.mem_singleton_self (n, waiter))
      exact hf.leadsTo_told_of_parked r n g i hi
    · obtain ⟨k, hi⟩ := World.batched_of_mem (hbatched ▸ List.mem_singleton_self c)
      exact hf.leadsTo_told_of_batched r k i hi
  obtain ⟨j, hij, x, hx⟩ := htold
  exact ⟨j, hij, _, answersTo_of_mem (sound_of_reachable (hf.run.reachable j)) hx⟩

/-! ## A run that comes to rest -/

/-- A tick that sees nothing and finds nothing due changes nothing. -/
theorem Actor.tick_of_still {a : Actor} {os : Os}
    (hseen : a.pm.refreshExitStates os = (a.pm, false))
    (hdue : a.pm.classifyRestartCandidates = ([], [])) : a.tick os = a := by
  rw [tick, refresh, hseen, if_neg Bool.false_ne_true, scheduleRestarts, hdue]
  split
  · rfl
  · rfl

/-- **Nothing is under way**, and a tick changes nothing. -/
structure World.AtRest (u : World) (os : Os) : Prop where
  teardowns : u.actor.teardowns = []
  inFlight : u.actor.inFlight = []
  exits : os.exits = u.exits
  tick : u.actor.tick os = u.actor

theorem World.AtRest.fair {u : World} {os : Os} {ts : List (Transition World Event)}
    (h : u.AtRest os) (hw : daemon.Reachable w) (hrun : daemon.Run w ts u) :
    Fair (Machine.statesOf ts u) (Machine.eventsOf ts (.tick os)) := by
  have hrest : Step u (.tick os) (u.tick os) := .tick h.exits
  rw [World.tick, h.tick] at hrest
  refine ⟨hrun.forever hw hrest, fun t => Machine.fairTo_rest (.inr ?_),
    fun cmd => Machine.fairTo_rest (.inr ?_)⟩
  · rintro ⟨e, w', hends, hstep⟩
    cases hstep with
    | teardownDone hmem => exact absurd (h.teardowns ▸ hmem) List.not_mem_nil
    | _ => exact hends.elim
  · rintro ⟨e, w', hdelivers, hstep⟩
    cases hstep with
    | deliver hos hmem => exact absurd (h.inFlight ▸ hmem) List.not_mem_nil
    | _ => exact hdelivers.elim

namespace Swept

def spawned : World :=
  (World.new "s").receive (.quiet 7) (.spawn "srv" (some "web") none none none none none 0)

/-- A restart, and then a stop-all. -/
def asked : World := (spawned.receive (.quiet 7) (.restart "web" 1)).receive (.quiet 7) (.stopAll 2)

def torn : World := asked.finish ⟨"web", 1, some ⟨0, 7⟩, none⟩ (some 0)

def reported : World := torn.deliver (.quiet 7) (.stopFinished "web" 1 (some 0))

/-- The run, which then only ticks. -/
def steps : List (Transition World Event) :=
  [⟨asked, .teardownDone ⟨"web", 1, some ⟨0, 7⟩, none⟩ (some 0), torn⟩,
    ⟨torn, .deliver (.quiet 7) (.stopFinished "web" 1 (some 0)), reported⟩]

theorem reachable_asked : daemon.Reachable asked :=
  World.reachable_receive (World.reachable_receive (World.reachable_receive
    (World.reachable_new "s") rfl rfl) rfl rfl) rfl rfl

theorem run_steps : daemon.Run asked steps reported := by
  have htorn : Step asked (.teardownDone ⟨"web", 1, some ⟨0, 7⟩, none⟩ (some 0)) torn :=
    .teardownDone (List.mem_singleton_self _) trivial
  have hreported : Step torn (.deliver (.quiet 7) (.stopFinished "web" 1 (some 0))) reported :=
    .deliver rfl (List.mem_singleton_self _)
  exact (Machine.Run.refl.snoc (M := daemon) htorn).snoc hreported

theorem atRest : reported.AtRest (.quiet 7) :=
  ⟨rfl, rfl, rfl, Actor.tick_of_still rfl rfl⟩

/-- The restart that the stop-all superseded is answered. -/
theorem superseded_answered : ∃ j, 0 ≤ j ∧ ∃ x,
    (Machine.statesOf steps reported j).answersTo 1 = [x] :=
  answered_at_last (atRest.fair reachable_asked run_steps) (i := 0) (by decide)

end Swept

end AgentProcs
