import AgentProcs.Supervision.Ownership

/-!
# Supervision/Replies — where every reply channel is

    request ──▸ answered
       ├──▸ parked on a stopping record ──report──▸ answered
       └──▸ in the stop-all batch ──last report──▸ answered

The reply ledger, read off: a request that was received is answered once, or its channel is kept in
one place that a pending report will empty.  When no report is pending, everyone has been answered.
-/

namespace AgentProcs

namespace World

/-- The answers sent on a channel. -/
def answersTo (w : World) (r : Reply) : List (Reply × Answer) :=
  w.actor.answers.filter (·.1 == r)

/-- The waiters on a channel, each with the name of the record it is parked on. -/
def parkedOn (w : World) (r : Reply) : List (String × Waiter) :=
  w.actor.pm.processes.values.flatMap fun p =>
    (p.life.waiters.filter (·.reply == r)).map fun waiter => (p.name, waiter)

/-- The places of a channel in the running batch. -/
def batched (w : World) (r : Reply) : List Reply := w.actor.holdings.batchReplies.filter (· == r)

variable {w : World}

/-- The reply ledger, read off the lists. -/
theorem length_channels (hs : Sound w.books w.actor.holdings) (r : Reply) :
    (w.answersTo r).length + (w.parkedOn r).length + (w.batched r).length =
      if r < w.requests then 1 else 0 := by
  have hreplies := hs.replies r
  have howed : w.actor.pm.processes.tally (·.owes r) = (w.parkedOn r).length := by
    rw [parkedOn, List.length_flatMap, Table.tally]
    refine congrArg List.sum (List.map_congr_left fun p _ => ?_)
    rw [ManagedProcess.owes, List.length_map, ← List.countP_eq_length_filter, List.count,
      List.countP_map]
    rfl
  rw [answersTo, batched, ← List.countP_eq_length_filter, ← List.countP_eq_length_filter, ← howed]
  exact hreplies

/-- A waiter is parked on a stopping record, whose report is pending. -/
theorem record_of_parked (hs : Sound w.books w.actor.holdings) {r : Reply} {n : String}
    {waiter : Waiter} (h : (n, waiter) ∈ w.parkedOn r) :
    ∃ p, w.record n = some p ∧ waiter ∈ p.life.waiters ∧ w.pendingReports n p.generation = 1 := by
  obtain ⟨p, hp, hmem⟩ := List.mem_flatMap.mp h
  obtain ⟨waiter, hw, heq⟩ := List.mem_map.mp hmem
  obtain ⟨rfl, rfl⟩ := Prod.mk.inj heq
  have hw' : waiter ∈ p.life.waiters := List.mem_of_mem_filter hw
  have hrec : w.record p.name = some p := Table.mem_values.mp hp
  refine ⟨p, hrec, hw', ?_⟩
  rw [pendingReports_record hs hrec, if_pos]
  by_contra hstop
  rw [Life.waiters_of_not_stopping (Bool.eq_false_of_not_eq_true hstop)] at hw'
  exact absurd hw' List.not_mem_nil

/-- A running batch waits for a pending report. -/
theorem pending_of_batch (hs : Sound w.books w.actor.holdings) {B : StopAllBatch}
    (hB : w.actor.stopAll = some B) :
    ∃ n p, n ∈ B.remaining ∧ w.record n = some p ∧ w.pendingReports n p.generation = 1 := by
  obtain ⟨⟨n, hn⟩, hmem, -⟩ := hs.batch B hB
  obtain ⟨p, hp, hstop⟩ := ((hmem n).mp hn).resolve_left List.not_mem_nil
  exact ⟨n, p, hn, hp, by rw [pendingReports_record hs hp, if_pos hstop]⟩

end World

/-- Every request is answered or will be. -/
structure Answerable (w : World) : Prop where
  /-- A request received is answered once, or parked once on a stopping record whose report is
  pending, or once in a batch that still waits for somebody. -/
  place : ∀ r < w.requests,
    (∃ x, w.answersTo r = [x] ∧ w.parkedOn r = [] ∧ w.batched r = []) ∨
    (∃ n waiter p, w.answersTo r = [] ∧ w.parkedOn r = [(n, waiter)] ∧ w.batched r = [] ∧
      w.record n = some p ∧ waiter ∈ p.life.waiters ∧ w.pendingReports n p.generation = 1) ∨
    (∃ s B, w.answersTo r = [] ∧ w.parkedOn r = [] ∧ w.batched r = [s] ∧
      w.actor.stopAll = some B ∧ B.remaining.Nonempty)
  /-- Once the pending teardowns have reported, nobody is left hanging. -/
  answered : (∀ n g, w.pendingReports n g = 0) → ∀ r < w.requests, ∃ x, w.answersTo r = [x]

/-- **No reply is lost and none is sent twice**, in every reachable state. -/
theorem answerable_of_reachable {w : World} (h : daemon.Reachable w) : Answerable w := by
  have hs := sound_of_reachable h
  have hplace : ∀ r < w.requests,
      (∃ x, w.answersTo r = [x] ∧ w.parkedOn r = [] ∧ w.batched r = []) ∨
      (∃ n waiter p, w.answersTo r = [] ∧ w.parkedOn r = [(n, waiter)] ∧ w.batched r = [] ∧
        w.record n = some p ∧ waiter ∈ p.life.waiters ∧ w.pendingReports n p.generation = 1) ∨
      (∃ s B, w.answersTo r = [] ∧ w.parkedOn r = [] ∧ w.batched r = [s] ∧
        w.actor.stopAll = some B ∧ B.remaining.Nonempty) := by
    intro r hr
    have hsum := World.length_channels hs r
    rw [if_pos hr] at hsum
    rcases hans : w.answersTo r with _ | ⟨x, xs⟩
    · rcases hpark : w.parkedOn r with _ | ⟨⟨n, waiter⟩, l⟩
      · obtain ⟨s, hbatched⟩ := List.length_eq_one_iff.mp (by simpa [hans, hpark] using hsum)
        have hmem : s ∈ w.actor.holdings.batchReplies :=
          List.mem_of_mem_filter (hbatched ▸ List.mem_singleton_self s : s ∈ w.batched r)
        cases hB : w.actor.stopAll with
        | none => simp [Holdings.batchReplies, Actor.holdings, hB] at hmem
        | some B => exact .inr (.inr ⟨s, B, rfl, rfl, hbatched, rfl, (hs.batch B hB).1⟩)
      · have hrest : l.length = 0 ∧ (w.batched r).length = 0 := by
          rw [hans, hpark] at hsum
          simp only [List.length_nil, List.length_cons] at hsum
          omega
        obtain rfl := List.length_eq_zero_iff.mp hrest.1
        have hparked : (n, waiter) ∈ w.parkedOn r := hpark ▸ List.mem_singleton_self _
        obtain ⟨p, hp⟩ := World.record_of_parked hs hparked
        exact .inr (.inl ⟨n, waiter, p, rfl, rfl, List.length_eq_zero_iff.mp hrest.2, hp⟩)
    · have hrest : xs.length = 0 ∧ (w.parkedOn r).length = 0 ∧ (w.batched r).length = 0 := by
        rw [hans] at hsum
        simp only [List.length_cons] at hsum
        omega
      obtain rfl := List.length_eq_zero_iff.mp hrest.1
      exact .inl ⟨x, rfl, List.length_eq_zero_iff.mp hrest.2.1,
        List.length_eq_zero_iff.mp hrest.2.2⟩
  refine ⟨hplace, fun hquiet r hr => ?_⟩
  rcases hplace r hr with ⟨x, hx, -⟩ | ⟨n, waiter, p, -, -, -, -, -, hpending⟩ |
    ⟨s, B, -, -, -, hB, -⟩
  · exact ⟨x, hx⟩
  · exact absurd (hquiet n p.generation) (by omega)
  · obtain ⟨n, p, -, -, hpending⟩ := World.pending_of_batch hs hB
    exact absurd (hquiet n p.generation) (by omega)

/-- Two concurrent stops: both are parked on the one teardown, and its report answers both. -/
theorem answerable_concurrentStops :
    let spawned := (World.new "s").receive (.quiet 7)
      (.spawn "srv" (some "web") none none none none none 0)
    let stopping := (spawned.receive (.quiet 7) (.stop "web" 1)).receive (.quiet 7) (.stop "web" 2)
    let torn := stopping.finish ⟨"web", 1, some ⟨0, 7⟩, none⟩ (some 0)
    let reported := torn.deliver (.quiet 7) (.stopFinished "web" 1 (some 0))
    stopping.parkedOn 1 = [("web", .stop 1)] ∧ stopping.parkedOn 2 = [("web", .stop 2)] ∧
      reported.answersTo 2 = [(2, .response (stopped "web"))] ∧ Answerable reported := by
  refine ⟨by decide, by decide, by decide, answerable_of_reachable ?_⟩
  refine World.reachable_deliver (World.reachable_finish ?_ ?_ trivial) rfl ?_
  · exact World.reachable_receive (World.reachable_receive (World.reachable_receive
      (World.reachable_new "s") rfl rfl) rfl rfl) rfl rfl
  · exact List.mem_singleton_self _
  · exact List.mem_singleton_self _

end AgentProcs
