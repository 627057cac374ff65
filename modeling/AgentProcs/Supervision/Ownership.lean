import AgentProcs.Supervision.Refinement

/-!
# Supervision/Ownership — where every incarnation is

    record ──start_teardown──▸ teardown ──ends──▸ torn down

Read off the ledgers: an incarnation that was ever spawned is in exactly one of these places, and
stays accounted for under its record's name and generation while a teardown has it.  What follows
is that nothing drops an incarnation on the way, and that the arms the code calls unreachable are.
-/

namespace AgentProcs

namespace World

/-- The records that hold the `k`-th incarnation. -/
def holders (w : World) (k : ℕ) : List ManagedProcess :=
  w.actor.pm.processes.values.filter fun p => p.life.inc.any (·.isSerial k)

/-- The teardowns that own it. -/
def owners (w : World) (k : ℕ) : List Teardown := w.actor.teardowns.filter (·.owns k)

/-- Its entries among the incarnations that are gone. -/
def graves (w : World) (k : ℕ) : List Incarnation := w.tornDown.filter (·.isSerial k)

/-- How many reports for `(n, g)` are pending: teardowns under way, and `StopFinished` on the way. -/
def pendingReports (w : World) (n : String) (g : ℕ) : ℕ :=
  w.actor.teardowns.countP (·.reportsFor n g) + w.actor.inFlight.countP (·.reportsFor n g)

variable {w : World}

/-- The custody ledger, read off the lists. -/
theorem length_places (hs : Sound w.books w.actor.holdings) (k : ℕ) :
    (w.holders k).length + (w.owners k).length + (w.graves k).length =
      if k < w.actor.pm.spawned then 1 else 0 := by
  have hcustody := hs.custody k
  have hheld : w.actor.pm.processes.tally (·.holds k) = (w.holders k).length :=
    (Table.tally_eq_countP _ _).trans List.countP_eq_length_filter
  rw [owners, graves, ← List.countP_eq_length_filter, ← List.countP_eq_length_filter, ← hheld]
  exact hcustody

/-- **A pending report is for a stopping record**, and every stopping record has exactly one. -/
theorem pendingReports_eq (hs : Sound w.books w.actor.holdings) (n : String) (g : ℕ) :
    w.pendingReports n g = w.actor.pm.processes.tally (·.stops n g) := hs.reports n g

/-- A record alone decides how many records stop under its name. -/
theorem tally_stops {n : String} {p : ManagedProcess} (hp : w.record n = some p) :
    w.actor.pm.processes.tally (·.stops n p.generation) = p.stops n p.generation := by
  obtain ⟨l, hperm, hne⟩ := Table.exists_values_perm hp
  have hrest : l.map (·.stops n p.generation) = l.map fun _ => 0 :=
    List.map_congr_left fun q hq => by
      rw [ManagedProcess.stops, if_neg]
      simp [hne q hq]
  rw [Table.tally, (hperm.map _).sum_eq, List.map_cons, List.sum_cons, hrest]
  simp

/-- Pending reports of a record: one if it is stopping, none otherwise. -/
theorem pendingReports_record (hs : Sound w.books w.actor.holdings) {n : String}
    {p : ManagedProcess} (hp : w.record n = some p) :
    w.pendingReports n p.generation = if p.life.isStopping then 1 else 0 := by
  have hname : p.name = n := Table.key_eq hp
  rw [pendingReports_eq hs, tally_stops hp, ManagedProcess.stops]
  simp [hname]

/-- The record of a teardown under way. -/
theorem record_of_pending (hs : Sound w.books w.actor.holdings) {n : String} {g : ℕ}
    (h : 0 < w.pendingReports n g) :
    ∃ p, w.record n = some p ∧ p.generation = g ∧ p.life.isStopping = true := by
  rw [pendingReports_eq hs] at h
  obtain ⟨k, p, hp, hw⟩ := Table.exists_of_tally_pos h
  obtain ⟨hstop, rfl, rfl⟩ := ManagedProcess.stops_pos hw
  rw [← Table.key_eq hp] at hp
  exact ⟨p, hp, rfl, hstop⟩

theorem record_of_teardown (hs : Sound w.books w.actor.holdings) {t : Teardown}
    (ht : t ∈ w.actor.teardowns) :
    ∃ p, w.record t.name = some p ∧ p.generation = t.generation ∧ p.life.isStopping = true := by
  refine record_of_pending hs (Nat.add_pos_left (List.countP_pos_iff.mpr ⟨t, ht, ?_⟩) _)
  simp [Teardown.reportsFor]

end World

/-- Every incarnation is accounted for. -/
structure Accounted (w : World) : Prop where
  /-- Each incarnation is held by one record, or owned by one teardown whose record is stopping
  under the same name and generation, or gone. -/
  place : ∀ k < w.actor.pm.spawned,
    (∃ p, w.holders k = [p] ∧ w.owners k = [] ∧ w.graves k = []) ∨
    (∃ t p, w.holders k = [] ∧ w.owners k = [t] ∧ w.graves k = [] ∧
      w.record t.name = some p ∧ p.generation = t.generation ∧ p.life.isStopping = true) ∨
    (∃ i, w.holders k = [] ∧ w.owners k = [] ∧ w.graves k = [i])
  /-- A record is stopping exactly when one report for it is pending. -/
  report : ∀ n p, w.record n = some p →
    (p.life.isStopping = true ↔ w.pendingReports n p.generation = 1)
  /-- An exited record keeps its leader exactly when it exited by itself. -/
  zombie : ∀ n p code why inc timer, w.record n = some p → p.life = .exited code why inc timer →
    (inc.isSome ↔ why = .natural ∨ why = .exhausted)
  /-- No `respawn` overwrote an incarnation, and no `clear` dropped one. -/
  kept : w.actor.pm.dropped = []
  /-- No arm called unreachable was reached. -/
  calm : w.actor.panicked = false

/-- **Ownership of incarnations**, in every reachable state. -/
theorem accounted_of_reachable {w : World} (h : daemon.Reachable w) : Accounted w := by
  have hs := sound_of_reachable h
  refine ⟨fun k hk => ?_, fun n p hp => ?_, fun n p code why inc timer hp hlife => ?_, hs.dropped,
    hs.calm⟩
  · have hsum := World.length_places hs k
    rw [if_pos hk] at hsum
    rcases hheld : w.holders k with _ | ⟨p, _ | ⟨q, l⟩⟩
    · rcases howned : w.owners k with _ | ⟨t, _ | ⟨u, l⟩⟩
      · obtain ⟨i, hi⟩ := List.length_eq_one_iff.mp (by simpa [hheld, howned] using hsum)
        exact .inr (.inr ⟨i, rfl, rfl, hi⟩)
      · have hgone := List.length_eq_zero_iff.mp (by simpa [hheld, howned] using hsum)
        have ht : t ∈ w.actor.teardowns :=
          List.mem_of_mem_filter (howned ▸ List.mem_singleton_self t : t ∈ w.owners k)
        obtain ⟨p, hp⟩ := World.record_of_teardown hs ht
        exact .inr (.inl ⟨t, p, rfl, rfl, hgone, hp⟩)
      · rw [hheld, howned] at hsum
        simp at hsum
        omega
    · have hnone : (w.owners k).length = 0 ∧ (w.graves k).length = 0 := by
        rw [hheld] at hsum
        simp only [List.length_singleton] at hsum
        omega
      exact .inl ⟨p, rfl, List.length_eq_zero_iff.mp hnone.1, List.length_eq_zero_iff.mp hnone.2⟩
    · rw [hheld] at hsum
      simp only [List.length_cons] at hsum
      omega
  · rw [World.pendingReports_record hs hp]
    cases p.life.isStopping <;> simp
  · exact (hs.records n p hp).zombie code why inc timer hlife

/-- So it is after a spawn and a stop: the incarnation is with its teardown. -/
theorem accounted_stopping :
    let spawned := (World.new "s").receive (.quiet 7)
      (.spawn "srv" (some "web") none none none none none 0)
    let stopped := spawned.receive (.quiet 7) (.stop "web" 1)
    stopped.owners 0 = [⟨"web", 1, some ⟨0, 7⟩, none⟩] ∧ Accounted stopped :=
  ⟨by decide, accounted_of_reachable
    (World.reachable_receive (World.reachable_receive (World.reachable_new "s") rfl rfl) rfl rfl)⟩

end AgentProcs
