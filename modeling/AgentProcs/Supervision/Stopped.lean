import AgentProcs.Supervision.EnableTwice
import AgentProcs.Supervision.Signals

/-!
# Supervision/Stopped — who is answered, and what is dead by then

    Stop r ──▸ r waits on the record, t has the incarnation ──t ends──▸ gone ──▸ r is answered

A `Stop` or `Restart` that finds something to tear down is parked on the record.  It stays parked
as long as that teardown is under way, whatever else is asked of the record meanwhile; so nobody is
answered before the incarnation is gone, and with it whatever has not strayed from its group.
-/

namespace AgentProcs

variable {d d' : Desk} {m : Move} {n : String} {r : Reply} {i : Incarnation}

/-- The incarnation is gone, or a teardown for the record called `n` has it, and somebody waits on
that record. -/
def Waits (d : Desk) (n : String) (r : Reply) (i : Incarnation) : Prop :=
  i ∈ d.books.gone ∨ ∃ t ∈ d.holdings.teardowns, t.name = n ∧ t.inc = some i ∧
    ∃ p, d.holdings.processes.lookup n = some p ∧ r ∈ p.life.waiters.map Waiter.reply

/-- A record that somebody waits on is stopping. -/
theorem stopping_of_waiter {p : ManagedProcess} (h : r ∈ p.life.waiters.map Waiter.reply) :
    p.life.isStopping = true := by
  by_contra hno
  rw [Life.waiters_of_not_stopping (Bool.eq_false_of_not_eq_true hno)] at h
  exact absurd h List.not_mem_nil

/-- **No report is due** for a record that a teardown is under way for. -/
theorem not_due {t : Teardown} {p : ManagedProcess} (hs : Sound d.books d.holdings)
    (ht : t ∈ d.holdings.teardowns) (hp : d.holdings.processes.lookup t.name = some p) :
    (t.name, p.generation) ∉ d.books.due := by
  intro hdue
  have hreports := hs.reports t.name t.generation
  have hunder : 0 < d.holdings.teardowns.countP (·.reportsFor t.name t.generation) :=
    List.countP_pos_iff.mpr ⟨t, ht, by simp [Teardown.reportsFor]⟩
  -- the one record that is stopping under this name and generation is this one
  obtain ⟨k, q, hq, hstops⟩ := Table.exists_of_tally_pos (w := (·.stops t.name t.generation))
    (t := d.holdings.processes) (by omega)
  obtain ⟨-, hname, hgen⟩ := ManagedProcess.stops_pos hstops
  obtain rfl : p = q := by
    rw [← Table.key_eq hq, hname, hp] at hq
    exact Option.some.inj hq
  rw [hgen] at hdue
  have hcount := List.count_pos_iff.mpr hdue
  have hone : d.holdings.processes.tally (·.stops t.name t.generation) ≤ 1 := by
    obtain ⟨l, hperm, hne⟩ := Table.exists_values_perm hp
    have hrest : l.map (·.stops t.name t.generation) = l.map fun _ => 0 :=
      List.map_congr_left fun v hv => by
        rw [ManagedProcess.stops, if_neg]
        simp [hne v hv]
    rw [Table.tally, (hperm.map _).sum_eq, List.map_cons, List.sum_cons, hrest, ManagedProcess.stops]
    split <;> simp
  omega

/-- **Who waits goes on waiting**, until the incarnation is gone. -/
theorem Waits.move (hs : Sound d.books d.holdings) (hm : Custody d m d') (h : Waits d n r i) :
    Waits d' n r i := by
  rcases h with hgone | ⟨t, ht, rfl, hi, p, hp, hr⟩
  · cases hm with
    | teardownDone => exact .inl (List.mem_append_right _ hgone)
    | _ => exact .inl hgone
  have hstop := stopping_of_waiter hr
  -- a change of another record
  have hother {H : Holdings} {k : String} (f : ManagedProcess → ManagedProcess)
      (hf : ∀ q, (f q).name = q.name) (hp : H.processes.lookup t.name = some p) (hk : k ≠ t.name) :
      (H.processes.update k f hf).lookup t.name = some p :=
    (Table.lookup_update_ne (Ne.symm hk) f hf _).trans hp
  have hexited {k : String} {q : ManagedProcess} (hq : d.holdings.processes.lookup k = some q)
      (hl : q.life.isStopping = false) : k ≠ t.name := by
    rintro rfl
    obtain rfl := Option.some.inj (hp.symm.trans hq)
    exact absurd (hstop.symm.trans hl) (by simp)
  cases hm with
  | observe =>
    refine .inr ⟨t, ht, rfl, hi, p, ?_, hr⟩
    rw [Table.lookup_map, hp]
    refine congrArg some (ManagedProcess.observeExit_of_not_running _ fun inc hl => ?_)
    exact absurd (hl ▸ hstop) (by simp)
  | @edit _ H k q f hf hq hlife =>
    by_cases hk : k = t.name
    · subst hk
      obtain rfl := Option.some.inj (hp.symm.trans hq)
      exact .inr ⟨t, ht, rfl, hi, _, Table.lookup_update_of f hf hp, hlife.symm ▸ hr⟩
    · exact .inr ⟨t, ht, rfl, hi, p, hother f hf hp hk, hr⟩
  | arm hq _ hl | exhaust hq _ hl =>
    have hk := hexited hq (by rw [hl]; rfl)
    exact .inr ⟨t, ht, rfl, hi, p, hother (ManagedProcess.withLife _) (fun _ => rfl) hp hk, hr⟩
  | start hq _ hl =>
    have hk := hexited hq hl
    exact .inr ⟨t, List.mem_cons_of_mem _ ht, rfl, hi, p,
      hother (ManagedProcess.handOver _ _) (fun _ => rfl) hp hk, hr⟩
  | @join _ H k q leaderExit was andThen ws waiter hq hl =>
    by_cases hk : k = t.name
    · subst hk
      obtain rfl := Option.some.inj (hp.symm.trans hq)
      refine .inr ⟨t, ht, rfl, hi, _, Table.lookup_update_of (ManagedProcess.withLife _)
        (fun _ => rfl) hp, ?_⟩
      rw [hl] at hr
      change r ∈ (ws ++ waiter.toList).map Waiter.reply
      rw [List.map_append]
      exact List.mem_append_left _ hr
    · exact .inr ⟨t, ht, rfl, hi, p, hother (ManagedProcess.withLife _) (fun _ => rfl) hp hk, hr⟩
  | @park b H k q _ _ _ hq =>
    have hk : k ≠ t.name := by
      rintro rfl
      exact not_due hs ht hq (List.mem_cons_self ..)
    exact .inr ⟨t, ht, rfl, hi, p, hother (ManagedProcess.withLife _) (fun _ => rfl) hp hk, hr⟩
  | @relaunch b H k q _ _ _ _ f hf hq | @fail b H k q _ _ _ _ f hf hq =>
    have hk : k ≠ t.name := by
      rintro rfl
      exact not_due hs ht hq (List.mem_cons_self ..)
    exact .inr ⟨t, ht, rfl, hi, p, hother f hf hp hk, hr⟩
  | @create _ _ q _ hfresh =>
    refine .inr ⟨t, ht, rfl, hi, p, ?_, hr⟩
    rw [Table.lookup_insert, if_neg, hp]
    rintro hname
    exact absurd (hp.symm.trans (hname ▸ hfresh)) (by simp)
  | clear hidle => exact absurd (hstop.symm.trans (hidle _ p hp).2) (by simp)
  | @teardownDone _ _ t' =>
    by_cases htt : t' = t
    · exact .inl (List.mem_append_left _ (Option.mem_toList.mpr (htt ▸ hi)))
    · exact .inr ⟨t, (List.mem_erase_of_ne (Ne.symm htt)).mpr ht, rfl, hi, p, hp, hr⟩
  | _ => exact .inr ⟨t, ht, rfl, hi, p, hp, hr⟩

namespace World

variable {w w' u : World} {ts : List (Transition World Event)} {os : Os} {target : String}
  {p : ManagedProcess} {ans : Answer}

/-- The request asks for the end of what the target's record holds. -/
def Ends (w : World) (target : String) (r : Reply) : PmCommand → Prop
  | .stop target' r' => target' = target ∧ r' = r
  | .restart target' r' => target' = target ∧ r' = r ∧ w.actor.stopAll = none
  | _ => False

/-- Who asked waits on the record, or the record has nothing that could be torn down. -/
def Settles (r : Reply) (q : ManagedProcess) : Prop :=
  r ∈ q.life.waiters.map Waiter.reply ∨ (q.life.isStopping = false ∧ q.life.inc = none)

end World

/-! ## Who is told -/

section Told

variable {h₀ h h' : Host} {us vs ts : List (Transition Host HostEvent)} {e : HostEvent}
  {τ σ : Transition Host HostEvent} {os : Os} {cmd : PmCommand} {target : String}
  {p : ManagedProcess} {ans : Answer}

end Told

/-! ## All stopped -/

namespace AllDown

open Restarted (running first init_start)

def stopping : Host :=
  { running with world := running.world.receive (.quiet 7) (.stopAll 1) }

def teardown : Teardown := ⟨"web", 1, some first, none⟩

def terminated : Host := stopping.setStage first (.terminated none)

def killed : Host :=
  { terminated.setStage first (.killed none) with table := terminated.table.kill 1000 7 }

/-- The leader is not seen to exit. -/
def waited : Host := killed.setStage first (.waited (some KILLED))

def reported : Host := { waited with world := waited.world.finish teardown (some KILLED) }

def stopped : Host := { reported with
  world := reported.world.deliver (.quiet 7) (.stopFinished "web" 1 (some KILLED)) }

end AllDown

end AgentProcs
