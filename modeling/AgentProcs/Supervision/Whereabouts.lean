import AgentProcs.Supervision.CrashBudget
import AgentProcs.Supervision.LastCommand
import AgentProcs.Supervision.Ownership
import AgentProcs.Supervision.StopAll

/-!
# Supervision/Whereabouts — how an incarnation gets from one place to the next

    spawned ──▸ held by the record n ──▸ owned by a teardown for n ──▸ torn down

Ownership counts the places of an incarnation.  Here one step is followed: what a record holds
afterwards it held before, unless it is new; what a teardown owns it owned, or it was held by the
record of that name.  So an incarnation never changes its record.
-/

namespace AgentProcs

theorem eq_of_mem_of_length_le_one {α : Type*} {l : List α} {a b : α} (h : l.length ≤ 1)
    (ha : a ∈ l) (hb : b ∈ l) : a = b := by
  match l with
  | [] => exact absurd ha List.not_mem_nil
  | [x] => exact (List.mem_singleton.mp ha).trans (List.mem_singleton.mp hb).symm
  | _ :: _ :: _ => simp at h

/-- The record called `n` holds the incarnation. -/
def Holdings.Holds (H : Holdings) (n : String) (i : Incarnation) : Prop :=
  ∃ p, H.processes.lookup n = some p ∧ p.life.inc = some i

/-! ## One move -/

variable {d d' : Desk} {m : Move} {n : String} {i j : Incarnation} {t : Teardown}

/-- What a move makes of a record holds what the record held, unless it is relaunched. -/
theorem Turn.inc {p q : ManagedProcess} (h : Turn n m p q) (hm : ∀ reason, m ≠ .relaunch n reason)
    (hi : q.life.inc = some i) : p.life.inc = some i := by
  cases h with
  | same => exact hi
  | observe => exact (p.observeExit_inc _) ▸ hi
  | edit hlife => exact hlife ▸ hi
  | arm hlife | exhaust hlife => exact (congrArg Life.inc hlife).trans hi
  | start | join | park => exact absurd hi (by simp [ManagedProcess.handOver, ManagedProcess.withLife])
  | relaunch => exact absurd rfl (hm _)
  | fail _ hfail => exact absurd ((congrArg Life.inc hfail).symm.trans hi) (by simp)

/-- **What a record holds after a move** it held before, or the move spawned it. -/
theorem Custody.holds (hm : Custody d m d') (h : d'.holdings.Holds n i) :
    d.holdings.Holds n i ∨ i.serial = d.holdings.spawned := by
  obtain ⟨q, hq, hi⟩ := h
  by_cases hlaunch : ∃ reason, m = .relaunch n reason
  · obtain ⟨reason, rfl⟩ := hlaunch
    cases hm with
    | relaunch hf hp _ _ hrun =>
      obtain rfl := Option.some.inj ((Table.lookup_update_of _ hf hp).symm.trans hq)
      rw [hrun] at hi
      exact .inr (congrArg Incarnation.serial (Option.some.inj hi)).symm
  rcases hm.record hq with ⟨p, hp, hturn⟩ | ⟨rfl, -, -, inc, hrun⟩
  · exact .inl ⟨p, hp, hturn.inc (fun reason he => hlaunch ⟨reason, he⟩) hi⟩
  · cases hm with
    | create hfresh _ hlife =>
      obtain rfl := Option.some.inj (((Table.lookup_insert ..).trans (if_pos rfl)).symm.trans hq)
      rw [hlife] at hi
      exact .inr (congrArg Incarnation.serial (Option.some.inj hi)).symm

/-- **A teardown after a move** was under way, or the move started it, for a record and with what it
held. -/
theorem Custody.teardown (hm : Custody d m d') (ht : t ∈ d'.holdings.teardowns) :
    t ∈ d.holdings.teardowns ∨ ∃ p, d.holdings.processes.lookup p.name = some p ∧ p.teardown = t := by
  cases hm with
  | start hp =>
    rcases List.mem_cons.mp ht with rfl | hold
    · exact .inr ⟨_, Table.key_eq hp ▸ hp, rfl⟩
    · exact .inl hold
  | teardownDone => exact .inl (List.mem_of_mem_erase ht)
  | _ => exact .inl ht

theorem Custody.spawned_le (hm : Custody d m d') : d.holdings.spawned ≤ d'.holdings.spawned := by
  cases hm with
  | relaunch | create => exact Nat.le_succ _
  | _ => exact le_rfl

/-! ## A step -/

/-- Where the incarnations of `d'` come from. -/
structure Whence (d d' : Desk) : Prop where
  spawned_le : d.holdings.spawned ≤ d'.holdings.spawned
  holds : ∀ n i, d'.holdings.Holds n i → d.holdings.Holds n i ∨ d.holdings.spawned ≤ i.serial
  teardowns : ∀ t ∈ d'.holdings.teardowns, t ∈ d.holdings.teardowns ∨
    ∀ i, t.inc = some i → d.holdings.Holds t.name i ∨ d.holdings.spawned ≤ i.serial

theorem Moves.whence {G : Move → Prop} (h : Moves G d d') : Whence d d' := by
  refine h.invariant ⟨le_rfl, fun _ _ => .inl, fun _ => .inl⟩ fun d₁ m d₂ hd hm _ =>
    ⟨hd.spawned_le.trans hm.spawned_le, fun n i hi => ?_, fun t ht => ?_⟩
  · rcases hm.holds hi with hold | hnew
    · exact hd.holds n i hold
    · exact .inr (hnew ▸ hd.spawned_le)
  · rcases hm.teardown ht with hold | ⟨p, hp, rfl⟩
    · exact hd.teardowns t hold
    · exact .inr fun i hi => hd.holds p.name i ⟨p, hp, hi⟩

/-! ## At most one launch a step -/

namespace Actor

theorem spawned_setupWatcher (os : Os) (name : String) (a : Actor) :
    (a.setupWatcher os name).1.pm.spawned = a.pm.spawned := by
  rw [setupWatcher]
  split
  · rfl
  split
  · rfl
  · cases os.watch <;> rfl

theorem spawned_annotate (name msg : String) (a : Actor) :
    (a.annotate name msg).pm.spawned = a.pm.spawned :=
  congrArg ProcessManager.spawned (pm_annotate name msg a)

theorem spawned_respawn_le (os : Os) (name : String) (reason : RespawnReason) (code : Option ℤ)
    (a : Actor) : (a.respawn os name reason code).1.pm.spawned ≤ a.pm.spawned + 1 := by
  rcases h : (a.settleCount name reason).pm.respawn os name (reason != .manual) with ⟨pm, resp⟩
  refine respawn_rule (P := fun a' => a'.pm.spawned ≤ a.pm.spawned + 1) code h (fun _ => ?_)
    (fun a' msg _ hle => (spawned_annotate name msg a').trans_le hle)
    fun a' _ hle => (spawned_setupWatcher os name a').trans_le hle
  rw [ProcessManager.respawn] at h
  split at h
  · obtain ⟨rfl, -⟩ := Prod.mk.inj h
    exact Nat.le_succ _
  dsimp only at h
  split at h
  · obtain ⟨rfl, -⟩ := Prod.mk.inj h
    exact le_rfl
  · obtain ⟨rfl, -⟩ := Prod.mk.inj h
    exact Nat.le_succ _

theorem spawned_finishTeardown_le (os : Os) (name : String) (generation : ℕ) (code : Option ℤ)
    (a : Actor) : (a.finishTeardown os name generation code).pm.spawned ≤ a.pm.spawned + 1 := by
  have htold (resp : Response) (ws : List Waiter) (a' : Actor) :
      (a'.told name resp ws).pm.spawned = a'.pm.spawned := by
    rcases pm_told name resp ws a' with hsame | hclear
    · rw [hsame]
    · rw [hclear]
      rfl
  rw [finishTeardown]
  split
  · exact Nat.le_succ _
  split
  · dsimp only
    split
    · rename_i andThen ws _
      cases andThen with
      | park => exact (htold _ ws _).trans_le (Nat.le_succ _)
      | respawn reason => exact (htold _ ws _).trans_le (spawned_respawn_le ..)
    · exact Nat.le_succ _
  · exact Nat.le_succ _

theorem spawned_handleSpawn_le (os : Os) (command : String) (name cwd : Option String)
    (env : Option (List (String × String))) (port : Option ℕ) (restart : Option RestartPolicy)
    (watch : Option WatchConfig) (reply : Reply) (a : Actor) :
    (a.handleSpawn os command name cwd env port restart watch reply).pm.spawned ≤
      a.pm.spawned + 1 := by
  rcases handleSpawn_cases os command name cwd env port restart watch reply a with
    ⟨-, hspawn⟩ | ⟨-, ⟨pm, code, message, herror, hspawn⟩ |
      ⟨pm, p, id, pid, port', url, url', -, hcreated, -, hspawn⟩⟩ <;> rw [hspawn]
  · exact Nat.le_succ _
  · change (publishProxyState { a with pm }).pm.spawned ≤ _
    rw [pm_publishProxyState]
    exact (spawnProcess_of_error herror).2.2.2.1.trans_le (Nat.le_succ _)
  · change (publishProxyState (outfit ..)).pm.spawned ≤ _
    rw [pm_publishProxyState]
    refine outfit_rule (P := fun a' => a'.pm.spawned ≤ a.pm.spawned + 1)
      (fun _ => hcreated.spawned.le) (fun _ => (spawned_setupWatcher ..).trans_le hcreated.spawned.le)
      fun a' msg _ hle => (spawned_annotate p.name msg a').trans_le hle

end Actor

namespace World

variable {w w' : World} {e : Event}

/-- **A step launches at most one incarnation.** -/
theorem spawned_step_le (hs : Sound w.books w.actor.holdings) (hstep : Step w e w') :
    w'.actor.pm.spawned ≤ w.actor.pm.spawned + 1 := by
  have hidle (hno : ∀ n k, ¬ e.launches w n k) : w'.actor.pm.spawned ≤ w.actor.pm.spawned + 1 :=
    ((step_moves hs hstep).spawned_eq hno).trans_le (Nat.le_succ _)
  cases hstep with
  | @client os cmd =>
    cases cmd with
    | spawn => exact Actor.spawned_handleSpawn_le ..
    | _ => exact hidle fun _ _ => id
  | @deliver os cmd =>
    cases cmd with
    | stopFinished => exact Actor.spawned_finishTeardown_le ..
    | _ => exact hidle fun _ _ => id
  | _ => exact hidle fun _ _ => id

/-- The record called `n` holds the incarnation. -/
def Holds (w : World) (n : String) (i : Incarnation) : Prop := w.actor.holdings.Holds n i

/-- A record, a teardown or the past has the incarnation. -/
def Keeps (w : World) (i : Incarnation) : Prop :=
  (∃ n, w.Holds n i) ∨ (∃ t ∈ w.actor.teardowns, t.inc = some i) ∨ i ∈ w.tornDown

theorem whence_step (hs : Sound w.books w.actor.holdings) (hstep : Step w e w') :
    Whence w.desk w'.desk := (step_moves hs hstep).whence

theorem Holds.mem_holders (h : w.Holds n i) :
    ∃ p ∈ w.holders i.serial, w.record n = some p ∧ p.life.inc = some i := by
  obtain ⟨p, hp, hi⟩ := h
  have hmem : p ∈ w.actor.pm.processes.values := Table.mem_values.mpr (Table.key_eq hp ▸ hp)
  refine ⟨p, List.mem_filter.mpr ⟨hmem, ?_⟩, hp, hi⟩
  rw [hi]
  exact beq_self_eq_true i.serial

theorem mem_owners (ht : t ∈ w.actor.teardowns) (hi : t.inc = some i) : t ∈ w.owners i.serial := by
  refine List.mem_filter.mpr ⟨ht, ?_⟩
  rw [Teardown.owns, hi]
  exact beq_self_eq_true i.serial

theorem mem_graves (hi : i ∈ w.tornDown) : i ∈ w.graves i.serial :=
  List.mem_filter.mpr ⟨hi, beq_self_eq_true i.serial⟩

/-- An incarnation has one place. -/
theorem length_places_le (hs : Sound w.books w.actor.holdings) (k : ℕ) :
    (w.holders k).length + (w.owners k).length + (w.graves k).length ≤ 1 := by
  rw [length_places hs]
  split <;> omega

theorem Holds.name_eq {n' : String} (hs : Sound w.books w.actor.holdings) (h : w.Holds n i)
    (h' : w.Holds n' i) : n = n' := by
  obtain ⟨p, hmem, hp, -⟩ := h.mem_holders
  obtain ⟨q, hmem', hq, -⟩ := h'.mem_holders
  have hlen := length_places_le hs i.serial
  obtain rfl := eq_of_mem_of_length_le_one (by omega) hmem hmem'
  exact (Table.key_eq hp).symm.trans (Table.key_eq hq)

theorem Holds.not_owned (hs : Sound w.books w.actor.holdings) (h : w.Holds n i)
    (ht : t ∈ w.actor.teardowns) : t.inc ≠ some i := by
  intro hi
  obtain ⟨p, hmem, -⟩ := h.mem_holders
  have hlen := length_places_le hs i.serial
  have hheld := List.length_pos_of_mem hmem
  have howned := List.length_pos_of_mem (mem_owners ht hi)
  omega

theorem Holds.not_gone (hs : Sound w.books w.actor.holdings) (h : w.Holds n i) : i ∉ w.tornDown := by
  intro hi
  obtain ⟨p, hmem, -⟩ := h.mem_holders
  have hlen := length_places_le hs i.serial
  have hheld := List.length_pos_of_mem hmem
  have hgone := List.length_pos_of_mem (mem_graves hi)
  omega

theorem teardown_eq {t' : Teardown} (hs : Sound w.books w.actor.holdings)
    (ht : t ∈ w.actor.teardowns) (hi : t.inc = some i) (ht' : t' ∈ w.actor.teardowns)
    (hi' : t'.inc = some i) : t = t' := by
  have hlen := length_places_le hs i.serial
  exact eq_of_mem_of_length_le_one (by omega) (mem_owners ht hi) (mem_owners ht' hi')

theorem not_gone_of_owned (hs : Sound w.books w.actor.holdings) (ht : t ∈ w.actor.teardowns)
    (hi : t.inc = some i) : i ∉ w.tornDown := by
  intro hgone
  have hlen := length_places_le hs i.serial
  have howned := List.length_pos_of_mem (mem_owners ht hi)
  have := List.length_pos_of_mem (mem_graves hgone)
  omega

/-- All the incarnations there are. -/
def incarnations (w : World) : List Incarnation :=
  w.actor.pm.processes.values.filterMap (·.life.inc) ++ w.actor.teardowns.filterMap (·.inc) ++
    w.tornDown

theorem mem_incarnations : i ∈ w.incarnations ↔ w.Keeps i := by
  rw [incarnations, List.mem_append, List.mem_append, List.mem_filterMap, List.mem_filterMap,
    or_assoc]
  refine or_congr ⟨?_, ?_⟩ Iff.rfl
  · rintro ⟨p, hp, hi⟩
    exact ⟨p.name, p, Table.mem_values.mp hp, hi⟩
  · rintro ⟨n, p, hp, hi⟩
    exact ⟨p, Table.mem_values.mpr (Table.key_eq hp ▸ hp), hi⟩

theorem countP_incarnations (hs : Sound w.books w.actor.holdings) (k : ℕ) :
    w.incarnations.countP (·.isSerial k) = if k < w.actor.pm.spawned then 1 else 0 := by
  have hany (o : Option Incarnation) :
      (o.map (·.isSerial k)).getD false = o.any (·.isSerial k) := by
    cases o <;> rfl
  simp only [← length_places hs k, incarnations, List.countP_append, List.countP_filterMap, holders,
    owners, graves, ← List.countP_eq_length_filter, hany, Teardown.owns]

theorem Keeps.serial_lt (hs : Sound w.books w.actor.holdings) (h : w.Keeps i) :
    i.serial < w.actor.pm.spawned := by
  have hcount := countP_incarnations hs i.serial
  have hpos : 0 < w.incarnations.countP (·.isSerial i.serial) :=
    List.countP_pos_iff.mpr ⟨i, mem_incarnations.mpr h, beq_self_eq_true i.serial⟩
  split at hcount
  · assumption
  · omega

/-- **An incarnation is known by its serial number.** -/
theorem Keeps.eq (hs : Sound w.books w.actor.holdings) (hi : w.Keeps i) (hj : w.Keeps j)
    (h : i.serial = j.serial) : i = j := by
  have hlen : (w.incarnations.filter (·.isSerial i.serial)).length ≤ 1 := by
    rw [← List.countP_eq_length_filter, countP_incarnations hs]
    split <;> omega
  exact eq_of_mem_of_length_le_one hlen
    (List.mem_filter.mpr ⟨mem_incarnations.mpr hi, beq_self_eq_true i.serial⟩)
    (List.mem_filter.mpr ⟨mem_incarnations.mpr hj, h ▸ beq_self_eq_true j.serial⟩)

/-- Whatever was spawned is somewhere. -/
theorem exists_keeps (hs : Sound w.books w.actor.holdings) {k : ℕ} (hk : k < w.actor.pm.spawned) :
    ∃ i, w.Keeps i ∧ i.serial = k := by
  have hpos : 0 < w.incarnations.countP (·.isSerial k) := by
    rw [countP_incarnations hs, if_pos hk]
    exact Nat.one_pos
  obtain ⟨i, hmem, hserial⟩ := List.countP_pos_iff.mp hpos
  exact ⟨i, mem_incarnations.mp hmem, beq_iff_eq.mp hserial⟩

/-- **What is kept after a step** was kept before, unless it is new. -/
theorem keeps_before (hs : Sound w.books w.actor.holdings) (hstep : Step w e w')
    (h : w'.Keeps i) : w.Keeps i ∨ w.actor.pm.spawned ≤ i.serial := by
  have hwhence := whence_step hs hstep
  rcases h with ⟨n, hholds⟩ | ⟨t, ht, hi⟩ | hgone
  · exact (hwhence.holds n i hholds).imp_left fun hold => .inl ⟨n, hold⟩
  · rcases hwhence.teardowns t ht with hold | hnew
    · exact .inl (.inr (.inl ⟨t, hold, hi⟩))
    · exact (hnew i hi).imp_left fun hold => .inl ⟨_, hold⟩
  · cases hstep with
    | @teardownDone t code hmem hcode =>
      rcases List.mem_append.mp hgone with hnew | hold
      · exact .inl (.inr (.inl ⟨t, hmem, Option.mem_toList.mp hnew⟩))
      · exact .inl (.inr (.inr hold))
    | _ => exact .inl (.inr (.inr hgone))

/-- **What was kept is kept.** -/
theorem Keeps.step (hw : daemon.Reachable w) (h : w.Keeps i) (hstep : Step w e w') : w'.Keeps i := by
  have hs := sound_of_reachable hw
  have hs' := sound_of_reachable (hw.step (M := daemon) hstep)
  have hlt := h.serial_lt hs
  obtain ⟨j, hj, hserial⟩ :=
    exists_keeps hs' (lt_of_lt_of_le hlt (whence_step hs hstep).spawned_le)
  rcases keeps_before hs hstep hj with hold | hnew
  · exact (Keeps.eq hs hold h hserial) ▸ hj
  · exact absurd hlt (by omega)

/-- The incarnation is with the record called `n`, with a teardown for it, or gone. -/
def PlacedFor (w : World) (n : String) (i : Incarnation) : Prop :=
  w.Holds n i ∨ (∃ t ∈ w.actor.teardowns, t.name = n ∧ t.inc = some i) ∨ i ∈ w.tornDown

theorem PlacedFor.keeps (h : w.PlacedFor n i) : w.Keeps i := by
  rcases h with hholds | ⟨t, ht, -, hi⟩ | hgone
  · exact .inl ⟨n, hholds⟩
  · exact .inr (.inl ⟨t, ht, hi⟩)
  · exact .inr (.inr hgone)

/-- A record holds only what is placed for it. -/
theorem PlacedFor.name_eq {n' : String} (hs : Sound w.books w.actor.holdings) (h : w.PlacedFor n i)
    (h' : w.Holds n' i) : n' = n := by
  rcases h with hholds | ⟨t, ht, -, hi⟩ | hgone
  · exact h'.name_eq hs hholds
  · exact absurd hi (h'.not_owned hs ht)
  · exact absurd hgone (h'.not_gone hs)

/-- **An incarnation never changes its record.** -/
theorem PlacedFor.step (hw : daemon.Reachable w) (h : w.PlacedFor n i) (hstep : Step w e w') :
    w'.PlacedFor n i := by
  have hs := sound_of_reachable hw
  have hlt := h.keeps.serial_lt hs
  have hwhence := whence_step hs hstep
  rcases h.keeps.step hw hstep with ⟨m, hholds⟩ | ⟨t, ht, hi⟩ | hgone
  · rcases hwhence.holds m i hholds with hold | hnew
    · exact .inl (h.name_eq hs hold ▸ hholds)
    · exact absurd hlt (Nat.not_lt.mpr hnew)
  · refine .inr (.inl ⟨t, ht, ?_, hi⟩)
    rcases hwhence.teardowns t ht with hold | hstarted
    · rcases h with hholds | ⟨t', ht', hname, hi'⟩ | hgone
      · exact absurd hi (hholds.not_owned hs hold)
      · exact (teardown_eq hs hold hi ht' hi') ▸ hname
      · exact absurd hgone (not_gone_of_owned hs hold hi)
    · rcases hstarted i hi with hold | hnew
      · exact h.name_eq hs hold
      · exact absurd hlt (Nat.not_lt.mpr hnew)
  · exact .inr (.inr hgone)

/-- A record that holds one incarnation has no other placed for it, unless that one is gone. -/
theorem PlacedFor.gone (hs : Sound w.books w.actor.holdings) (h : w.PlacedFor n i)
    (hj : w.Holds n j) (hne : i ≠ j) : i ∈ w.tornDown := by
  obtain ⟨q, hq, hqj⟩ := hj
  rcases h with ⟨p, hp, hi⟩ | ⟨t, ht, rfl, -⟩ | hgone
  · obtain rfl := Option.some.inj (hp.symm.trans hq)
    exact absurd (Option.some.inj (hi.symm.trans hqj)) hne
  · obtain ⟨p, hp, -, hstop⟩ := record_of_teardown hs ht
    obtain rfl := Option.some.inj (hp.symm.trans hq)
    exact absurd (Life.inc_of_stopping hstop) (by simp [hqj])
  · exact hgone

end World

end AgentProcs
