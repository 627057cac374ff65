import Mathlib.Logic.Function.Basic
import Mathlib.Data.Nat.Notation

/-!
# Machinery/ProcessGroups — a table of processes, and what the number of a group means

    spawn p ──▸ group ⟨p, b⟩ ──fork──▸ p · q ──kill p──▸ dying ──exit──▸ zombies ──reap──▸ ∅

A group of processes goes by a number, the pid of the process that founded it, and numbers are used
again.  So a group is a number together with its founder, and the same number may come to mean
another group.  It does not as long as the founder's pid is taken, be it by a zombie
(`Consistent.group_eq`): what is sent to the number reaches that group and no other.

A process may change into another group, its own or one that exists, and it may come to be somebody
else's, who is not to be signalled.  Those that were forked into the group they are in, and are
still whose they were, have not strayed; a group is quiet once none of them runs.
-/

namespace AgentProcs

/-- A group of processes: its number, and the process that founded it. -/
structure ProcessGroup where
  number : ℕ
  founder : ℕ
  deriving DecidableEq, Repr

inductive Vitality where
  | running
  /-- Sent `SIGKILL`: it executes nothing any more. -/
  | dying
  | zombie
  deriving DecidableEq, Repr

structure Process where
  /-- Its place in the order of forks; unlike its pid, it is not used again. -/
  birth : ℕ
  group : ProcessGroup
  /-- Whose it is, as far as signals go. -/
  user : ℕ
  /-- It has changed its group or its user, or descends from a process that had. -/
  strayed : Bool
  vitality : Vitality
  deriving DecidableEq, Repr

/-- The processes by their pids, and how many were ever forked. -/
structure ProcessTable where
  process : ℕ → Option Process
  born : ℕ

namespace ProcessTable

/-- Nothing goes by this number: no process, and no group. -/
def Free (t : ProcessTable) (pid : ℕ) : Prop :=
  t.process pid = none ∧ ∀ q y, t.process q = some y → y.group.number ≠ pid

def put (t : ProcessTable) (pid : ℕ) (x : Process) : ProcessTable :=
  { t with process := Function.update t.process pid (some x) }

def remove (t : ProcessTable) (pid : ℕ) : ProcessTable :=
  { t with process := Function.update t.process pid none }

/-- A new process. -/
def add (t : ProcessTable) (pid : ℕ) (x : Process) : ProcessTable :=
  { t.put pid { x with birth := t.born } with born := t.born + 1 }

/-- A new process that has founded a group before it executes anything. -/
def spawn (t : ProcessTable) (pid user : ℕ) : ProcessTable :=
  t.add pid ⟨t.born, ⟨pid, t.born⟩, user, false, .running⟩

/-- A user may signal its own processes, and user 0 everybody's. -/
def permits (sender user : ℕ) : Bool := sender == 0 || sender == user

/-- What `SIGKILL` makes of a process, if this user sends it to the group of this number. -/
def killed (sender number : ℕ) (x : Process) : Process :=
  if x.group.number = number ∧ permits sender x.user = true ∧ x.vitality = .running then
    { x with vitality := .dying }
  else x

/-- `SIGKILL` from this user to the group of this number: it passes over whom it may not reach. -/
def kill (t : ProcessTable) (sender number : ℕ) : ProcessTable :=
  { t with process := fun pid => (t.process pid).map (killed sender number) }

end ProcessTable

inductive ProcessEvent where
  | fork (parent child : ℕ)
  | lead (pid : ℕ)
  | join (pid member : ℕ)
  | become (pid user : ℕ)
  | exit (pid : ℕ)
  | reap (pid : ℕ)
  deriving DecidableEq, Repr

/-- What processes do by themselves. -/
inductive ProcessStep : ProcessTable → ProcessEvent → ProcessTable → Prop
  | fork {t : ProcessTable} {parent child : ℕ} {x : Process} (hx : t.process parent = some x)
      (hrun : x.vitality = .running) (hfree : t.Free child) :
      ProcessStep t (.fork parent child) (t.add child x)
  | lead {t : ProcessTable} {pid : ℕ} {x : Process} (hx : t.process pid = some x)
      (hrun : x.vitality = .running) :
      ProcessStep t (.lead pid) (t.put pid { x with group := ⟨pid, x.birth⟩, strayed := true })
  | join {t : ProcessTable} {pid member : ℕ} {x y : Process} (hx : t.process pid = some x)
      (hrun : x.vitality = .running) (hy : t.process member = some y) :
      ProcessStep t (.join pid member) (t.put pid { x with group := y.group, strayed := true })
  | become {t : ProcessTable} {pid user : ℕ} {x : Process} (hx : t.process pid = some x)
      (hrun : x.vitality = .running) :
      ProcessStep t (.become pid user) (t.put pid { x with user, strayed := true })
  | exit {t : ProcessTable} {pid : ℕ} {x : Process} (hx : t.process pid = some x)
      (halive : x.vitality ≠ .zombie) :
      ProcessStep t (.exit pid) (t.put pid { x with vitality := .zombie })
  | reap {t : ProcessTable} {pid : ℕ} {x : Process} (hx : t.process pid = some x)
      (hzombie : x.vitality = .zombie) : ProcessStep t (.reap pid) (t.remove pid)

theorem ProcessStep.born_le {t t' : ProcessTable} {e : ProcessEvent} (h : ProcessStep t e t') :
    t.born ≤ t'.born := by
  cases h with
  | fork => exact Nat.le_succ _
  | _ => exact Nat.le_refl _

namespace ProcessTable

variable {t t' : ProcessTable} {e : ProcessEvent} {pid p q : ℕ} {x y : Process} {g : ProcessGroup}
  {sender number user : ℕ}

/-! ## Lookups -/

@[simp] theorem process_put : (t.put pid x).process pid = some x := Function.update_self ..

theorem process_put_ne (h : p ≠ pid) : (t.put pid x).process p = t.process p :=
  Function.update_of_ne h ..

@[simp] theorem process_add : (t.add pid x).process pid = some { x with birth := t.born } :=
  process_put

theorem process_add_ne (h : p ≠ pid) : (t.add pid x).process p = t.process p := process_put_ne h

@[simp] theorem process_remove : (t.remove pid).process pid = none := Function.update_self ..

theorem process_remove_ne (h : p ≠ pid) : (t.remove pid).process p = t.process p :=
  Function.update_of_ne h ..

theorem permits_self (user : ℕ) : permits user user = true := by simp [permits]

theorem killed_birth (x : Process) : (killed sender number x).birth = x.birth := by
  rw [killed]
  split <;> rfl

theorem killed_group (x : Process) : (killed sender number x).group = x.group := by
  rw [killed]
  split <;> rfl

theorem killed_user (x : Process) : (killed sender number x).user = x.user := by
  rw [killed]
  split <;> rfl

theorem killed_strayed (x : Process) : (killed sender number x).strayed = x.strayed := by
  rw [killed]
  split <;> rfl

/-- Nobody begins to run because of it. -/
theorem running_of_killed (h : (killed sender number x).vitality = .running) :
    x.vitality = .running := by
  rw [killed] at h
  split at h
  · cases h
  · exact h

theorem process_kill (h : (t.kill sender number).process p = some x) :
    ∃ x₀, t.process p = some x₀ ∧ killed sender number x₀ = x := Option.map_eq_some_iff.mp h

/-! ## What the number of a group means -/

/-- **A number means one group** while the process of that pid is there: the one it founded. -/
structure Consistent (t : ProcessTable) : Prop where
  birth_lt : ∀ p x, t.process p = some x → x.birth < t.born
  founder_lt : ∀ p x, t.process p = some x → x.group.founder < t.born
  founder : ∀ p x q y, t.process p = some x → t.process q = some y → y.group.number = p →
    y.group.founder = x.birth

/-- **The number of a taken pid** is that of the group its process founded. -/
theorem Consistent.group_eq (h : t.Consistent) (hx : t.process p = some x)
    (hy : t.process q = some y) (hnumber : y.group.number = p) : y.group = ⟨p, x.birth⟩ := by
  rw [← hnumber, ← h.founder p x q y hx hy hnumber]

/-- One entry changes: it has to agree with itself and with the others. -/
theorem Consistent.put (h : t.Consistent) (hbirth : x.birth < t.born)
    (hfounder : x.group.founder < t.born) (hown : x.group.number = pid → x.group.founder = x.birth)
    (hothers : ∀ q y, q ≠ pid → t.process q = some y →
      (y.group.number = pid → y.group.founder = x.birth) ∧
      (x.group.number = q → x.group.founder = y.birth)) : (t.put pid x).Consistent := by
  have hentry {q : ℕ} {y : Process} (hy : (t.put pid x).process q = some y) :
      q = pid ∧ y = x ∨ q ≠ pid ∧ t.process q = some y := by
    by_cases hq : q = pid
    · subst hq
      exact .inl ⟨rfl, (Option.some.inj (process_put.symm.trans hy)).symm⟩
    · exact .inr ⟨hq, process_put_ne hq ▸ hy⟩
  refine ⟨fun q y hy => ?_, fun q y hy => ?_, fun p z q y hz hy hnumber => ?_⟩
  · rcases hentry hy with ⟨-, rfl⟩ | ⟨-, hold⟩
    · exact hbirth
    · exact h.birth_lt q y hold
  · rcases hentry hy with ⟨-, rfl⟩ | ⟨-, hold⟩
    · exact hfounder
    · exact h.founder_lt q y hold
  · rcases hentry hz with ⟨rfl, rfl⟩ | ⟨hp, hold⟩ <;>
      rcases hentry hy with ⟨rfl, rfl⟩ | ⟨hq, hold'⟩
    · exact hown hnumber
    · exact (hothers q y hq hold').1 hnumber
    · exact (hothers p z hp hold).2 hnumber
    · exact h.founder p z q y hold hold' hnumber

/-- An entry whose process stays what it is agrees as before. -/
theorem Consistent.put_same (h : t.Consistent) (hx : t.process pid = some x)
    (hbirth : y.birth = x.birth) (hgroup : y.group = x.group) : (t.put pid y).Consistent := by
  refine h.put (hbirth ▸ h.birth_lt pid x hx) (hgroup ▸ h.founder_lt pid x hx) (fun hnumber => ?_)
    fun q z _ hz => ⟨fun hnumber => ?_, fun hnumber => ?_⟩
  · rw [hgroup] at hnumber ⊢
    exact (h.founder pid x pid x hx hx hnumber).trans hbirth.symm
  · exact (h.founder pid x q z hx hz hnumber).trans hbirth.symm
  · rw [hgroup] at hnumber ⊢
    exact h.founder q z pid x hz hx hnumber

theorem Consistent.born_succ (h : t.Consistent) : Consistent { t with born := t.born + 1 } where
  birth_lt p x hx := Nat.lt_succ_of_lt (h.birth_lt p x hx)
  founder_lt p x hx := Nat.lt_succ_of_lt (h.founder_lt p x hx)
  founder := h.founder

/-- A new process takes a pid that no group goes by; it is in a group that is there, or founds one
of its own. -/
theorem Consistent.add (h : t.Consistent) (hfree : t.Free pid)
    (hgroup : x.group = ⟨pid, t.born⟩ ∨ ∃ q y, t.process q = some y ∧ y.group = x.group) :
    (t.add pid x).Consistent := by
  refine Consistent.put (t := { t with born := t.born + 1 }) h.born_succ (Nat.lt_succ_self _) ?_
    (fun hnumber => ?_) fun q y _ hy => ⟨fun hnumber => ?_, fun hnumber => ?_⟩
  · rcases hgroup with heq | ⟨q, y, hy, heq⟩
    · exact heq ▸ Nat.lt_succ_self _
    · exact heq ▸ Nat.lt_succ_of_lt (h.founder_lt q y hy)
  · rcases hgroup with heq | ⟨q, y, hy, heq⟩
    · exact congrArg ProcessGroup.founder heq
    · exact absurd ((congrArg ProcessGroup.number heq).trans hnumber) (hfree.2 q y hy)
  · exact absurd hnumber (hfree.2 q y hy)
  · rcases hgroup with heq | ⟨r, z, hz, heq⟩
    · have hpid : pid = q := (congrArg ProcessGroup.number heq).symm.trans hnumber
      exact absurd (hpid ▸ hy) (by simp [hfree.1])
    · rw [← heq] at hnumber
      exact (congrArg ProcessGroup.founder heq).symm.trans (h.founder q y r z hy hz hnumber)

theorem Consistent.spawn (h : t.Consistent) (hfree : t.Free pid) :
    (t.spawn pid user).Consistent :=
  h.add hfree (.inl rfl)

theorem Consistent.remove (h : t.Consistent) (pid : ℕ) : (t.remove pid).Consistent := by
  have hentry {q : ℕ} {y : Process} (hy : (t.remove pid).process q = some y) :
      t.process q = some y := by
    by_cases hq : q = pid
    · exact absurd (hq ▸ hy) (by simp)
    · exact process_remove_ne hq ▸ hy
  exact ⟨fun q y hy => h.birth_lt q y (hentry hy), fun q y hy => h.founder_lt q y (hentry hy),
    fun p x q y hx hy => h.founder p x q y (hentry hx) (hentry hy)⟩

theorem Consistent.kill (h : t.Consistent) (sender number : ℕ) :
    (t.kill sender number).Consistent := by
  refine ⟨fun p x hx => ?_, fun p x hx => ?_, fun p x q y hx hy hnumber => ?_⟩
  all_goals obtain ⟨x₀, hx₀, rfl⟩ := process_kill hx
  · exact (killed_birth x₀).symm ▸ h.birth_lt p x₀ hx₀
  · exact (killed_group x₀).symm ▸ h.founder_lt p x₀ hx₀
  · obtain ⟨y₀, hy₀, rfl⟩ := process_kill hy
    rw [killed_group] at hnumber ⊢
    exact (h.founder p x₀ q y₀ hx₀ hy₀ hnumber).trans (killed_birth x₀).symm

/-- **Whatever processes do**, a number goes on to mean one group. -/
theorem Consistent.step (h : t.Consistent) (hstep : ProcessStep t e t') : t'.Consistent := by
  cases hstep with
  | fork hx _ hfree => exact h.add hfree (.inr ⟨_, _, hx, rfl⟩)
  | @lead pid x hx _ =>
    have hbirth := h.birth_lt pid x hx
    refine h.put hbirth hbirth (fun _ => rfl) fun q y hq hy => ⟨fun hnumber => ?_, fun hnumber => ?_⟩
    · exact h.founder pid x q y hx hy hnumber
    · exact absurd hnumber.symm hq
  | @join pid member x y hx _ hy =>
    refine h.put (h.birth_lt pid x hx) (h.founder_lt member y hy) (fun hnumber => ?_)
      fun q z _ hz => ⟨fun hnumber => ?_, fun hnumber => ?_⟩
    · exact h.founder pid x member y hx hy hnumber
    · exact h.founder pid x q z hx hz hnumber
    · exact h.founder q z member y hz hy hnumber
  | become hx _ | exit hx _ => exact h.put_same hx rfl rfl
  | reap => exact h.remove _

/-! ## Pids that stay taken -/

/-- The pid is taken by the process of this birth. -/
def Taken (t : ProcessTable) (pid birth : ℕ) : Prop :=
  ∃ x, t.process pid = some x ∧ x.birth = birth

theorem Taken.unique {b c : ℕ} (h : t.Taken pid b) (h' : t.Taken pid c) : b = c := by
  obtain ⟨x, hx, rfl⟩ := h
  obtain ⟨y, hy, rfl⟩ := h'
  exact congrArg Process.birth (Option.some.inj (hx.symm.trans hy))

theorem Taken.not_free {b : ℕ} (h : t.Taken pid b) : ¬ t.Free pid := by
  obtain ⟨x, hx, -⟩ := h
  exact fun hfree => absurd (hfree.1.symm.trans hx) (by simp)

theorem Taken.put {b : ℕ} (h : t.Taken pid b) (hy : p = pid → y.birth = b) :
    (t.put p y).Taken pid b := by
  obtain ⟨x, hx, hbirth⟩ := h
  by_cases hp : p = pid
  · exact ⟨y, hp ▸ process_put, hy hp⟩
  · exact ⟨x, (process_put_ne (Ne.symm hp)).trans hx, hbirth⟩

theorem Taken.add {b : ℕ} (h : t.Taken pid b) (hfree : t.Free p) : (t.add p x).Taken pid b :=
  h.put fun hp => absurd (hp ▸ hfree) h.not_free

theorem taken_spawn : (t.spawn pid user).Taken pid t.born := ⟨_, process_add, rfl⟩

theorem Taken.remove {b : ℕ} (h : t.Taken pid b) (hp : p ≠ pid) : (t.remove p).Taken pid b := by
  obtain ⟨x, hx, hbirth⟩ := h
  exact ⟨x, (process_remove_ne (Ne.symm hp)).trans hx, hbirth⟩

theorem Taken.kill {b : ℕ} (h : t.Taken pid b) (sender number : ℕ) :
    (t.kill sender number).Taken pid b := by
  obtain ⟨x, hx, hbirth⟩ := h
  exact ⟨killed sender number x, Option.map_eq_some_iff.mpr ⟨x, hx, rfl⟩,
    (killed_birth x).trans hbirth⟩

/-- **A pid stays taken** until its process is waited for. -/
theorem Taken.step {b : ℕ} (h : t.Taken pid b) (hstep : ProcessStep t e t') (hreap : e ≠ .reap pid) :
    t'.Taken pid b := by
  have hsame {p : ℕ} {x : Process} (hx : t.process p = some x) (hp : p = pid) : x.birth = b :=
    (hp ▸ ⟨x, hx, rfl⟩ : t.Taken pid x.birth).unique h
  cases hstep with
  | fork _ _ hfree => exact h.add hfree
  | lead hx | join hx | become hx | exit hx =>
    have hbirth := hsame hx
    exact h.put hbirth
  | reap => exact h.remove fun hp => hreap (congrArg _ hp)

/-! ## Who has not strayed -/

/-- Those that were forked into the group, and have not strayed, are like this. -/
def Stayers (t : ProcessTable) (g : ProcessGroup) (φ : Process → Prop) : Prop :=
  ∀ p x, t.process p = some x → x.group = g → x.strayed = false → φ x

/-- A process that is like this stays so as long as it does not stray, and so are its children. -/
structure Lasting (φ : Process → Prop) : Prop where
  fork : ∀ x birth, φ x → φ { x with birth }
  exit : ∀ x, φ x → φ { x with vitality := .zombie }

section Stayers

variable {φ : Process → Prop}

theorem Stayers.put (h : t.Stayers g φ) (hx : x.group = g → x.strayed = false → φ x) :
    (t.put pid x).Stayers g φ := by
  intro q y hy
  by_cases hq : q = pid
  · subst hq
    obtain rfl := Option.some.inj (process_put.symm.trans hy)
    exact hx
  · exact h q y (process_put_ne hq ▸ hy)

theorem Stayers.remove (h : t.Stayers g φ) (pid : ℕ) : (t.remove pid).Stayers g φ := by
  intro q y hy
  by_cases hq : q = pid
  · exact absurd (hq ▸ hy) (by simp)
  · exact h q y (process_remove_ne hq ▸ hy)

theorem Stayers.kill (h : t.Stayers g φ) (hkilled : ∀ x, φ x → φ (killed sender number x)) :
    (t.kill sender number).Stayers g φ := by
  intro p x hx hgroup hstrayed
  obtain ⟨x₀, hx₀, rfl⟩ := process_kill hx
  exact hkilled x₀ (h p x₀ hx₀ (killed_group x₀ ▸ hgroup) (killed_strayed x₀ ▸ hstrayed))

/-- A group that is founded now is another one. -/
theorem Stayers.spawn (h : t.Stayers g φ) (hfounder : g.founder ≠ t.born) :
    (t.spawn pid user).Stayers g φ :=
  Stayers.put h fun hgroup => absurd (congrArg ProcessGroup.founder hgroup).symm hfounder

/-- **Whatever processes do**: who changes its group or its user has strayed. -/
theorem Stayers.step (h : t.Stayers g φ) (hφ : Lasting φ) (hstep : ProcessStep t e t') :
    t'.Stayers g φ := by
  cases hstep with
  | fork hx _ _ =>
    have hparent := h _ _ hx
    exact Stayers.put h fun hgroup hstrayed => hφ.fork _ _ (hparent hgroup hstrayed)
  | lead | join | become => exact h.put fun _ hstrayed => absurd hstrayed (by simp)
  | exit hx _ =>
    have hbefore := h _ _ hx
    exact h.put fun hgroup hstrayed => hφ.exit _ (hbefore hgroup hstrayed)
  | reap => exact h.remove _

end Stayers

/-- Those that have not strayed from the group are this user's. -/
def OwnedBy (t : ProcessTable) (g : ProcessGroup) (user : ℕ) : Prop :=
  t.Stayers g fun x => x.user = user

theorem lasting_user (user : ℕ) : Lasting fun x => x.user = user := ⟨fun _ _ h => h, fun _ h => h⟩

theorem OwnedBy.kill (h : t.OwnedBy g user) (sender number : ℕ) :
    (t.kill sender number).OwnedBy g user :=
  Stayers.kill h fun x hx => (killed_user x).trans hx

/-- **A group is its founder's**: nobody else is in it yet. -/
theorem ownedBy_spawn (h : t.Consistent) : (t.spawn pid user).OwnedBy ⟨pid, t.born⟩ user := by
  intro q y hy hgroup _
  by_cases hq : q = pid
  · subst hq
    obtain rfl := Option.some.inj (process_add.symm.trans hy)
    rfl
  · have hfounder := h.founder_lt q y ((process_add_ne hq).symm.trans hy)
    rw [hgroup] at hfounder
    exact absurd hfounder (Nat.lt_irrefl _)

/-! ## Groups that have gone quiet -/

/-- No process that was forked into the group, and has not strayed, runs. -/
def Quiet (t : ProcessTable) (g : ProcessGroup) : Prop :=
  t.Stayers g fun x => x.vitality ≠ .running

theorem lasting_quiet : Lasting fun x => x.vitality ≠ .running :=
  ⟨fun _ _ h => h, fun _ _ => Vitality.noConfusion⟩

theorem Quiet.kill (h : t.Quiet g) (sender number : ℕ) : (t.kill sender number).Quiet g :=
  Stayers.kill h fun _ hx hrun => hx (running_of_killed hrun)

/-- **What its owner kills goes quiet.** -/
theorem OwnedBy.quiet_kill (h : t.OwnedBy g user) : (t.kill user g.number).Quiet g := by
  intro p x hx hgroup hstrayed hrun
  obtain ⟨x₀, hx₀, rfl⟩ := process_kill hx
  rw [killed_group] at hgroup
  rw [killed_strayed] at hstrayed
  have hpermits : permits user x₀.user = true := by
    rw [h p x₀ hx₀ hgroup hstrayed]
    exact permits_self user
  have hnumber : x₀.group.number = g.number := congrArg ProcessGroup.number hgroup
  rw [killed, if_pos ⟨hnumber, hpermits, running_of_killed hrun⟩] at hrun
  cases hrun

end ProcessTable

end AgentProcs
