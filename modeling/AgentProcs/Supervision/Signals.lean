import AgentProcs.Machinery.ProcessGroups
import AgentProcs.Supervision.Whereabouts

/-!
# Supervision/Signals — the teardown tasks beside everything else that runs on the host

    fresh ──SIGTERM──▸ terminated ──poll ⋯ poll──▸ ──SIGKILL──▸ killed ──wait──▸ waited ──report──▸

A teardown signals its group by number.  What keeps the number from meaning another group is that
the leader has not been waited for: nobody does that but the teardown, after its last signal.  So
the machine here has the processes of the whole host in it, with pids that are used again: what the
daemon does it does as in `daemon`, a launch forks, and a teardown goes through its stages.

How long a stage lasts is left open; a teardown may send `SIGKILL` at any moment after `SIGTERM`,
and may stop waiting at any moment.

The daemon leaves `SIGCHLD` as it finds it.  By default its children stay zombies until it waits for
them; where it was started with the signal ignored, a leader that exits is gone at once, and the
number is free while the daemon still signals it (`Astray.signal_astray`).
-/

namespace AgentProcs

/-- How far a teardown has come; `leaderExit` is what it knows of the leader's exit. -/
inductive Stage where
  | fresh
  | terminated (leaderExit : Option (Option ℤ))
  | killed (leaderExit : Option (Option ℤ))
  | waited (code : Option ℤ)
  deriving DecidableEq, Repr

namespace Stage

/-- The leader has not been waited for. -/
def Pending : Stage → Prop
  | waited _ => False
  | _ => True

/-- `SIGKILL` has been sent. -/
def PastKill : Stage → Prop
  | killed _ => True
  | waited _ => True
  | _ => False

/-- The teardown goes by this exit code, once it has begun. -/
def GoesBy (code : Option ℤ) : Stage → Prop
  | fresh => True
  | terminated leaderExit => leaderExit = some code
  | killed leaderExit => leaderExit = some code
  | waited code' => code' = code

end Stage

/-- The exit code of a leader that had to be killed, or was not seen to exit. -/
def KILLED : ℤ := -9

/-- What the daemon was started with for `SIGCHLD`. -/
inductive Sigchld where
  | default
  /-- The kernel itself waits for the children. -/
  | ignored
  deriving DecidableEq, Repr

structure Host where
  world : World
  table : ProcessTable
  /-- Who runs the daemon. -/
  user : ℕ
  /-- The birth of the leader of the `k`-th incarnation. -/
  births : ℕ → ℕ
  /-- The stage of the teardown of the `k`-th incarnation. -/
  stages : ℕ → Stage

inductive HostEvent where
  | daemon (e : Event)
  | launch (e : Event) (inc : Incarnation)
  | exit (inc : Incarnation) (code : Option ℤ)
  | vanish (inc : Incarnation)
  | process (e : ProcessEvent)
  | terminate (t : Teardown) (inc : Incarnation)
  | poll (t : Teardown) (inc : Incarnation)
  | kill (t : Teardown) (inc : Incarnation)
  | wait (t : Teardown) (inc : Incarnation)
  | giveUp (t : Teardown) (inc : Incarnation)
  | report (t : Teardown) (code : Option ℤ)
  | orphan (inc : Incarnation)

/-- The event sends a signal to the group of this incarnation. -/
def HostEvent.signals : HostEvent → Option Incarnation
  | terminate _ inc => some inc
  | kill _ inc => some inc
  | _ => none

/-- What happens inside the daemon: neither an exit, nor the end of a teardown. -/
def Event.Inside : Event → Prop
  | .exit .. => False
  | .teardownDone .. => False
  | _ => True

namespace Host

/-- The group that the leader of an incarnation founded. -/
def group (h : Host) (i : Incarnation) : ProcessGroup := ⟨i.pgid, h.births i.serial⟩

def setStage (h : Host) (i : Incarnation) (stage : Stage) : Host :=
  { h with stages := Function.update h.stages i.serial stage }

/-- A teardown under way that owns the incarnation and has come to this stage. -/
structure At (h : Host) (t : Teardown) (i : Incarnation) (stage : Stage) : Prop where
  mem : t ∈ h.world.actor.teardowns
  inc : t.inc = some i
  stage : h.stages i.serial = stage

/-- The processes that are not leaders of an incarnation exit, and are waited for, by themselves. -/
def Spares (h : Host) : ProcessEvent → Prop
  | .exit pid => ∀ k < h.world.actor.pm.spawned, ¬ h.table.Taken pid (h.births k)
  | .reap pid => ∀ k < h.world.actor.pm.spawned, ¬ h.table.Taken pid (h.births k)
  | _ => True

end Host

inductive HostStep (sigchld : Sigchld) : Host → HostEvent → Host → Prop
  | daemon {h : Host} {e : Event} {w : World} (hstep : Step h.world e w) (hinside : e.Inside)
      (hnone : w.actor.pm.spawned = h.world.actor.pm.spawned) :
      HostStep sigchld h (.daemon e) { h with world := w }
  | launch {h : Host} {e : Event} {w : World} {i : Incarnation} (hstep : Step h.world e w)
      (hinside : e.Inside) (hnew : i.serial = h.world.actor.pm.spawned) (hkeeps : w.Keeps i)
      (hfree : h.table.Free i.pgid) : HostStep sigchld h (.launch e i) { h with
        world := w
        table := h.table.spawn i.pgid h.user
        births := Function.update h.births i.serial h.table.born }
  | exit {h : Host} {i : Incarnation} {code : Option ℤ} {w : World} {x : Process}
      (hzombies : sigchld = .default) (hstep : Step h.world (.exit i code) w)
      (hkeeps : h.world.Keeps i) (hx : h.table.process i.pgid = some x)
      (hleader : x.birth = h.births i.serial) (halive : x.vitality ≠ .zombie) :
      HostStep sigchld h (.exit i code) { h with
        world := w
        table := h.table.put i.pgid { x with vitality := .zombie } }
  -- `ECHILD`: the daemon sees that the leader is gone, and no more
  | vanish {h : Host} {i : Incarnation} {w : World} {x : Process} (hignored : sigchld = .ignored)
      (hstep : Step h.world (.exit i none) w) (hkeeps : h.world.Keeps i)
      (hx : h.table.process i.pgid = some x) (hleader : x.birth = h.births i.serial) :
      HostStep sigchld h (.vanish i) { h with
        world := w
        table := h.table.remove i.pgid }
  | process {h : Host} {e : ProcessEvent} {table : ProcessTable}
      (hstep : ProcessStep h.table e table) (hspares : h.Spares e) :
      HostStep sigchld h (.process e) { h with table }
  | terminate {h : Host} {t : Teardown} {i : Incarnation} (hat : h.At t i .fresh) :
      HostStep sigchld h (.terminate t i) (h.setStage i (.terminated t.leaderExit))
  | poll {h : Host} {t : Teardown} {i : Incarnation} (hat : h.At t i (.terminated none)) :
      HostStep sigchld h (.poll t i) (h.setStage i (.terminated (h.world.exits i)))
  | kill {h : Host} {t : Teardown} {i : Incarnation} {leaderExit : Option (Option ℤ)}
      (hat : h.At t i (.terminated leaderExit)) : HostStep sigchld h (.kill t i)
        { h.setStage i (.killed leaderExit) with table := h.table.kill h.user i.pgid }
  | wait {h : Host} {t : Teardown} {i : Incarnation} {leaderExit : Option (Option ℤ)} {x : Process}
      {code : Option ℤ} (hat : h.At t i (.killed leaderExit))
      (hx : h.table.process i.pgid = some x) (hleader : x.birth = h.births i.serial)
      (hzombie : x.vitality = .zombie) (hexit : h.world.exits i = some code) :
      HostStep sigchld h (.wait t i)
        { h.setStage i (.waited (leaderExit.getD (code.or (some KILLED)))) with
          table := h.table.remove i.pgid }
  | giveUp {h : Host} {t : Teardown} {i : Incarnation} {leaderExit : Option (Option ℤ)}
      (hat : h.At t i (.killed leaderExit)) :
      HostStep sigchld h (.giveUp t i) (h.setStage i (.waited (leaderExit.getD (some KILLED))))
  | report {h : Host} {t : Teardown} {i : Incarnation} {code : Option ℤ}
      (hat : h.At t i (.waited code)) :
      HostStep sigchld h (.report t code) { h with world := h.world.finish t code }
  | reportBare {h : Host} {t : Teardown} (hmem : t ∈ h.world.actor.teardowns) (hinc : t.inc = none) :
      HostStep sigchld h (.report t t.leaderExit.join)
        { h with world := h.world.finish t t.leaderExit.join }
  | orphan {h : Host} {i : Incarnation} {x : Process} (hgone : i ∈ h.world.tornDown)
      (hx : h.table.process i.pgid = some x) (hleader : x.birth = h.births i.serial)
      (hzombie : x.vitality = .zombie) :
      HostStep sigchld h (.orphan i) { h with table := h.table.remove i.pgid }

/-- The host: the daemon, its teardown tasks, and all the processes there are. -/
def host (sigchld : Sigchld) : Machine Host HostEvent where
  init h := ∃ session, h.world = .new session ∧ h.table.Consistent ∧ h.stages = fun _ => .fresh
  step := HostStep sigchld

/-! ## What holds in every reachable state -/

/-- The invariant of the host. -/
structure Hosted (h : Host) : Prop where
  reachable : daemon.Reachable h.world
  consistent : h.table.Consistent
  births_lt : ∀ k < h.world.actor.pm.spawned, h.births k < h.table.born
  births_inj : ∀ j < h.world.actor.pm.spawned, ∀ k < h.world.actor.pm.spawned,
    h.births j = h.births k → j = k
  /-- The leader is there, running or a zombie, until it has been waited for. -/
  leader : ∀ i, h.world.Keeps i → (h.stages i.serial).Pending →
    h.table.Taken i.pgid (h.births i.serial)
  held : ∀ n i, h.world.Holds n i → h.stages i.serial = .fresh
  unborn : ∀ k, h.world.actor.pm.spawned ≤ k → h.stages k = .fresh
  gone : ∀ i ∈ h.world.tornDown, (h.stages i.serial).PastKill ∧ ¬ (h.stages i.serial).Pending
  told : ∀ t ∈ h.world.actor.teardowns, ∀ i code, t.inc = some i → t.leaderExit = some code →
    (h.stages i.serial).GoesBy code
  owned : ∀ i, h.world.Keeps i → h.table.OwnedBy (h.group i) h.user
  quiet : ∀ i, h.world.Keeps i → (h.stages i.serial).PastKill → h.table.Quiet (h.group i)

namespace Hosted

variable {h h' : Host} {w : World} {e : Event} {i j : Incarnation} {t : Teardown} {stage : Stage}

theorem sound (hh : Hosted h) : Sound h.world.books h.world.actor.holdings :=
  sound_of_reachable hh.reachable

theorem serial_lt (hh : Hosted h) (hi : h.world.Keeps i) : i.serial < h.world.actor.pm.spawned :=
  hi.serial_lt hh.sound

/-- Two incarnations with the same leader are the same. -/
theorem eq_of_births (hh : Hosted h) (hi : h.world.Keeps i) (hj : h.world.Keeps j)
    (hbirths : h.births i.serial = h.births j.serial) : i = j :=
  hi.eq hh.sound hj (hh.births_inj _ (hh.serial_lt hi) _ (hh.serial_lt hj) hbirths)

theorem keeps_of_at (hat : h.At t i stage) : h.world.Keeps i := .inr (.inl ⟨t, hat.mem, hat.inc⟩)

theorem tornDown_eq {w w' : World} (hstep : Step w e w') (hinside : e.Inside) :
    w'.tornDown = w.tornDown := by
  cases hstep with
  | exit | teardownDone => exact hinside.elim
  | _ => rfl

/-- **The daemon goes on**: incarnations change places, and at most one is new. -/
theorem daemon_step (hh : Hosted h) (hstep : Step h.world e w) (hinside : e.Inside)
    {table : ProcessTable} {births : ℕ → ℕ} (hconsistent : table.Consistent)
    (hlt : ∀ k < w.actor.pm.spawned, births k < table.born)
    (hinj : ∀ j < w.actor.pm.spawned, ∀ k < w.actor.pm.spawned, births j = births k → j = k)
    (hold : ∀ i, h.world.Keeps i →
      (h.table.Taken i.pgid (h.births i.serial) → table.Taken i.pgid (births i.serial)) ∧
      (h.table.OwnedBy (h.group i) h.user → table.OwnedBy ⟨i.pgid, births i.serial⟩ h.user) ∧
      (h.table.Quiet (h.group i) → table.Quiet ⟨i.pgid, births i.serial⟩))
    (hnew : ∀ i, w.Keeps i → h.world.actor.pm.spawned ≤ i.serial →
      table.Taken i.pgid (births i.serial) ∧ table.OwnedBy ⟨i.pgid, births i.serial⟩ h.user) :
    Hosted ⟨w, table, h.user, births, h.stages⟩ := by
  have hwhence := World.whence_step hh.sound hstep
  have hunborn {i : Incarnation} (hi : h.world.actor.pm.spawned ≤ i.serial) :
      h.stages i.serial = .fresh := hh.unborn _ hi
  refine ⟨hh.reachable.step (M := daemon) hstep, hconsistent, hlt, hinj, fun i hi hpending => ?_,
    fun n i hi => ?_, fun k hk => hh.unborn k (hwhence.spawned_le.trans hk), fun i hi => ?_,
    fun t ht i code hi hcode => ?_, fun i hi => ?_, fun i hi hkilled => ?_⟩
  · rcases World.keeps_before hh.sound hstep hi with hkept | hfresh
    · exact (hold i hkept).1 (hh.leader i hkept hpending)
    · exact (hnew i hi hfresh).1
  · rcases hwhence.holds n i hi with hheld | hfresh
    · exact hh.held n i hheld
    · exact hunborn hfresh
  · exact hh.gone i (tornDown_eq hstep hinside ▸ hi)
  · rcases hwhence.teardowns t ht with hunder | hstarted
    · exact hh.told t hunder i code hi hcode
    · have hfresh : h.stages i.serial = .fresh :=
        (hstarted i hi).elim (fun hheld => hh.held _ i hheld) hunborn
      change (h.stages i.serial).GoesBy code
      rw [hfresh]
      trivial
  · rcases World.keeps_before hh.sound hstep hi with hkept | hfresh
    · exact (hold i hkept).2.1 (hh.owned i hkept)
    · exact (hnew i hi hfresh).2
  · rcases World.keeps_before hh.sound hstep hi with hkept | hfresh
    · exact (hold i hkept).2.2 (hh.quiet i hkept hkilled)
    · change (h.stages i.serial).PastKill at hkilled
      rw [hunborn hfresh] at hkilled
      exact hkilled.elim

theorem daemon (hh : Hosted h) (hstep : Step h.world e w) (hinside : e.Inside)
    (hnone : w.actor.pm.spawned = h.world.actor.pm.spawned) : Hosted { h with world := w } := by
  have hs := sound_of_reachable (hh.reachable.step (M := AgentProcs.daemon) hstep)
  refine hh.daemon_step hstep hinside hh.consistent (hnone ▸ hh.births_lt) (hnone ▸ hh.births_inj)
    (fun i _ => ⟨id, id, id⟩) fun i hi hfresh => ?_
  exact absurd (hi.serial_lt hs) (by omega)

/-- **A launch** forks a leader that no other incarnation has. -/
theorem launch (hh : Hosted h) (hstep : Step h.world e w) (hinside : e.Inside)
    (hnew : i.serial = h.world.actor.pm.spawned) (hkeeps : w.Keeps i)
    (hfree : h.table.Free i.pgid) :
    Hosted ⟨w, h.table.spawn i.pgid h.user, h.user,
      Function.update h.births i.serial h.table.born, h.stages⟩ := by
  have hs := sound_of_reachable (hh.reachable.step (M := AgentProcs.daemon) hstep)
  have hle := World.spawned_step_le hh.sound hstep
  have hlt := hkeeps.serial_lt hs
  have hborn : Function.update h.births i.serial h.table.born i.serial = h.table.born :=
    Function.update_self ..
  have hbirths {k : ℕ} (hk : k < h.world.actor.pm.spawned) :
      Function.update h.births i.serial h.table.born k = h.births k :=
    Function.update_of_ne (by omega) _ _
  have hcases {k : ℕ} (hk : k < w.actor.pm.spawned) :
      k = i.serial ∨ k < h.world.actor.pm.spawned := by omega
  refine hh.daemon_step hstep hinside (hh.consistent.spawn hfree) (fun k hk => ?_)
    (fun j hj k hk heq => ?_) (fun j hj => ?_) fun j hj hfresh => ?_
  · rcases hcases hk with rfl | hold
    · exact hborn.trans_lt (Nat.lt_succ_self _)
    · exact (hbirths hold).trans_lt (Nat.lt_succ_of_lt (hh.births_lt k hold))
  · rcases hcases hj with rfl | hj <;> rcases hcases hk with rfl | hk
    · rfl
    · rw [hborn, hbirths hk] at heq
      exact absurd (hh.births_lt k hk) (by omega)
    · rw [hborn, hbirths hj] at heq
      exact absurd (hh.births_lt j hj) (by omega)
    · rw [hbirths hj, hbirths hk] at heq
      exact hh.births_inj j hj k hk heq
  · have hserial := hh.serial_lt hj
    rw [hbirths hserial]
    have hne : h.births j.serial ≠ h.table.born := (hh.births_lt _ hserial).ne
    exact ⟨fun htaken => htaken.add hfree, fun howned => howned.spawn hne,
      fun hquiet => hquiet.spawn hne⟩
  · have hserial := hj.serial_lt hs
    obtain rfl := hj.eq hs hkeeps (by omega)
    rw [hborn]
    exact ⟨ProcessTable.taken_spawn, ProcessTable.ownedBy_spawn hh.consistent⟩

/-- **The processes go on**: no leader is waited for, and what is quiet stays quiet. -/
theorem processes (hh : Hosted h) {table : ProcessTable} (hconsistent : table.Consistent)
    (hborn : h.table.born ≤ table.born)
    (hleader : ∀ i, h.world.Keeps i → (h.stages i.serial).Pending →
      h.table.Taken i.pgid (h.births i.serial) → table.Taken i.pgid (h.births i.serial))
    (howned : ∀ g, h.table.OwnedBy g h.user → table.OwnedBy g h.user)
    (hquiet : ∀ g, h.table.Quiet g → table.Quiet g) : Hosted { h with table } where
  reachable := hh.reachable
  consistent := hconsistent
  births_lt k hk := (hh.births_lt k hk).trans_le hborn
  births_inj := hh.births_inj
  leader i hi hpending := hleader i hi hpending (hh.leader i hi hpending)
  held := hh.held
  unborn := hh.unborn
  gone := hh.gone
  told := hh.told
  owned i hi := howned _ (hh.owned i hi)
  quiet i hi hkilled := hquiet _ (hh.quiet i hi hkilled)

/-- **A teardown goes on**: the others stay as far as they were. -/
theorem advance (hh : Hosted h) (hat : h.At t i stage) (next : Stage)
    (hpending : next.Pending → stage.Pending)
    (hcodes : ∀ code, t.leaderExit = some code → next.GoesBy code)
    (hquiet : next.PastKill → h.table.Quiet (h.group i)) : Hosted (h.setStage i next) := by
  have hkeeps := keeps_of_at hat
  have hself : (h.setStage i next).stages i.serial = next := Function.update_self ..
  have hother {j : Incarnation} (hj : h.world.Keeps j) (hne : j ≠ i) :
      (h.setStage i next).stages j.serial = h.stages j.serial :=
    Function.update_of_ne (fun hserial => hne (hj.eq hh.sound hkeeps hserial)) _ _
  refine ⟨hh.reachable, hh.consistent, hh.births_lt, hh.births_inj, fun j hj hpend => ?_,
    fun n j hj => ?_, fun k hk => ?_, fun j hj => ?_, fun t' ht j code hj hcode => ?_, hh.owned,
    fun j hj hkilled => ?_⟩
  · by_cases hji : j = i
    · subst hji
      rw [hself] at hpend
      exact hh.leader j hj (hat.stage ▸ hpending hpend)
    · exact hh.leader j hj (hother hj hji ▸ hpend)
  · have hji : j ≠ i := fun he => hj.not_owned hh.sound hat.mem (he ▸ hat.inc)
    exact (hother (.inl ⟨n, hj⟩) hji).trans (hh.held n j hj)
  · have hne : k ≠ i.serial := (lt_of_lt_of_le (hh.serial_lt hkeeps) hk).ne'
    exact (Function.update_of_ne hne _ _).trans (hh.unborn k hk)
  · have hji : j ≠ i := fun he => World.not_gone_of_owned hh.sound hat.mem hat.inc (he ▸ hj)
    rw [hother (.inr (.inr hj)) hji]
    exact hh.gone j hj
  · by_cases hji : j = i
    · subst hji
      obtain rfl := World.teardown_eq hh.sound ht hj hat.mem hat.inc
      rw [hself]
      exact hcodes code hcode
    · rw [hother (.inr (.inl ⟨t', ht, hj⟩)) hji]
      exact hh.told t' ht j code hj hcode
  · by_cases hji : j = i
    · subst hji
      rw [hself] at hkilled
      exact hquiet hkilled
    · exact hh.quiet j hj (hother hj hji ▸ hkilled)

/-- What a stage goes by, if it goes by what the teardown was told. -/
theorem goesBy (hh : Hosted h) (hat : h.At t i stage) {code : Option ℤ}
    (hcode : t.leaderExit = some code) : stage.GoesBy code :=
  hat.stage ▸ hh.told t hat.mem i code hat.inc hcode

/-- **A teardown stops waiting**, with the exit it knows of or this one. -/
theorem waited {leaderExit : Option (Option ℤ)} (hh : Hosted h) (hat : h.At t i (.killed leaderExit))
    (code : Option ℤ) : Hosted (h.setStage i (.waited (leaderExit.getD code))) := by
  refine hh.advance hat _ False.elim (fun told htold => ?_) fun _ => ?_
  · obtain rfl : leaderExit = some told := hh.goesBy hat htold
    rfl
  · exact hh.quiet i (keeps_of_at hat) (hat.stage ▸ trivial)

/-- The report of a teardown is one it may make. -/
theorem mayReport (hh : Hosted h) {code : Option ℤ} (hat : h.At t i (.waited code)) :
    t.mayReport code := by
  rw [Teardown.mayReport, hat.inc]
  cases hcode : t.leaderExit with
  | none => trivial
  | some told => exact .inl (hh.goesBy hat hcode)

/-- **A teardown ends.** -/
theorem finish (hh : Hosted h) {code : Option ℤ} (hmem : t ∈ h.world.actor.teardowns)
    (hcode : t.mayReport code)
    (hwaited : ∀ i, t.inc = some i → (h.stages i.serial).PastKill ∧ ¬ (h.stages i.serial).Pending) :
    Hosted { h with world := h.world.finish t code } := by
  have hstep : Step h.world (.teardownDone t code) (h.world.finish t code) :=
    .teardownDone hmem hcode
  have hkeeps {i : Incarnation} (hi : (h.world.finish t code).Keeps i) : h.world.Keeps i :=
    (World.keeps_before hh.sound hstep hi).resolve_right fun hnew => by
      have hs := sound_of_reachable (hh.reachable.step (M := AgentProcs.daemon) hstep)
      exact absurd (hi.serial_lt hs) (by exact Nat.not_lt.mpr hnew)
  refine ⟨hh.reachable.step (M := AgentProcs.daemon) hstep, hh.consistent, hh.births_lt,
    hh.births_inj, fun i hi => hh.leader i (hkeeps hi), hh.held, hh.unborn, fun i hi => ?_,
    fun t' ht => hh.told t' (List.mem_of_mem_erase ht), fun i hi => hh.owned i (hkeeps hi),
    fun i hi => hh.quiet i (hkeeps hi)⟩
  rcases List.mem_append.mp hi with hnew | hold
  · exact hwaited i (Option.mem_toList.mp hnew)
  · exact hh.gone i hold

/-- **One step of the host.** -/
theorem step {e : HostEvent} (hh : Hosted h) (hstep : (host .default).step h e h') : Hosted h' := by
  cases hstep with
  | daemon hstep hinside hnone => exact hh.daemon hstep hinside hnone
  | launch hstep hinside hnew hkeeps hfree => exact hh.launch hstep hinside hnew hkeeps hfree
  | @exit i code w x hzombies hstep hkeeps hx hleader halive =>
    have hzombie : Hosted { h with table := h.table.put i.pgid { x with vitality := .zombie } } :=
      hh.processes (hh.consistent.put_same hx rfl rfl) le_rfl
        (fun j _ _ htaken => htaken.put fun hpid => (hpid ▸ ⟨x, hx, rfl⟩ :
          h.table.Taken j.pgid x.birth).unique htaken)
        (fun g howned => howned.put (howned i.pgid x hx))
        fun g hquiet => hquiet.put fun _ _ => Vitality.noConfusion
    have hreach := hh.reachable.step (M := AgentProcs.daemon) hstep
    cases hstep with
    | exit => exact ⟨hreach, hzombie.consistent, hzombie.births_lt, hzombie.births_inj,
        hzombie.leader, hzombie.held, hzombie.unborn, hzombie.gone, hzombie.told,
        hzombie.owned, hzombie.quiet⟩
  | vanish hignored => cases hignored
  | @process e table hstep hspares =>
    refine hh.processes (hh.consistent.step hstep) hstep.born_le (fun i hi _ htaken => ?_)
      (fun g howned => howned.step (ProcessTable.lasting_user _) hstep)
      fun g hquiet => hquiet.step ProcessTable.lasting_quiet hstep
    refine htaken.step hstep fun hreap => ?_
    subst hreap
    exact hspares _ (hh.serial_lt hi) htaken
  | terminate hat => exact hh.advance hat _ (fun _ => trivial) (fun _ => id) False.elim
  | @poll t i hat =>
    refine hh.advance hat _ (fun _ => trivial) (fun code hcode => ?_) False.elim
    exact absurd (hh.goesBy hat hcode) (by simp [Stage.GoesBy])
  | @kill t i leaderExit hat =>
    have hkilled : Hosted { h with table := h.table.kill h.user i.pgid } :=
      hh.processes (hh.consistent.kill _ _) le_rfl (fun j _ _ htaken => htaken.kill _ _)
        (fun g howned => howned.kill _ _) fun g hquiet => hquiet.kill _ _
    have hat' : Host.At { h with table := h.table.kill h.user i.pgid } t i
        (.terminated leaderExit) := ⟨hat.mem, hat.inc, hat.stage⟩
    exact hkilled.advance hat' _ (fun _ => trivial) (fun _ => hh.goesBy hat)
      fun _ => (hh.owned i (keeps_of_at hat)).quiet_kill
  | @wait t i leaderExit x code hat hx hleader hzombie hexit =>
    have hwaited := hh.waited hat (code.or (some KILLED))
    refine hwaited.processes (hwaited.consistent.remove _) le_rfl (fun j hj hpending htaken => ?_)
      (fun g howned => howned.remove _) fun g hquiet => hquiet.remove _
    have hji : j ≠ i := by
      rintro rfl
      rw [show (h.setStage j _).stages j.serial = _ from Function.update_self ..] at hpending
      exact hpending
    refine htaken.remove fun hpid => hji ?_
    have hleader' : h.table.Taken j.pgid (h.births i.serial) := hpid ▸ ⟨x, hx, hleader⟩
    exact hh.eq_of_births hj (keeps_of_at hat) (htaken.unique hleader')
  | @giveUp t i leaderExit hat => exact hh.waited hat (some KILLED)
  | @report t i code hat =>
    refine hh.finish hat.mem (hh.mayReport hat) fun j hj => ?_
    obtain rfl := Option.some.inj (hat.inc.symm.trans hj)
    rw [hat.stage]
    exact ⟨trivial, id⟩
  | @reportBare t hmem hinc =>
    refine hh.finish hmem ?_ fun i hi => absurd (hinc.symm.trans hi) (by simp)
    rw [Teardown.mayReport, hinc]
  | @orphan i x hgone hx hleader hzombie =>
    refine hh.processes (hh.consistent.remove _) le_rfl (fun j hj hpending htaken => ?_)
      (fun g howned => howned.remove _) fun g hquiet => hquiet.remove _
    refine htaken.remove fun hpid => (hh.gone i hgone).2 ?_
    have hleader' : h.table.Taken j.pgid (h.births i.serial) := hpid ▸ ⟨x, hx, hleader⟩
    obtain rfl := hh.eq_of_births hj (.inr (.inr hgone)) (htaken.unique hleader')
    exact hpending

/-- **The host refines the daemon**: its daemon takes one step, or none. -/
theorem refines {e : HostEvent} (hh : Hosted h) (hstep : (host .default).step h e h') :
    h'.world = h.world ∨ ∃ ev, Step h.world ev h'.world := by
  cases hstep with
  | daemon hstep | launch hstep | exit _ hstep | vanish _ hstep => exact .inr ⟨_, hstep⟩
  | report hat => exact .inr ⟨_, .teardownDone hat.mem (hh.mayReport hat)⟩
  | reportBare hmem hinc => exact .inr ⟨_, .teardownDone hmem (by rw [Teardown.mayReport, hinc])⟩
  | _ => exact .inl rfl

end Hosted

theorem hosted_of_reachable {h : Host} (hreach : (host .default).Reachable h) : Hosted h := by
  refine hreach.invariant ?_ fun h e h' _ hh hstep => hh.step hstep
  rintro h ⟨session, hworld, hconsistent, hstages⟩
  obtain ⟨world, table, user, births, stages⟩ := h
  subst hworld hstages
  have hnone (i : Incarnation) : ¬ (World.new session).Keeps i := fun hi =>
    absurd (hi.serial_lt (sound_new session)) (Nat.not_lt_zero _)
  exact ⟨World.reachable_new session, hconsistent, fun k hk => absurd hk (Nat.not_lt_zero k),
    fun j hj => absurd hj (Nat.not_lt_zero j), fun i hi => absurd hi (hnone i), fun _ _ _ => rfl,
    fun _ _ => rfl, fun i hi => absurd hi List.not_mem_nil, fun t ht => absurd ht List.not_mem_nil,
    fun i hi => absurd hi (hnone i), fun i hi => absurd hi (hnone i)⟩

/-! ## Whom a signal reaches -/

variable {h₀ h h' : Host} {ts : List (Transition Host HostEvent)} {e : HostEvent}
  {i j : Incarnation} {n : String}

/-- **Every incarnation was launched**, and its leader is the process forked then. -/
theorem launched_of_run (hinit : (host .default).init h₀) (hrun : (host .default).Run h₀ ts h)
    (hi : h.world.Keeps i) :
    ∃ σ ∈ ts, (∃ ev, σ.ev = .launch ev i) ∧ h.births i.serial = σ.src.table.born := by
  refine hrun.invariant (P := fun ts h => ∀ i, h.world.Keeps i →
    ∃ σ ∈ ts, (∃ ev, σ.ev = .launch ev i) ∧ h.births i.serial = σ.src.table.born)
    (.init hinit) (fun i hi => ?_) (fun ts h e h' hreach ih hstep i hi => ?_) i hi
  · obtain ⟨session, hworld, -⟩ := hinit
    exact absurd ((hworld ▸ hi).serial_lt (sound_new session)) (Nat.not_lt_zero _)
  have hh := hosted_of_reachable hreach
  -- an incarnation that was there keeps its leader, and only a launch brings one that was not
  have hold {i : Incarnation} (hi : h.world.Keeps i) (hbirth : h'.births i.serial =
      h.births i.serial) : ∃ σ ∈ ts ++ [⟨h, e, h'⟩], (∃ ev, σ.ev = .launch ev i) ∧
      h'.births i.serial = σ.src.table.born := by
    obtain ⟨σ, hσ, hlaunch, hborn⟩ := ih i hi
    exact ⟨σ, List.mem_append_left _ hσ, hlaunch, hbirth.trans hborn⟩
  have hsound := (hh.step hstep).sound
  rcases hh.refines hstep with hsame | ⟨ev, hev⟩
  · refine hold (hsame ▸ hi) ?_
    cases hstep with
    | launch hstep _ hnew hkeeps =>
      have hlt : _ < _ := hsame ▸ hkeeps.serial_lt hsound
      exact absurd hlt (by simp [hnew])
    | _ => rfl
  · rcases World.keeps_before hh.sound hev hi with hkept | hfresh
    · refine hold hkept ?_
      cases hstep with
      | launch _ _ hnew =>
        exact Function.update_of_ne (hnew ▸ (hkept.serial_lt hh.sound).ne) _ _
      | _ => rfl
    · have hlt := hi.serial_lt hsound
      cases hstep with
      | launch hlaunch _ hnew hkeeps =>
        have hle := World.spawned_step_le hh.sound hlaunch
        dsimp only at hlt
        obtain rfl := hi.eq hsound hkeeps (by omega)
        exact ⟨_, List.mem_append_right _ (List.mem_singleton_self _), ⟨_, rfl⟩,
          Function.update_self ..⟩
      | daemon _ _ hnone => exact absurd (hnone ▸ hlt) (Nat.not_lt.mpr hfresh)
      | exit _ hstep | vanish _ hstep =>
        cases hstep with
        | exit => exact absurd hlt (Nat.not_lt.mpr hfresh)
      | _ => exact absurd hlt (Nat.not_lt.mpr hfresh)

/-- **A signal reaches its own group**: whoever is in the group of this number when a teardown sends
it a signal is in the group that was founded when the incarnation was launched, whatever pids have
been used again since. -/
theorem signal_reaches_own (hinit : (host .default).init h₀) (hrun : (host .default).Run h₀ ts h)
    (hstep : (host .default).step h e h') (hsignals : e.signals = some i) :
    ∃ σ ∈ ts, (∃ ev, σ.ev = .launch ev i) ∧ ∀ pid x, h.table.process pid = some x →
      x.group.number = i.pgid → x.group = ⟨i.pgid, σ.src.table.born⟩ := by
  have hh := hosted_of_reachable ⟨h₀, ts, hinit, hrun⟩
  obtain ⟨hkeeps, hpending⟩ : h.world.Keeps i ∧ (h.stages i.serial).Pending := by
    cases hstep with
    | terminate hat | kill hat =>
      obtain rfl := Option.some.inj hsignals
      exact ⟨Hosted.keeps_of_at hat, hat.stage ▸ trivial⟩
    | _ => exact absurd hsignals (by simp [HostEvent.signals])
  obtain ⟨σ, hσ, hlaunch, hborn⟩ := launched_of_run hinit hrun hkeeps
  obtain ⟨leader, hleader, hbirth⟩ := hh.leader i hkeeps hpending
  refine ⟨σ, hσ, hlaunch, fun pid x hx hnumber => ?_⟩
  rw [hh.consistent.group_eq hleader hx hnumber, hbirth, hborn]

/-! ## One incarnation at a time -/

namespace Restarted

/-- A host that runs nothing but the daemon. -/
def start : Host := ⟨.new "s", ⟨fun _ => none, 0⟩, 1000, fun _ => 0, fun _ => .fresh⟩

def first : Incarnation := ⟨0, 7⟩

def second : Incarnation := ⟨1, 8⟩

def running : Host where
  world := start.world.receive (.quiet 7) (.spawn "srv" (some "web") none none none none none 0)
  table := start.table.spawn 7 1000
  user := 1000
  births := Function.update start.births 0 0
  stages := start.stages

def forked : Host :=
  { running with table := running.table.add 9 ⟨0, ⟨7, 0⟩, 1000, false, .running⟩ }

/-- The leader has forked two workers. -/
def forkedTwice : Host :=
  { forked with table := forked.table.add 10 ⟨0, ⟨7, 0⟩, 1000, false, .running⟩ }

/-- One of them has become the superuser's. -/
def working : Host :=
  { forkedTwice with table := forkedTwice.table.put 10 ⟨2, ⟨7, 0⟩, 0, true, .running⟩ }

def stopping : Host :=
  { working with world := working.world.receive (.quiet 7) (.restart "web" 1) }

def teardown : Teardown := ⟨"web", 1, some first, none⟩

def terminated : Host := stopping.setStage first (.terminated none)

def killed : Host :=
  { terminated.setStage first (.killed none) with table := terminated.table.kill 1000 7 }

/-- The leader has exited; its worker is still dying. -/
def exited : Host := { killed with
  world := killed.world.leaderExit first none
  table := killed.table.put 7 ⟨0, ⟨7, 0⟩, 1000, false, .zombie⟩ }

def waited : Host :=
  { exited.setStage first (.waited (some KILLED)) with table := exited.table.remove 7 }

def reported : Host :=
  { waited with world := waited.world.finish teardown (some KILLED) }

/-- The operating system when the second incarnation is launched. -/
def os : Os := { Os.quiet 8 with exits := reported.world.exits }

def restarted : Host where
  world := reported.world.deliver os (.stopFinished "web" 1 (some KILLED))
  table := reported.table.spawn 8 1000
  user := 1000
  births := Function.update reported.births 1 3
  stages := reported.stages

theorem init_start : (host .default).init start :=
  ⟨"s", rfl, ⟨by simp [start], by simp [start], by simp [start]⟩, rfl⟩

theorem free_of_empty {t : ProcessTable} (h : ∀ p, t.process p = none) (pid : ℕ) : t.Free pid :=
  ⟨h pid, fun q y hy => absurd ((h q).symm.trans hy) (by simp)⟩

/-- All that runs beside the daemon is in the web server's group. -/
theorem number_of_put {t : ProcessTable} {pid : ℕ} {x : Process} (hx : x.group.number = 7)
    (ht : ∀ q y, t.process q = some y → y.group.number = 7) {q : ℕ} {y : Process}
    (hy : (t.put pid x).process q = some y) : y.group.number = 7 := by
  by_cases hq : q = pid
  · subst hq
    obtain rfl := Option.some.inj (ProcessTable.process_put.symm.trans hy)
    exact hx
  · exact ht q y ((ProcessTable.process_put_ne hq).symm.trans hy)

theorem number_running : ∀ q y, running.table.process q = some y → y.group.number = 7 :=
  fun _ _ hy => number_of_put rfl (fun _ _ hz => absurd hz (by simp [start])) hy

theorem number_forked : ∀ q y, forked.table.process q = some y → y.group.number = 7 :=
  fun _ _ hy => number_of_put rfl number_running hy

theorem exists_run_working : ∃ ts, (host .default).Run start ts working := by
  have hspawn : Step start.world (.client (.quiet 7) _) running.world := .client rfl rfl
  have hlaunch : (host .default).step start (.launch _ first) running :=
    .launch hspawn trivial rfl (.inl ⟨"web", _, rfl, rfl⟩) (free_of_empty (fun _ => rfl) 7)
  have hfork : (host .default).step running (.process (.fork 7 9)) forked := by
    refine .process (.fork ProcessTable.process_add rfl ⟨rfl, fun q y hy => ?_⟩) trivial
    exact (number_running q y hy).trans_ne (by decide)
  have hagain : (host .default).step forked (.process (.fork 7 10)) forkedTwice := by
    refine .process (.fork (x := ⟨0, ⟨7, 0⟩, 1000, false, .running⟩) rfl rfl
      ⟨rfl, fun q y hy => ?_⟩) trivial
    exact (number_forked q y hy).trans_ne (by decide)
  have hbecome : (host .default).step forkedTwice (.process (.become 10 0)) working :=
    .process (.become (x := ⟨2, ⟨7, 0⟩, 1000, false, .running⟩) rfl rfl) trivial
  exact ⟨_, (((Machine.Run.refl.snoc hlaunch).snoc hfork).snoc hagain).snoc hbecome⟩

theorem step_stopping :
    (host .default).step working (.daemon (.client (.quiet 7) (.restart "web" 1))) stopping := by
  have hrestart : Step working.world (.client (.quiet 7) (.restart "web" 1)) stopping.world :=
    .client rfl rfl
  exact .daemon hrestart trivial rfl

theorem step_terminated : (host .default).step stopping (.terminate teardown first) terminated :=
  .terminate ⟨List.mem_singleton_self _, rfl, rfl⟩

theorem step_killed : (host .default).step terminated (.kill teardown first) killed :=
  .kill ⟨List.mem_singleton_self _, rfl, rfl⟩

/-- The web server gets its `SIGKILL`, and nobody else does. -/
theorem web_signalled : ∃ σ : Transition Host HostEvent, (∃ ev, σ.ev = .launch ev first) ∧
    ∀ pid x, terminated.table.process pid = some x → x.group.number = 7 →
      x.group = ⟨7, σ.src.table.born⟩ := by
  obtain ⟨ts, hrun⟩ := exists_run_working
  obtain ⟨σ, -, hlaunch, hreaches⟩ := signal_reaches_own init_start
    ((hrun.snoc step_stopping).snoc step_terminated) step_killed rfl
  exact ⟨σ, hlaunch, hreaches⟩

end Restarted

/-! ## Where the children are not kept -/

namespace Astray

open Restarted (first)

/-- A host with a shell, and the daemon started from it with `SIGCHLD` ignored. -/
def start : Host where
  world := .new "s"
  table := ⟨fun pid => if pid = 1 then some ⟨0, ⟨1, 0⟩, 1000, false, .running⟩ else none, 1⟩
  user := 1000
  births _ := 0
  stages _ := .fresh

def running : Host where
  world := start.world.receive (.quiet 7) (.spawn "srv" (some "web") none none none none none 0)
  table := start.table.spawn 7 1000
  user := 1000
  births := Function.update start.births 0 1
  stages := start.stages

/-- The web server has exited, and nothing is left of it. -/
def vanished : Host := { running with
  world := running.world.leaderExit first none
  table := running.table.remove 7 }

/-- The shell's next command gets the same pid. -/
def reused : Host :=
  { vanished with table := vanished.table.add 7 ⟨0, ⟨1, 0⟩, 1000, false, .running⟩ }

def led : Host :=
  { reused with table := reused.table.put 7 ⟨2, ⟨7, 2⟩, 1000, true, .running⟩ }

/-- What the daemon sees of the web server. -/
def os : Os := { Os.quiet 8 with exits := led.world.exits }

def stopping : Host := { led with world := led.world.receive os (.stop "web" 1) }

def teardown : Teardown := ⟨"web", 1, some first, some none⟩

theorem process_start {q : ℕ} {y : Process} (hy : start.table.process q = some y) :
    y = ⟨0, ⟨1, 0⟩, 1000, false, .running⟩ := by
  simp only [start] at hy
  split at hy
  · exact (Option.some.inj hy).symm
  · cases hy

theorem exists_run_vanished : ∃ ts, (host .ignored).Run start ts vanished := by
  have hspawn : Step start.world (.client (.quiet 7) _) running.world := .client rfl rfl
  have hfree : start.table.Free 7 := by
    refine ⟨rfl, fun q y hy => ?_⟩
    rw [process_start hy]
    decide
  have hlaunch : (host .ignored).step start (.launch _ first) running :=
    .launch hspawn trivial rfl (.inl ⟨"web", _, rfl, rfl⟩) hfree
  have hvanish : (host .ignored).step running (.vanish first) vanished :=
    .vanish (x := ⟨1, ⟨7, 1⟩, 1000, false, .running⟩) rfl (.exit (by decide) rfl)
      (.inl ⟨"web", _, rfl, rfl⟩) rfl rfl
  exact ⟨_, (Machine.Run.refl.snoc hlaunch).snoc hvanish⟩

theorem exists_run_stopping : ∃ ts, (host .ignored).Run vanished ts stopping := by
  have hfree : vanished.table.Free 7 := by
    refine ⟨ProcessTable.process_remove, fun q y hy hnumber => ?_⟩
    by_cases h7 : q = 7
    · subst h7
      exact absurd (ProcessTable.process_remove.symm.trans hy) (by simp)
    have hrunning : running.table.process q = some y :=
      (ProcessTable.process_remove_ne h7).symm.trans hy
    rw [process_start ((ProcessTable.process_add_ne h7).symm.trans hrunning)] at hnumber
    exact absurd hnumber (by decide)
  have hfork : (host .ignored).step vanished (.process (.fork 1 7)) reused :=
    .process (.fork (x := ⟨0, ⟨1, 0⟩, 1000, false, .running⟩) rfl rfl hfree) trivial
  have hlead : (host .ignored).step reused (.process (.lead 7)) led :=
    .process (.lead (x := ⟨2, ⟨1, 0⟩, 1000, false, .running⟩) rfl rfl) trivial
  have hstop : Step led.world (.client os (.stop "web" 1)) stopping.world := .client rfl rfl
  exact ⟨_, ((Machine.Run.refl.snoc hfork).snoc hlead).snoc (.daemon hstop trivial rfl)⟩

/-- **With `SIGCHLD` ignored a signal may go astray**: another group goes by the number of the web
server's when its teardown sends `SIGTERM`. -/
theorem signal_astray : ∃ h₀ ts h h' e x, (host .ignored).init h₀ ∧ (host .ignored).Run h₀ ts h ∧
    (host .ignored).step h e h' ∧ e.signals = some first ∧ h.table.process 7 = some x ∧
    x.group.number = first.pgid ∧ x.group ≠ h.group first := by
  obtain ⟨ts, hrun⟩ := exists_run_vanished
  obtain ⟨us, hrest⟩ := exists_run_stopping
  have hat : stopping.At teardown first .fresh := ⟨List.mem_singleton_self _, rfl, rfl⟩
  have hinit : (host .ignored).init start := by
    refine ⟨"s", rfl, ⟨fun p x hx => ?_, fun p x hx => ?_, fun p x q y hx hy _ => ?_⟩, rfl⟩
    · exact process_start hx ▸ by decide
    · exact process_start hx ▸ by decide
    · rw [process_start hx, process_start hy]
  exact ⟨start, _, stopping, _, .terminate teardown first, ⟨2, ⟨7, 2⟩, 1000, true, .running⟩, hinit,
    hrun.append hrest, .terminate hat, rfl, rfl, rfl, by decide⟩

end Astray

end AgentProcs
