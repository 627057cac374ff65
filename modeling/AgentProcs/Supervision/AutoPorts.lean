import AgentProcs.Daemon.PortSearch
import AgentProcs.Supervision.Lineage

/-!
# Supervision/AutoPorts — who holds an auto-assigned port

    Run ──search──▸ holds 4000 ──exit──▸ exited, 4000 ──Stop · Restart · …──▸ stopping, holds 4000 again
                                   Run ──search──▸ holds 4000

A search leaves out the ports that are held.  A record that has exited holds none, but it keeps its
port, and holds it again once its teardown begins; nothing asks whether another has got it meanwhile.
-/

namespace AgentProcs

variable {w w' : World} {e : Event} {m n : String} {p q r : ManagedProcess}

/-! ## Ports along a record's life -/

theorem RecordChange.port (h : RecordChange p q) : q.port = p.port := by
  cases h with
  | observe os => exact ManagedProcess.observeExit_port os p
  | _ => rfl

theorem Changed.port (h : Changed p q) : q.port = p.port := by
  induction h with
  | refl => rfl
  | tail _ hchange ih => exact hchange.port.trans ih

theorem Life.holdsPort_of_stopping {l : Life} (h : l.isStopping = true) : l.holdsPort = true := by
  cases l with
  | running | exited => exact absurd h (by simp)
  | stopping => rfl

/-- What does not run is not made to run by small changes. -/
theorem RecordChange.not_running (h : RecordChange p q) (hp : ∀ i, p.life ≠ .running i) :
    ∀ i, q.life ≠ .running i := by
  cases h with
  | observe os =>
    rcases p.observeExit_cases os with hsame | ⟨_, _, hrun, -⟩
    · rwa [hsame]
    · exact absurd hrun (hp _)
  | recount | unwatch => exact hp
  | begin | join | park | mark => exact fun _ h => Life.noConfusion h

theorem Changed.not_running (h : Changed p q) (hp : ∀ i, p.life ≠ .running i) :
    ∀ i, q.life ≠ .running i := by
  induction h with
  | refl => exact hp
  | tail _ hchange ih => exact hchange.not_running ih

theorem Life.not_running_of_not_holdsPort {l : Life} (h : l.holdsPort = false) (i : Incarnation) :
    l ≠ .running i := by
  rintro rfl
  exact Bool.noConfusion h

/-- **A port that is held again** is held by a teardown that has begun. -/
theorem Changed.stopping (h : Changed p q) (hp : p.life.holdsPort = false)
    (hq : q.life.holdsPort = true) : q.life.isStopping = true := by
  cases hl : q.life with
  | running i => exact absurd hl (h.not_running (Life.not_running_of_not_holdsPort hp) i)
  | exited => exact absurd hq (by simp [hl, Life.holdsPort])
  | stopping => rfl

theorem not_stopping_of_not_holdsPort {l : Life} (h : l.holdsPort = false) :
    l.isStopping = false := by
  by_contra hstop
  exact absurd (Life.holdsPort_of_stopping (Bool.eq_true_of_not_eq_false hstop)) (by simp [h])

/-- An exit that left no process behind. -/
theorem Life.exists_eq_exited {l : Life} (h : l.holdsPort = false) (hinc : ¬l.inc.isSome = true) :
    ∃ code why timer, l = .exited code why none timer := by
  cases l with
  | running | stopping => exact absurd h (by simp [Life.holdsPort])
  | exited code why inc timer =>
    obtain rfl : inc = none := Option.not_isSome_iff_eq_none.mp hinc
    exact ⟨code, why, timer, rfl⟩

theorem observeExit_of_not_holdsPort (os : Os) (h : p.life.holdsPort = false) :
    p.observeExit os = p := by
  rcases p.observeExit_cases os with hsame | ⟨i, _, hrun, -⟩
  · exact hsame
  · exact absurd hrun (Life.not_running_of_not_holdsPort h i)

/-! ## Holding a port again -/

/-- The event begins the teardown of the exited record `p` called `n`. -/
def Event.Revives (w : World) (n : String) (p : ManagedProcess) : Event → Prop
  | .client _ (.stop target _) => w.actor.targets target n = true ∧ p.life.inc.isSome = true
  | .client _ (.restart target _) => w.actor.stopAll = none ∧ w.actor.targets target n = true
  | .client _ (.stopAll _) => w.actor.stopAll = none ∧ p.life.inc.isSome = true
  | .deliver _ (.autoRestart name generation) =>
    w.actor.stopAll = none ∧ w.actor.Timed name generation n .auto
  | .deliver _ (.watchRestart name generation) =>
    w.actor.stopAll = none ∧ w.actor.Watched name generation n .watch
  | _ => False

/-- The record as the event leaves it that only looks at it. -/
def Event.looks : Event → ManagedProcess → ManagedProcess
  | .client os (.stop ..), p => p.observeExit os
  | .client os (.restart ..), p => p.observeExit os
  | _, p => p

namespace Actor

variable {a : Actor}

theorem lookup_refresh (os : Os) : (a.refresh os).pm.processes.lookup m =
    (a.pm.processes.lookup m).map (·.observeExit os) :=
  Table.lookup_map _ (ManagedProcess.observeExit_name os) _ _

/-- The teardown of one record leaves the others alone. -/
theorem lookup_startTeardown_ne {target : String} {p : ManagedProcess}
    (hfind : a.pm.find target = some p) (hidle : p.life.isStopping = false) (hm : p.name ≠ m)
    (andThen : AfterStop) (waiter : Option Waiter) :
    (a.startTeardown p.name andThen waiter).pm.processes.lookup m = a.pm.processes.lookup m :=
  (lookup_startTeardown (ProcessManager.lookup_of_find hfind) hidle andThen waiter m).trans
    (if_neg hm.symm)

/-- A stop of one record only looks at the others. -/
theorem lookup_handleStop_ne (os : Os) {target : String} (reply : Reply)
    (hm : a.targets target m = false) : (a.handleStop os target reply).pm.processes.lookup m =
      (a.pm.processes.lookup m).map (·.observeExit os) := by
  rw [← lookup_refresh, handleStop]
  split
  · rfl
  · rename_i p hfind
    rw [targets_of_find hfind, beq_eq_false_iff_ne] at hm
    split
    · exact Table.lookup_update_ne hm.symm _ _ _
    · exact Table.lookup_update_ne hm.symm _ _ _
    · rename_i hl
      exact lookup_startTeardown_ne hfind (by rw [hl]; rfl) hm _ _
    · rename_i hl
      exact lookup_startTeardown_ne hfind (by rw [hl]; rfl) hm _ _

/-- So does a restart of one record. -/
theorem lookup_handleRestart_ne (os : Os) {target : String} (reply : Reply)
    (hbatch : a.stopAll = none) (hm : a.targets target m = false) :
    (a.handleRestart os target reply).pm.processes.lookup m =
      (a.pm.processes.lookup m).map (·.observeExit os) := by
  rw [← lookup_refresh, handleRestart, if_neg (by simp [hbatch])]
  dsimp only
  split
  · rfl
  · rename_i p hfind
    rw [targets_of_find hfind, beq_eq_false_iff_ne] at hm
    split
    · exact Table.lookup_update_ne hm.symm _ _ _
    · rename_i hstop
      have hidle : p.life.isStopping = false := by
        cases hl : p.life with
        | running | exited => rfl
        | stopping => exact absurd hl (hstop _ _ _)
      exact lookup_startTeardown_ne hfind hidle hm _ _

/-- A stop of a record that has been torn down leaves it so. -/
theorem not_stopping_handleStop (os : Os) {target : String} (reply : Reply) {code : Option ℤ}
    {why : ExitWhy} {timer : Bool} (hp : a.pm.processes.lookup n = some p)
    (hl : p.life = .exited code why none timer) (hn : a.targets target n = true)
    (hq : (a.handleStop os target reply).pm.processes.lookup n = some q) :
    q.life.isStopping = false := by
  have hlooked : (a.refresh os).pm.processes.lookup n = some p := by
    refine (Table.lookup_map _ (ManagedProcess.observeExit_name os) _ _).trans ?_
    rw [hp, Option.map_some, observeExit_of_not_holdsPort os (by rw [hl]; rfl)]
  rw [handleStop] at hq
  split at hq
  · rename_i hfind
    exact absurd (hn.symm.trans (targets_of_find_none hfind)) (by simp)
  · rename_i p' hfind
    have hname : p'.name = n := beq_iff_eq.mp ((targets_of_find hfind).symm.trans hn)
    have hp' := ProcessManager.lookup_of_find hfind
    obtain rfl : p' = p := Option.some.inj (hp'.symm.trans (hname ▸ hlooked))
    rw [hl] at hq
    subst hname
    have hafter := lookup_update hlooked (fun p => { p with watchHandle := none }) fun _ => rfl
    obtain rfl := Option.some.inj (hafter.symm.trans hq)
    exact hl ▸ rfl

/-- What a stop-all leaves of a record, if it leaves any. -/
theorem lookup_handleStopAll (os : Os) (reply : Reply) (hbatch : a.stopAll = none)
    (hq : (a.handleStopAll os reply).pm.processes.lookup n = some q) :
    ∃ p, a.pm.processes.lookup n = some p ∧ q = (p.observeExit os).swept := by
  have hlooked : (a.refresh os).pm.processes.lookup n =
      (a.pm.processes.lookup n).map (·.observeExit os) :=
    Table.lookup_map _ (ManagedProcess.observeExit_name os) _ _
  have hnames : ∀ m ∈ (a.refresh os).pm.names,
      ∃ p, (a.refresh os).pm.processes.lookup m = some p := fun m hm => Table.mem_keys.mp hm
  have hlookup := lookup_foldl_stopOne n _ ((a.refresh os), ∅) hnames
  rw [handleStopAll, hbatch] at hq
  dsimp only at hq
  generalize (a.refresh os).pm.names.foldl stopOne (a.refresh os, ∅) = st at hlookup hq
  have hsweep : st.1.pm.processes.lookup n = some q := by
    rw [pm_publishProxyState] at hq
    split at hq
    · rw [pm_finishStopAll rfl] at hq
      exact absurd hq (by simp [ProcessManager.clear])
    · exact hq
  rw [hsweep] at hlookup
  split at hlookup
  · obtain ⟨p', hp', rfl⟩ := Option.map_eq_some_iff.mp hlookup.symm
    obtain ⟨p, hp, rfl⟩ := Option.map_eq_some_iff.mp (hlooked.symm.trans hp')
    exact ⟨p, hp, rfl⟩
  · rename_i hmem
    exact absurd (Table.mem_keys.mpr ⟨q, hlookup.symm⟩) hmem

end Actor

/-- **An exited record holds its port again** only if its teardown began. -/
theorem revives_of_stopping (hs : Sound w.books w.actor.holdings) (hstep : Step w e w')
    (hp : w.record n = some p) (hexited : p.life.holdsPort = false) (hq : w'.record n = some q)
    (hstop : q.life.isStopping = true) : e.Revives w n p := by
  have hidle := not_stopping_of_not_holdsPort hexited
  have hbefore : ∀ p', w.record n = some p' → p'.life.isStopping = false := by
    intro p' hp'
    obtain rfl := Option.some.inj (hp.symm.trans hp')
    exact hidle
  obtain ⟨leaderExit, c, waiter, hask, -⟩ := asked_of_begun hs hstep hbefore hq hstop
  have hsame (h : w'.record n = w.record n) : e.Revives w n p := by
    obtain rfl := Option.some.inj (hp.symm.trans (h.symm.trans hq))
    exact absurd (hstop.symm.trans hidle) (by simp)
  cases hstep with
  | @client os cmd hos hreply =>
    cases cmd with
    | stop target reply =>
      have htargets : w.actor.targets target n = true := by
        by_contra hno
        exact absurd hask (by simp [Event.asks, Event.commands, hno])
      refine ⟨htargets, ?_⟩
      by_contra hnone
      obtain ⟨code, why, timer, hl⟩ := Life.exists_eq_exited hexited hnone
      have hno := Actor.not_stopping_handleStop os reply hp hl htargets hq
      exact absurd (hstop.symm.trans hno) (by simp)
    | restart target reply =>
      have hboth : (w.actor.stopAll.isNone && w.actor.targets target n) = true := by
        by_contra hno
        simp only [Event.asks, Event.commands, if_neg hno] at hask
        cases hask
      obtain ⟨hbatch, htargets⟩ := (Bool.and_eq_true ..).mp hboth
      exact ⟨Option.isNone_iff_eq_none.mp hbatch, htargets⟩
    | stopAll reply =>
      by_cases hbatch : w.actor.stopAll = none
      · refine ⟨hbatch, ?_⟩
        obtain ⟨p', hp', rfl⟩ := Actor.lookup_handleStopAll os reply hbatch hq
        obtain rfl := Option.some.inj (hp.symm.trans hp')
        rw [observeExit_of_not_holdsPort os hexited] at hstop
        by_contra hnone
        obtain ⟨code, why, timer, hl⟩ := Life.exists_eq_exited hexited hnone
        exact absurd hstop (by simp [ManagedProcess.swept, hl])
      · refine hsame ?_
        change (w.actor.handleStopAll os reply).pm.processes.lookup n = _
        obtain ⟨B, hB⟩ := Option.ne_none_iff_exists'.mp hbatch
        rw [Actor.handleStopAll, hB]
        rfl
    | _ => exact absurd hask (by simp [Event.asks, Event.commands])
  | @deliver os cmd hos hmem =>
    cases cmd with
    | autoRestart name generation =>
      have hname : name = n := by
        by_contra hno
        exact absurd hask (by simp [Event.asks, hno])
      obtain ⟨m, g, hstamp, hissued⟩ := hs.stamps.inFlight _ hmem
      obtain ⟨rfl, rfl⟩ := Prod.mk.inj (Option.some.inj hstamp)
      rcases Actor.handleAutoRestart_cases (a := (w.take (.autoRestart name generation)).actor) hissued
        with h | ⟨p', hbatch, -, htimed, -⟩
      · have hlookup := congrArg (fun a : Actor => a.pm.processes.lookup n) h
        exact hsame hlookup
      · rw [← hname]
        exact ⟨hbatch, htimed.1 ▸ htimed⟩
    | watchRestart name generation =>
      have hname : name = n := by
        by_contra hno
        exact absurd hask (by simp [Event.asks, hno])
      obtain ⟨m, g, hstamp, hissued⟩ := hs.stamps.inFlight _ hmem
      obtain ⟨rfl, rfl⟩ := Prod.mk.inj (Option.some.inj hstamp)
      rcases Actor.handleWatchRestart_cases (a := (w.take (.watchRestart name generation)).actor)
        hissued with h | ⟨p', hbatch, -, hwatched, -⟩
      · have hlookup := congrArg (fun a : Actor => a.pm.processes.lookup n) h
        exact hsame hlookup
      · rw [← hname]
        exact ⟨hbatch, hwatched.1 ▸ hwatched⟩
    | _ => exact absurd hask (by simp [Event.asks, Event.commands])
  | _ => exact absurd hask (by simp [Event.asks, Event.commands])

/-- **What holds its port beside a record that is revived** still held it when the event had looked at
it. -/
theorem holds_beside (hstep : Step w e w') (hrevives : e.Revives w n p) (hmn : m ≠ n)
    (hq : w.record m = some q) (hheld : q.life.holdsPort = true) (hr : w'.record m = some r)
    (hr' : r.life.holdsPort = true) : (e.looks q).life.holdsPort = true := by
  have htargets {target : String} (hn : w.actor.targets target n = true) :
      w.actor.targets target m = false := by
    rw [Actor.targets] at hn ⊢
    cases hfind : w.actor.pm.find target with
    | none => rfl
    | some x =>
      rw [hfind, Option.any_some, beq_iff_eq] at hn
      simpa [hn] using hmn.symm
  cases hstep with
  | @client os cmd hos hreply =>
    cases cmd with
    | stop target reply =>
      have hlooked := Actor.lookup_handleStop_ne os reply (htargets hrevives.1)
      obtain rfl := Option.some.inj (hr.symm.trans (hlooked.trans (congrArg (Option.map _) hq)))
      exact hr'
    | restart target reply =>
      have hlooked := Actor.lookup_handleRestart_ne os reply hrevives.1 (htargets hrevives.2)
      obtain rfl := Option.some.inj (hr.symm.trans (hlooked.trans (congrArg (Option.map _) hq)))
      exact hr'
    | _ => exact hheld
  | _ => exact hheld

/-- A record sets out: a `Run` that was carried out left it. -/
def SetsOut (w w' : World) (e : Event) (r : ManagedProcess) : Prop :=
  ∃ os command name cwd env port restart watch reply,
    e = .client os (.spawn command name cwd env port restart watch reply) ∧ RunTo os name port w w' r

/-- **Who holds a port after a step** had it before, and held it or is revived; or sets out with it. -/
theorem held_before (hs : Sound w.books w.actor.holdings) (hstep : Step w e w')
    (hr : w'.record n = some r) (hheld : r.life.holdsPort = true) :
    (∃ p, w.record n = some p ∧ p.port = r.port ∧
      (p.life.holdsPort = true ∨ p.life.holdsPort = false ∧ e.Revives w n p)) ∨
    n = r.name ∧ SetsOut w w' e r := by
  have hkept (h : w.record n = some r) : (∃ p, w.record n = some p ∧ p.port = r.port ∧
      (p.life.holdsPort = true ∨ p.life.holdsPort = false ∧ e.Revives w n p)) ∨
      n = r.name ∧ SetsOut w w' e r := .inl ⟨r, h, rfl, .inl hheld⟩
  cases comes_step hs hstep with
  | changed _ hchanges =>
    obtain ⟨p, hp, hpr⟩ := hchanges.records n r hr
    refine .inl ⟨p, hp, hpr.port.symm, ?_⟩
    by_cases hexited : p.life.holdsPort = true
    · exact .inl hexited
    · replace hexited := Bool.eq_false_of_not_eq_true hexited
      exact .inr ⟨hexited, revives_of_stopping hs hstep hp hexited hr (hpr.stopping hexited hheld)⟩
  | declined _ hsame => exact hkept ((congrArg (Table.lookup n) hsame).symm.trans hr)
  | run hrun =>
    rw [hrun.sets] at hr
    split at hr
    · obtain rfl := Option.some.inj hr
      exact .inr ⟨‹_›, _, _, _, _, _, _, _, _, _, rfl, hrun⟩
    · exact hkept hr
  | @respawn os code p r₀ hrespawn =>
    rw [hrespawn.sets] at hr
    split at hr
    · obtain rfl := Option.some.inj hr
      obtain ⟨leaderExit, reason, ws, hl⟩ := hrespawn.awaits
      refine .inl ⟨p, ?_, hrespawn.port.symm, .inl (by rw [hl]; rfl)⟩
      rw [‹n = r₀.name›, hrespawn.name]
      exact hrespawn.record
    · exact hkept hr
  | refused hp _ _ hsets =>
    rw [hsets] at hr
    split at hr
    · obtain rfl := Option.some.inj hr
      exact Bool.noConfusion hheld
    · exact hkept hr

/-- **A port that is assigned is held by no record.** -/
theorem ne_of_resolvePort {os : Os} {pm pm' : ProcessManager} {port : ℕ}
    (h : pm.resolvePort os none = .ok (some port, pm')) (hp : pm.processes.lookup n = some p)
    (hheld : p.life.holdsPort = true) : p.port ≠ some port := by
  intro hport
  rw [ProcessManager.resolvePort] at h
  dsimp only at h
  split at h
  · split at h
    · rename_i c alloc hassign
      obtain rfl : c = port := Option.some.inj (Prod.mk.inj (Except.ok.inj h)).1
      rw [PortAllocator.autoAssignPort_eq] at hassign
      split at hassign
      · rename_i c' hfind
        obtain rfl := (Prod.mk.inj (Except.ok.inj hassign)).1
        have hfree := List.find?_some hfind
        rw [PortAllocator.isFree, Bool.and_eq_true, Bool.not_eq_true'] at hfree
        have hmem : c' ∈ (pm.processes.values.filter (·.life.holdsPort)).filterMap (·.port) := by
          refine List.mem_filterMap.mpr ⟨p, List.mem_filter.mpr ⟨?_, hheld⟩, hport⟩
          exact Table.mem_values.mpr ((Table.key_eq hp).symm ▸ hp)
        exact absurd (List.contains_iff_mem.mpr hmem) (by rw [hfree.1]; exact Bool.false_ne_true)
      · exact absurd hassign (by simp)
    · exact absurd h (by simp)
  · exact absurd (Prod.mk.inj (Except.ok.inj h)).1 (by simp)

/-! ## Who was given a port of the range -/

/-- The daemon, and the names of the records whose port was assigned to them. -/
structure Assigned where
  world : World
  auto : Finset String

/-- The names after a step: a `Run` without a port is assigned one, if its name is new. -/
def Assigned.follow (s : Assigned) (e : Event) (w' : World) : Finset String :=
  let auto := match e with
    | .client _ (.spawn _ name _ _ none _ _ _) =>
      let name := name.getD s.world.nextId
      if (s.world.record name).isSome then s.auto else insert name s.auto
    | _ => s.auto
  auto.filter fun n => (w'.record n).isSome = true

/-- The daemon, with the names kept along. -/
def assigning : Machine Assigned Event where
  init s := daemon.init s.world ∧ s.auto = ∅
  step s e s' := Step s.world e s'.world ∧ s'.auto = s.follow e s'.world

/-- A step of the daemon, with the names. -/
def Assigned.move (s : Assigned) (e : Event) (w' : World) : Assigned := ⟨w', s.follow e w'⟩

theorem Assigned.reachable_move {s : Assigned} (h : assigning.Reachable s)
    (hstep : Step s.world e w') : assigning.Reachable (s.move e w') :=
  h.step (M := assigning) ⟨hstep, rfl⟩

/-- Every run of the daemon is one of these. -/
theorem exists_assigning_run {w₀ w : World} {ts : List (Transition World Event)}
    (h₀ : daemon.init w₀) (hrun : daemon.Run w₀ ts w) :
    ∃ s, assigning.Reachable s ∧ s.world = w := by
  induction hrun with
  | refl => exact ⟨⟨w₀, ∅⟩, .init ⟨h₀, rfl⟩, rfl⟩
  | @snoc ts t u e _ hstep ih =>
    obtain ⟨s, hs, rfl⟩ := ih
    exact ⟨s.move e u, Assigned.reachable_move hs hstep, rfl⟩

/-- No two records hold one assigned port. -/
def UniquePorts (s : Assigned) : Prop :=
  ∀ n ∈ s.auto, ∀ m ∈ s.auto, ∀ p q port, s.world.record n = some p → s.world.record m = some q →
    p.life.holdsPort = true → q.life.holdsPort = true → p.port = some port → q.port = some port →
    n = m

/-- The event begins the teardown of an exited record whose assigned port another has got, and still
holds when that is done. -/
def TakesBack (s : Assigned) (e : Event) : Prop :=
  ∃ n ∈ s.auto, ∃ m ∈ s.auto, ∃ p q port, n ≠ m ∧ s.world.record n = some p ∧
    s.world.record m = some q ∧ p.port = some port ∧ q.port = some port ∧
    p.life.holdsPort = false ∧ e.Revives s.world n p ∧
    ((e.looks q).life.holdsPort = true ∨ q.life.holdsPort = false ∧ e.Revives s.world m q)

/-- Who is among the names after a step was so before, or sets out without a port of its own. -/
theorem mem_follow {s : Assigned} (h : n ∈ s.follow e w') : n ∈ s.auto ∨
    s.world.record n = none ∧ ∃ os command name cwd env restart watch reply,
      e = .client os (.spawn command name cwd env none restart watch reply) := by
  have hmem := (Finset.mem_filter.mp h).1
  split at hmem
  · dsimp only at hmem
    split at hmem
    · exact .inl hmem
    · rename_i hnone
      rcases Finset.mem_insert.mp hmem with rfl | hmem
      · exact .inr ⟨Option.not_isSome_iff_eq_none.mp hnone, _, _, _, _, _, _, _, _, rfl⟩
      · exact .inl hmem
  · exact .inl hmem

/-- Only records that are there are among the names. -/
def Present (s : Assigned) : Prop := ∀ n ∈ s.auto, (s.world.record n).isSome = true

/-- Who sets out with an assigned port shares it with nobody who held it, or is to hold it again. -/
theorem not_setsOut {s s' : Assigned} (hpresent : Present s) (hstep : assigning.step s e s')
    {port : ℕ} (hr : r.name ∈ s'.auto) (hrport : r.port = some port)
    (hq : s.world.record m = some q) (hqport : q.port = some port)
    (hheld : q.life.holdsPort = true ∨ q.life.holdsPort = false ∧ e.Revives s.world m q) :
    ¬ SetsOut s.world s'.world e r := by
  rintro ⟨os, command, name, cwd, env, port', restart, watch, reply, rfl, hrun⟩
  rw [hstep.2] at hr
  obtain hold | ⟨-, os', command', name', cwd', env', restart', watch', reply', he⟩ := mem_follow hr
  · exact absurd (hpresent _ hold) (by rw [hrun.free]; exact Bool.false_ne_true)
  obtain rfl : port' = none := (PmCommand.spawn.inj (Event.client.inj he).2).2.2.2.2.1
  obtain ⟨pm, hresolved⟩ := hrun.port
  rw [hrport] at hresolved
  rcases hheld with hheld | ⟨-, hrevives⟩
  · exact ne_of_resolvePort hresolved hq hheld hqport
  · exact hrevives

/-- **One step** that takes no port back keeps the ports apart. -/
theorem uniquePorts_step {s s' : Assigned} (hs : Sound s.world.books s.world.actor.holdings)
    (hpresent : Present s) (h : UniquePorts s) (hstep : assigning.step s e s')
    (hno : ¬ TakesBack s e) : UniquePorts s' := by
  intro n hn m hm p' q' port hp' hq' hheldp hheldq hportp hportq
  by_contra hne
  have hold {n : String} {p : ManagedProcess} (hn : n ∈ s'.auto) (hp : s.world.record n = some p) :
      n ∈ s.auto := by
    rw [hstep.2] at hn
    rcases mem_follow hn with hn | ⟨hnone, -⟩
    · exact hn
    · exact absurd (hnone.symm.trans hp) (by simp)
  rcases held_before hs hstep.1 hp' hheldp with ⟨p, hp, hpport, hpheld⟩ | ⟨rfl, hout⟩ <;>
    rcases held_before hs hstep.1 hq' hheldq with ⟨q, hq, hqport, hqheld⟩ | ⟨rfl, hout'⟩
  · have hpp := hpport.trans hportp
    have hqp := hqport.trans hportq
    have hn' := hold hn hp
    have hm' := hold hm hq
    rcases hpheld with hpheld | ⟨hpexited, hprevives⟩ <;>
      rcases hqheld with hqheld | ⟨hqexited, hqrevives⟩
    · exact hne (h n hn' m hm' p q port hp hq hpheld hqheld hpp hqp)
    · exact hno ⟨m, hm', n, hn', q, p, port, Ne.symm hne, hq, hp, hqp, hpp, hqexited, hqrevives,
        .inl (holds_beside hstep.1 hqrevives hne hp hpheld hp' hheldp)⟩
    · exact hno ⟨n, hn', m, hm', p, q, port, hne, hp, hq, hpp, hqp, hpexited, hprevives,
        .inl (holds_beside hstep.1 hprevives (Ne.symm hne) hq hqheld hq' hheldq)⟩
    · exact hno ⟨n, hn', m, hm', p, q, port, hne, hp, hq, hpp, hqp, hpexited, hprevives,
        .inr ⟨hqexited, hqrevives⟩⟩
  · exact not_setsOut hpresent hstep hm hportq hp (hpport.trans hportp) hpheld hout'
  · exact not_setsOut hpresent hstep hn hportp hq (hqport.trans hportq) hqheld hout
  · obtain ⟨_, _, _, _, _, _, _, _, _, -, hrun⟩ := hout
    obtain ⟨_, _, _, _, _, _, _, _, _, -, hrun'⟩ := hout'
    have hother := (hrun.sets q'.name).symm.trans hq'
    rw [if_neg (Ne.symm hne), hrun'.free] at hother
    exact absurd hother (by simp)

/-! ## Every run -/

theorem reachable_world {s : Assigned} (h : assigning.Reachable s) : daemon.Reachable s.world := by
  refine h.invariant (P := fun s => daemon.Reachable s.world) (fun _ h₀ => .init h₀.1) ?_
  intro s e s' _ hs hstep
  have hmove : daemon.step s.world e s'.world := hstep.1
  exact hs.step hmove

theorem present_of_reachable {s : Assigned} (h : assigning.Reachable s) : Present s := by
  refine h.invariant (P := Present) ?_ ?_
  · rintro s ⟨-, hnone⟩ n hn
    exact absurd (hnone ▸ hn) (Finset.notMem_empty n)
  · intro s e s' _ _ hstep n hn
    rw [hstep.2] at hn
    exact (Finset.mem_filter.mp hn).2

/-- **Auto-assigned ports are unique** in every run in which no port is taken back from another. -/
theorem uniquePorts_of_noTakeBack {s : Assigned}
    (h : (assigning.guarded fun s e => ¬ TakesBack s e).Reachable s) : UniquePorts s := by
  refine h.invariant (P := UniquePorts) ?_ ?_
  · rintro s ⟨-, hnone⟩ n hn
    exact absurd (hnone ▸ hn) (Finset.notMem_empty n)
  · intro s e s' hs ih hstep
    exact uniquePorts_step (sound_of_reachable (reachable_world hs.of_guarded))
      (present_of_reachable hs.of_guarded) ih hstep.1 hstep.2

/-- A `Run` begins no teardown. -/
theorem not_takesBack_spawn {s : Assigned} (os : Os) (command : String) (name cwd : Option String)
    (env : Option (List (String × String))) (port : Option ℕ) (restart : Option RestartPolicy)
    (watch : Option WatchConfig) (reply : Reply) :
    ¬ TakesBack s (.client os (.spawn command name cwd env port restart watch reply)) := by
  rintro ⟨n, -, m, -, p, q, port', -, -, -, -, -, -, hrevives, -⟩
  exact hrevives

/-- Where every record holds its port, none is taken back. -/
theorem not_takesBack_of_held {s : Assigned} {e : Event}
    (h : ∀ p ∈ s.world.actor.pm.processes.values, p.life.holdsPort = true) : ¬ TakesBack s e := by
  rintro ⟨n, -, m, -, p, q, port', -, hp, -, -, -, hexited, -⟩
  have hmem := Table.mem_values.mpr ((Table.key_eq hp).symm ▸ hp)
  exact absurd (h p hmem) (by simp [hexited])

namespace PortTakenBack

def run (name : String) (reply : Reply) : PmCommand :=
  .spawn "srv" (some name) none none none none none reply

def start : Assigned := ⟨.new "s", ∅⟩

def enabled : Assigned :=
  start.move (.client (.quiet 7) (.enableProxy 9090 0))
    (start.world.receive (.quiet 7) (.enableProxy 9090 0))

/-- `api` is assigned port 4000. -/
def assigned : Assigned :=
  enabled.move (.client (.quiet 7) (run "api" 1)) (enabled.world.receive (.quiet 7) (run "api" 1))

/-- `web` is assigned the next. -/
def both : Assigned :=
  assigned.move (.client (.quiet 8) (run "web" 2)) (assigned.world.receive (.quiet 8) (run "web" 2))

/-- `api` is to be restarted. -/
def stopping : Assigned :=
  both.move (.client (.quiet 9) (.restart "api" 3))
    (both.world.receive (.quiet 9) (.restart "api" 3))

def vacated : Assigned :=
  stopping.move (.teardownDone ⟨"api", 1, some ⟨0, 7⟩, none⟩ (some 0))
    (stopping.world.finish ⟨"api", 1, some ⟨0, 7⟩, none⟩ (some 0))

/-- It is started again, with its port. -/
def restarted : Assigned :=
  vacated.move (.deliver (.quiet 9) (.stopFinished "api" 1 (some 0)))
    (vacated.world.deliver (.quiet 9) (.stopFinished "api" 1 (some 0)))

/-- The leader of `api` has exited, and only port 4000 can be bound. -/
def busy : Os where
  exits := Function.update (fun _ => none) ⟨0, 7⟩ (some (some 0))
  waitidFails := fun _ => false
  spawn := .ok 8
  watch := .ok ()
  bind := (· == 4000)
  now := 0

def exited : Assigned :=
  assigned.move (.exit ⟨0, 7⟩ (some 0)) (assigned.world.leaderExit ⟨0, 7⟩ (some 0))

/-- The exit is seen, and `api` holds no port any more. -/
def seen : Assigned := exited.move (.tick busy) (exited.world.tick busy)

/-- `web` is assigned the port that `api` had. -/
def reassigned : Assigned :=
  seen.move (.client busy (run "web" 2)) (seen.world.receive busy (run "web" 2))

def takenBack : Assigned :=
  reassigned.move (.client busy (.restart "api" 3)) (reassigned.world.receive busy (.restart "api" 3))

theorem reachable_assigned : assigning.Reachable assigned :=
  Assigned.reachable_move (Assigned.reachable_move (.init ⟨⟨"s", rfl⟩, rfl⟩) (.client rfl rfl))
    (.client rfl rfl)

theorem reachable_takenBack : assigning.Reachable takenBack := by
  have hexited : assigning.Reachable exited :=
    Assigned.reachable_move reachable_assigned (.exit (by decide +kernel) rfl)
  have hseen : assigning.Reachable seen := Assigned.reachable_move hexited (.tick rfl)
  exact Assigned.reachable_move (Assigned.reachable_move hseen (.client rfl rfl)) (.client rfl rfl)

end PortTakenBack

/-- Two processes are assigned one port after the other, and the first is restarted. -/
theorem uniquePorts_of_noTakeBack_both :
    PortTakenBack.restarted.auto = {"api", "web"} ∧ UniquePorts PortTakenBack.restarted := by
  refine ⟨by decide +kernel, uniquePorts_of_noTakeBack ?_⟩
  have hstart : (assigning.guarded fun s e => ¬ TakesBack s e).Reachable PortTakenBack.start :=
    .init ⟨⟨"s", rfl⟩, rfl⟩
  have henabled : (assigning.guarded fun s e => ¬ TakesBack s e).Reachable PortTakenBack.enabled :=
    hstart.step ⟨⟨.client rfl rfl, rfl⟩, fun ⟨n, hn, _⟩ => absurd hn (Finset.notMem_empty n)⟩
  have hassigned : (assigning.guarded fun s e => ¬ TakesBack s e).Reachable PortTakenBack.assigned :=
    henabled.step ⟨⟨.client rfl rfl, rfl⟩, not_takesBack_spawn _ _ _ _ _ _ _ _ _⟩
  have hboth : (assigning.guarded fun s e => ¬ TakesBack s e).Reachable PortTakenBack.both :=
    hassigned.step ⟨⟨.client rfl rfl, rfl⟩, not_takesBack_spawn _ _ _ _ _ _ _ _ _⟩
  have hstopping :
      (assigning.guarded fun s e => ¬ TakesBack s e).Reachable PortTakenBack.stopping :=
    hboth.step ⟨⟨.client rfl rfl, rfl⟩, not_takesBack_of_held (by decide +kernel)⟩
  have hvacated : (assigning.guarded fun s e => ¬ TakesBack s e).Reachable PortTakenBack.vacated :=
    hstopping.step ⟨⟨.teardownDone (by decide +kernel) trivial, rfl⟩,
      not_takesBack_of_held (by decide +kernel)⟩
  exact hvacated.step ⟨⟨.deliver rfl (by decide +kernel), rfl⟩,
    not_takesBack_of_held (by decide +kernel)⟩

/-- What the search for a port promises. -/
def PortsStayUnique : Prop := ∀ s, assigning.Reachable s → UniquePorts s

/-- **A port is assigned while its owner is down**, and held twice when that is restarted. -/
theorem not_portsStayUnique : ¬ PortsStayUnique := by
  intro h
  have hapi : (PortTakenBack.takenBack.world.record "api").map (fun p => (p.life.holdsPort, p.port)) =
      some (true, some 4000) := by decide +kernel
  have hweb : (PortTakenBack.takenBack.world.record "web").map (fun p => (p.life.holdsPort, p.port)) =
      some (true, some 4000) := by decide +kernel
  obtain ⟨p, hp, hpheld⟩ := Option.map_eq_some_iff.mp hapi
  obtain ⟨q, hq, hqheld⟩ := Option.map_eq_some_iff.mp hweb
  obtain ⟨hpheld, hpport⟩ := Prod.mk.inj hpheld
  obtain ⟨hqheld, hqport⟩ := Prod.mk.inj hqheld
  have hsame := h _ PortTakenBack.reachable_takenBack "api" (by decide +kernel) "web"
    (by decide +kernel) p q 4000 hp hq hpheld hqheld hpport hqport
  exact absurd hsame (by decide)

end AgentProcs
