import AgentProcs.Daemon.Wait
import AgentProcs.Supervision.Changes

/-!
# Supervision/WaitExit — a wait for an exit, while the daemon moves on

    find target = r ──report of its teardown──▸ r exited ──▸ poll = some code ──▸ WaitExited
                   ──stop-all finishes─────────▸ no record ──▸ poll = none ────▸ WaitTimeout

A poll looks the target up afresh.  What it looks for is still there, under the same id, until the
table is emptied or a newer incarnation takes its place; and once the teardown has been reported, an
exit is there to see.
-/

namespace AgentProcs

variable {w w' u : World} {e : Event} {n target : String} {p q r : ManagedProcess}

/-! ## Where ids come from -/

/-- **Ids name records**: each was counted out, and none twice. -/
structure Ids (w : World) : Prop where
  counted : ∀ n p, w.record n = some p → ∃ k < w.actor.pm.idCounter, p.id = s!"p{k}"
  inj : ∀ m n p q, w.record m = some p → w.record n = some q → p.id = q.id → m = n

theorem idText_injective {j k : ℕ} (h : s!"p{j}" = s!"p{k}") : j = k := by
  have htext : "p" ++ toString j = "p" ++ toString k := h
  exact toString_injective ((String.append_right_inj _).mp htext)

/-- The record `q` goes on where `p` was: the same incarnation, whose exit is not forgotten. -/
structure GoesOn (p q : ManagedProcess) : Prop where
  id : q.id = p.id
  generation : q.generation = p.generation
  exit : p.life.leaderExit.isSome = true → q.life.leaderExit.isSome = true

theorem RecordChange.goesOn (h : RecordChange p q) : GoesOn p q := by
  cases h with
  | observe os =>
    rcases p.observeExit_cases os with hsame | ⟨inc, code, -, -, hafter⟩
    · rw [hsame]
      exact ⟨rfl, rfl, id⟩
    · rw [hafter]
      exact ⟨rfl, rfl, fun _ => rfl⟩
  | recount | begin | unwatch => exact ⟨rfl, rfl, id⟩
  | join _ _ hlife => exact ⟨rfl, rfl, fun hexit => by rwa [hlife] at hexit⟩
  | park | mark => exact ⟨rfl, rfl, fun _ => rfl⟩

theorem Changed.goesOn (h : Changed p q) : GoesOn p q := by
  induction h with
  | refl => exact ⟨rfl, rfl, id⟩
  | tail _ hchange ih =>
    have hnext := hchange.goesOn
    exact ⟨hnext.id.trans ih.id, hnext.generation.trans ih.generation, fun h => hnext.exit (ih.exit h)⟩

/-- **A record after a step** goes on where one was, or holds a fresh incarnation. -/
theorem goesOn_or_launched (hd : Descended w e w') (hq : w'.record n = some q) :
    (∃ p, w.record n = some p ∧ GoesOn p q) ∨
      Actor.Launched w.actor w'.actor q ∧ w'.actor.pm.idCounter = w.actor.pm.idCounter + 1 := by
  rcases hd.records n q hq with ⟨p, hp, hchanged⟩ | ⟨hlaunched, hcounter, -⟩ |
    ⟨p, count, code, ⟨_, _, _, _, _, _, -, hp, -, -⟩, rfl⟩
  · exact .inl ⟨p, hp, hchanged.goesOn⟩
  · exact .inr ⟨hlaunched, hcounter⟩
  · exact .inl ⟨p, hp, rfl, rfl, fun _ => rfl⟩

theorem ids_of_reachable (h : daemon.Reachable w) : Ids w := by
  refine h.invariant (P := Ids) ?_ ?_
  · rintro w ⟨session, rfl⟩
    have hnone (n : String) : (World.new session).record n = none := Table.lookup_empty n
    exact ⟨fun n p hp => absurd hp (by simp [hnone]), fun m n p q hp => absurd hp (by simp [hnone])⟩
  · intro w e w' hw ih hstep
    have hd := descended_step (sound_of_reachable hw) hstep
    have hs' := sound_of_reachable (hw.step hstep)
    have hgrows : w.actor.pm.idCounter ≤ w'.actor.pm.idCounter := by
      rcases hd.idCounter with h | h <;> omega
    -- a fresh id is none of those counted out before
    have hfresh {n : String} {p q : ManagedProcess} (hp : w.record n = some p)
        (hq : Actor.Launched w.actor w'.actor q) : p.id ≠ q.id := by
      obtain ⟨k, hk, hid⟩ := ih.counted n p hp
      intro heq
      have := idText_injective (hid.symm.trans (heq.trans hq.id))
      omega
    refine ⟨fun n q hq => ?_, fun m n p q hp hq hid => ?_⟩
    · rcases goesOn_or_launched hd hq with ⟨p, hp, hgoes⟩ | ⟨hlaunched, hcounter⟩
      · obtain ⟨k, hk, hid⟩ := ih.counted n p hp
        exact ⟨k, by omega, hgoes.id.trans hid⟩
      · exact ⟨_, by omega, hlaunched.id⟩
    · rcases goesOn_or_launched hd hp with ⟨p₀, hp₀, hgoes⟩ | ⟨hlaunched, -⟩ <;>
        rcases goesOn_or_launched hd hq with ⟨q₀, hq₀, hgoes'⟩ | ⟨hlaunched', -⟩
      · exact ih.inj m n p₀ q₀ hp₀ hq₀ (hgoes.id.symm.trans (hid.trans hgoes'.id))
      · exact absurd (hgoes.id.symm.trans hid) (hfresh hp₀ hlaunched')
      · exact absurd (hgoes'.id.symm.trans hid.symm) (hfresh hq₀ hlaunched)
      · exact hs'.stamps.inj m n p q hp hq (hlaunched.generation.trans hlaunched'.generation.symm)

/-- A record is found under its id, if no record has that for a name. -/
theorem find_of_id (hids : Ids w) (hq : w.record n = some q) (hnone : w.record q.id = none) :
    w.actor.pm.find q.id = some q := by
  have hid : w.actor.pm.processes.values.find? (fun p => p.id == q.id) = some q := by
    have hmem : q ∈ w.actor.pm.processes.values :=
      Table.mem_values.mpr ((Table.key_eq hq).symm ▸ hq)
    have hsome : (w.actor.pm.processes.values.find? fun p => p.id == q.id).isSome = true :=
      List.find?_isSome.mpr ⟨q, hmem, beq_self_eq_true q.id⟩
    obtain ⟨p, hfound⟩ := Option.isSome_iff_exists.mp hsome
    have hbeq : (p.id == q.id) = true := 
      List.find?_some (p := fun p : ManagedProcess => p.id == q.id) hfound
    have hp := Table.mem_values.mp (List.mem_of_find?_eq_some hfound)
    have heq := hids.inj _ _ p q hp hq (eq_of_beq hbeq)
    rw [hfound, ← hp, heq, ← hq]
    rfl
  rw [ProcessManager.find, hid, show w.actor.pm.processes.lookup q.id = none from hnone]
  rfl

/-! ## What a poll sees -/

theorem isProcessExited_eq (os : Os) (target : String) (pm : ProcessManager) :
    (pm.isProcessExited os target).2 =
      (pm.find target).bind fun p => (p.observeExit os).life.leaderExit := by
  rw [ProcessManager.isProcessExited]
  dsimp only
  rw [ProcessManager.find_refreshExitStates, Option.bind_map]
  congr 1
  funext p
  rw [Function.comp]
  cases (p.observeExit os).life with
  | running | exited => rfl
  | stopping leaderExit => cases leaderExit <;> rfl

/-- What a wait has met without an answer does not matter for what comes next. -/
theorem waitLoop_append {E : RegexEngine} (pattern : Option String)
    (compiled : Option E.Regex) (waitExit : Bool) {before : List WaitEvent} (after : List WaitEvent)
    (hpending : waitLoop E target pattern compiled waitExit before = .waitTimeout) :
    waitLoop E target pattern compiled waitExit (before ++ after) =
      waitLoop E target pattern compiled waitExit after := by
  fun_induction waitLoop E target pattern compiled waitExit before <;> simp_all [waitLoop]

/-- The poll answers the wait for an exit that put it, whatever that has met before. -/
def AnswersWait (target : String) (polled : Option (Option ℤ)) : Prop :=
  ∃ code, polled = some code ∧ ∀ (E : RegexEngine) (pattern : Option String)
    (compiled : Option E.Regex) (before after : List WaitEvent),
    waitLoop E target pattern compiled true before = .waitTimeout →
      waitLoop E target pattern compiled true (before ++ .exitPoll polled :: after) =
        .waitExited code

theorem answersWait_of_isSome {polled : Option (Option ℤ)} (h : polled.isSome = true) :
    AnswersWait target polled := by
  obtain ⟨code, rfl⟩ := Option.isSome_iff_exists.mp h
  refine ⟨code, rfl, fun E pattern compiled before after hpending => ?_⟩
  rw [waitLoop_append pattern compiled true _ hpending, waitLoop]

/-! ## One step -/

/-- The event reports that the incarnation of `r` has been torn down. -/
def Event.TearsDown (r : ManagedProcess) (e : Event) : Prop :=
  ∃ os code, e = .deliver os (.stopFinished r.name r.generation code)

/-- **A step leaves the awaited incarnation** where it was, and its report leaves an exit to see. -/
theorem goesOn_step (hw : daemon.Reachable w) (hstep : Step w e w') (hp : w.record p.name = some p)
    (hfin : ¬FinishesStopAll w e)
    (hnewer : ∀ q, w'.record p.name = some q → q.generation = p.generation) :
    ∃ q, w'.record p.name = some q ∧ GoesOn p q ∧
      (e.TearsDown p → q.life.leaderExit.isSome = true) := by
  have hs := sound_of_reachable hw
  have hd := descended_step hs hstep
  obtain ⟨q, hq⟩ := Option.isSome_iff_exists.mp
    ((hd.kept p.name (Option.isSome_of_eq_some hp)).resolve_right hfin)
  have hgoes : GoesOn p q := by
    rcases goesOn_or_launched hd hq with ⟨p', hp', hgoes⟩ | ⟨hlaunched, -⟩
    · obtain rfl := Option.some.inj (hp.symm.trans hp')
      exact hgoes
    · have hle := hs.stamps.le p.name p hp
      have hgen := hlaunched.generation.symm.trans (hnewer q hq)
      change p.generation ≤ w.actor.pm.nextGeneration at hle
      omega
  refine ⟨q, hq, hgoes, ?_⟩
  rintro ⟨os, code, rfl⟩
  obtain ⟨p', hp', -, -, hstop⟩ := due_of_inFlight hs (by cases hstep; assumption)
  obtain rfl := Option.some.inj (hp.symm.trans hp')
  cases hl : p.life with
  | running | exited => exact absurd hstop (by simp [hl])
  | stopping leaderExit andThen ws =>
    have hwins := lastWins_of_report hw hstep hp hl
    cases andThen with
    | park =>
      obtain ⟨code', hexited⟩ := (hwins.parked rfl).1 q hq
      rw [hexited]
      rfl
    | respawn reason =>
      obtain ⟨q', resp, hq', hrespawned, hgen, -⟩ := hwins.respawned reason rfl
      obtain rfl := Option.some.inj (hq.symm.trans hq')
      have hfailed : ¬∃ pid, os.spawn = .ok pid :=
        fun hok => absurd (hgen.mpr hok) (by rw [hgoes.generation]; exact lt_irrefl _)
      unfold ManagedProcess.Respawned at hrespawned
      cases hspawn : os.spawn with
      | ok pid => exact absurd ⟨pid, hspawn⟩ hfailed
      | error message =>
        rw [hspawn] at hrespawned
        obtain ⟨code', hexited⟩ := hrespawned.1
        rw [hexited]
        rfl

/-! ## Every run -/

/-- The incarnation of `r` was torn down before the run, or a step of it reports so. -/
def TornDown (r : ManagedProcess) (ts : List (Transition World Event)) : Prop :=
  (∃ code why timer, r.life = .exited code why none timer) ∨ ∃ τ ∈ ts, τ.ev.TearsDown r

/-- No newer incarnation takes the place of `r`. -/
def NoneNewer (r : ManagedProcess) (ts : List (Transition World Event)) : Prop :=
  ∀ τ ∈ ts, ∀ q, τ.dst.record r.name = some q → q.generation = r.generation

/-- The awaited record is where it was, with an exit to see if its teardown has been reported. -/
theorem goesOn_of_run {ts : List (Transition World Event)} (hw : daemon.Reachable w)
    (hr : w.record r.name = some r) (hrun : daemon.Run w ts u)
    (hstopAll : ∀ τ ∈ ts, ¬FinishesStopAll τ.src τ.ev) (hnewer : NoneNewer r ts) :
    ∃ q, u.record r.name = some q ∧ GoesOn r q ∧
      (TornDown r ts → q.life.leaderExit.isSome = true) := by
  revert hstopAll hnewer
  refine hrun.invariant (P := fun ts u => (∀ τ ∈ ts, ¬FinishesStopAll τ.src τ.ev) →
    NoneNewer r ts → ∃ q, u.record r.name = some q ∧ GoesOn r q ∧
      (TornDown r ts → q.life.leaderExit.isSome = true)) hw ?_ ?_
  · refine fun _ _ => ⟨r, hr, ⟨rfl, rfl, id⟩, ?_⟩
    rintro (⟨code, why, timer, hl⟩ | ⟨τ, hτ, -⟩)
    · rw [hl]
      rfl
    · exact absurd hτ List.not_mem_nil
  · intro ts t e u ht ih hstep hstopAll hnewer
    simp only [NoneNewer, List.forall_mem_append, List.forall_mem_singleton] at hstopAll hnewer
    obtain ⟨p, hp, hgoes, hexit⟩ := ih hstopAll.1 hnewer.1
    have hname : p.name = r.name := Table.key_eq hp
    obtain ⟨q, hq, hgoes', hreport⟩ := goesOn_step ht hstep (hname.symm ▸ hp) hstopAll.2
      fun q hq => (hnewer.2 q (hname ▸ hq)).trans hgoes.generation.symm
    refine ⟨q, hname ▸ hq, ⟨hgoes'.id.trans hgoes.id, hgoes'.generation.trans hgoes.generation,
      fun h => hgoes'.exit (hgoes.exit h)⟩, ?_⟩
    rintro (hbefore | ⟨τ, hτ, htears⟩)
    · exact hgoes'.exit (hexit (.inl hbefore))
    · rcases List.mem_append.mp hτ with hτ | hτ
      · exact hgoes'.exit (hexit (.inr ⟨τ, hτ, htears⟩))
      · obtain rfl := List.mem_singleton.mp hτ
        refine hreport ?_
        rwa [Event.TearsDown, hname, hgoes.generation]

/-- **The target still finds the awaited record**: by its name, or by an id that no record has for a
name. -/
theorem find_of_run {ts : List (Transition World Event)} (hw : daemon.Reachable w)
    (hfind : w.actor.pm.find target = some r) (hrun : daemon.Run w ts u)
    (hnewer : NoneNewer r ts) (hstopAll : ∀ τ ∈ ts, ¬FinishesStopAll τ.src τ.ev)
    (hname : target = r.name ∨ ∀ τ ∈ ts, τ.dst.record target = none) :
    ∃ q, u.actor.pm.find target = some q ∧ u.record r.name = some q ∧
      (TornDown r ts → q.life.leaderExit.isSome = true) := by
  obtain ⟨q, hq, hgoes, hexit⟩ :=
    goesOn_of_run hw (ProcessManager.lookup_of_find hfind) hrun hstopAll hnewer
  refine ⟨q, ?_, hq, hexit⟩
  by_cases htarget : target = r.name
  · rw [htarget]
    exact ProcessManager.find_of_lookup hq
  have hids := ids_of_reachable (hw.run hrun)
  rw [ProcessManager.find, Option.or_eq_some_iff] at hfind
  rcases hfind with hlookup | ⟨hlookup, hid⟩
  · exact absurd (Table.key_eq hlookup).symm htarget
  have hbeq : (r.id == target) = true :=
    List.find?_some (p := fun p : ManagedProcess => p.id == target) hid
  obtain rfl : q.id = target := hgoes.id.trans (eq_of_beq hbeq)
  refine find_of_id hids hq ?_
  cases hrun with
  | refl => exact hlookup
  | snoc _ _ =>
    exact hname.resolve_left htarget _ (List.mem_append_right _ (List.mem_singleton_self _))

/-- **A wait for an exit sees it, if no stop-all finishes**: the target is a record of a reachable
state, and its incarnation is torn down in the run from there, with none newer taking its place; the
next poll then answers the wait, if no step of the run empties the table and, where the target is the
id of the record, no record is called like that. -/
theorem answersWait_of_run {ts : List (Transition World Event)} (hw : daemon.Reachable w)
    (hfind : w.actor.pm.find target = some r) (hrun : daemon.Run w ts u) (htorn : TornDown r ts)
    (hnewer : NoneNewer r ts) (hstopAll : ∀ τ ∈ ts, ¬FinishesStopAll τ.src τ.ev)
    (hname : target = r.name ∨ ∀ τ ∈ ts, τ.dst.record target = none) (os : Os) :
    AnswersWait target (u.actor.pm.isProcessExited os target).2 := by
  obtain ⟨q, hfound, -, hexit⟩ := find_of_run hw hfind hrun hnewer hstopAll hname
  refine answersWait_of_isSome ?_
  rw [isProcessExited_eq, hfound]
  exact (RecordChange.observe os q).goesOn.exit (hexit htorn)

/-! ## A process awaited by its name -/

namespace AwaitedWeb

def spawned : World := (World.new "s").receive (.quiet 7)
  (.spawn "srv" (some "web") none none none none none 0)

def teardown : Teardown := ⟨"web", 1, some ⟨0, 7⟩, none⟩

def stopping : World := spawned.receive (.quiet 8) (.stop "web" 1)

def halted : World := stopping.finish teardown (some 0)

def parked : World := halted.deliver (.quiet 8) (.stopFinished "web" 1 (some 0))

def sweeping : World := spawned.receive (.quiet 8) (.stopAll 1)

def swept : World := sweeping.finish teardown (some 0)

def emptied : World := swept.deliver (.quiet 8) (.stopFinished "web" 1 (some 0))

theorem reachable_spawned : daemon.Reachable spawned :=
  World.reachable_receive (World.reachable_new "s") rfl rfl

def record : ManagedProcess where
  name := "web"
  id := "p1"
  command := "srv"
  cwd := none
  env := []
  pid := 7
  startedAt := 0
  port := none
  restartPolicy := none
  watchConfig := none
  restartCount := 0
  generation := 1
  life := .running ⟨0, 7⟩
  watchHandle := none

theorem find_record : spawned.actor.pm.find "web" = some record := rfl

/-- The record is the first incarnation, or gone. -/
theorem oldest {w : World} (h : (w.record "web").all (·.generation == 1) = true) :
    ∀ q, w.record record.name = some q → q.generation = record.generation := by
  intro q hq
  rw [show w.record "web" = some q from hq] at h
  exact eq_of_beq h

end AwaitedWeb

open AwaitedWeb in
/-- A stop, and the next poll. -/
theorem answersWait_of_run_stopped :
    AnswersWait "web" (parked.actor.pm.isProcessExited (.quiet 8) "web").2 := by
  have hstop : Step spawned (.client (.quiet 8) (.stop "web" 1)) stopping := .client rfl rfl
  have hdone : Step stopping (.teardownDone teardown (some 0)) halted :=
    .teardownDone (by decide) trivial
  have hreport : Step halted (.deliver (.quiet 8) (.stopFinished "web" 1 (some 0))) parked :=
    .deliver rfl (by decide)
  have hrun : daemon.Run spawned _ parked :=
    ((Machine.Run.refl.snoc hstop).snoc hdone).snoc hreport
  refine answersWait_of_run reachable_spawned find_record hrun (.inr ⟨_,
    List.mem_append_right _ (List.mem_singleton_self _), _, _, rfl⟩) ?_ ?_ (.inl rfl) _
  · simp only [NoneNewer, List.nil_append, List.cons_append, List.forall_mem_cons]
    exact ⟨oldest (by decide), oldest (by decide), oldest (by decide),
      fun τ hτ => absurd hτ List.not_mem_nil⟩
  · simp only [List.nil_append, List.cons_append, List.forall_mem_cons]
    refine ⟨id, id, ?_, fun τ hτ => absurd hτ List.not_mem_nil⟩
    rintro ⟨B, hB, -⟩
    have hnone : halted.actor.stopAll.isNone = true := by decide
    exact absurd hnone (by rw [hB]; simp)

/-- Whatever happens to an awaited process, the next poll after its teardown answers. -/
def WaitSeesExits : Prop :=
  ∀ w u target r ts os, daemon.Reachable w → w.actor.pm.find target = some r →
    daemon.Run w ts u → TornDown r ts → NoneNewer r ts →
    AnswersWait target (u.actor.pm.isProcessExited os target).2

open AwaitedWeb in
/-- **The last report of a stop-all is all it takes**: the step that records the exit empties the
table. -/
theorem not_waitSeesExits : ¬WaitSeesExits := by
  intro h
  have hsweep : Step spawned (.client (.quiet 8) (.stopAll 1)) sweeping := .client rfl rfl
  have hdone : Step sweeping (.teardownDone teardown (some 0)) swept :=
    .teardownDone (by decide) trivial
  have hreport : Step swept (.deliver (.quiet 8) (.stopFinished "web" 1 (some 0))) emptied :=
    .deliver rfl (by decide)
  have hrun : daemon.Run spawned _ emptied :=
    ((Machine.Run.refl.snoc hsweep).snoc hdone).snoc hreport
  obtain ⟨code, hsome, -⟩ := h _ _ "web" _ _ (.quiet 8) reachable_spawned find_record hrun
    (.inr ⟨_, List.mem_append_right _ (List.mem_singleton_self _), _, _, rfl⟩) (by
      simp only [NoneNewer, List.nil_append, List.cons_append, List.forall_mem_cons]
      exact ⟨oldest (by decide), oldest (by decide), oldest (by decide),
        fun τ hτ => absurd hτ List.not_mem_nil⟩)
  have hnone : (emptied.actor.pm.isProcessExited (.quiet 8) "web").2 = none := by decide
  exact absurd (hnone.symm.trans hsome) (by simp)

end AgentProcs
