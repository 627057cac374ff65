import AgentProcs.Machinery.Runs
import Mathlib.Data.List.Flatten
import Mathlib.Data.List.Nodup
import Mathlib.Logic.Function.Basic

/-!
# Machinery/Stages — tasks done side by side, one stage after the other

    stage 0   a b c ──ask, answer in any order──▸ judged ──▸ stage 1   d e ──▸ ⋯ ──▸ finished
                                                    └──▸ failed, with the verdict on one of a b c

The tasks of a stage are asked and answered in any order; when all are answered, the first of them,
in the order of the stage, whose answer has a verdict ends the work.  Only then does the next stage
begin.
-/

namespace AgentProcs

variable {τ ρ κ : Type*}

/-- The stages, and the answers that end the work. -/
structure Plan (τ ρ κ : Type*) where
  stages : List (List τ)
  verdict : τ → ρ → Option κ

inductive Outcome (κ : Type*) where
  | working
  | finished
  | failed (verdict : κ)
  deriving DecidableEq, Repr

/-- Where the work stands. -/
structure Work (τ ρ κ : Type*) where
  stage : ℕ
  asked : τ → Bool
  answers : τ → Option ρ
  outcome : Outcome κ

inductive WorkEvent (τ ρ : Type*) where
  | ask (t : τ)
  | answer (t : τ) (r : ρ)
  | judge
  | finish
  deriving DecidableEq, Repr

namespace Work

def start : Work τ ρ κ := ⟨0, fun _ => false, fun _ => none, .working⟩

section Moves

variable [DecidableEq τ]

def ask (t : τ) (w : Work τ ρ κ) : Work τ ρ κ := { w with asked := Function.update w.asked t true }

def answer (t : τ) (r : ρ) (w : Work τ ρ κ) : Work τ ρ κ :=
  { w with answers := Function.update w.answers t (some r) }

end Moves

/-- The verdict on a stage that is answered. -/
def verdictOn (P : Plan τ ρ κ) (tasks : List τ) (w : Work τ ρ κ) : Option κ :=
  tasks.findSome? fun t => (w.answers t).bind (P.verdict t)

/-- Go on to the next stage, or end. -/
def judge (P : Plan τ ρ κ) (tasks : List τ) (w : Work τ ρ κ) : Work τ ρ κ :=
  match w.verdictOn P tasks with
  | some verdict => { w with outcome := .failed verdict }
  | none => { w with stage := w.stage + 1 }

def finish (w : Work τ ρ κ) : Work τ ρ κ := { w with outcome := .finished }

/-- Every task is answered. -/
def Answered (tasks : List τ) (w : Work τ ρ κ) : Prop := ∀ t ∈ tasks, (w.answers t).isSome = true

end Work

inductive WorkStep [DecidableEq τ] (P : Plan τ ρ κ) :
    Work τ ρ κ → WorkEvent τ ρ → Work τ ρ κ → Prop
  | ask {w : Work τ ρ κ} {tasks : List τ} {t : τ} (hworking : w.outcome = .working)
      (hstage : P.stages[w.stage]? = some tasks) (hmem : t ∈ tasks) (hnew : w.asked t = false) :
      WorkStep P w (.ask t) (w.ask t)
  | answer {w : Work τ ρ κ} {t : τ} {r : ρ} (hasked : w.asked t = true)
      (hopen : w.answers t = none) : WorkStep P w (.answer t r) (w.answer t r)
  | judge {w : Work τ ρ κ} {tasks : List τ} (hworking : w.outcome = .working)
      (hstage : P.stages[w.stage]? = some tasks) (hall : w.Answered tasks) :
      WorkStep P w .judge (w.judge P tasks)
  | finish {w : Work τ ρ κ} (hworking : w.outcome = .working)
      (hend : P.stages[w.stage]? = none) : WorkStep P w .finish w.finish

/-- **The runs of a plan.** -/
def work [DecidableEq τ] (P : Plan τ ρ κ) : Machine (Work τ ρ κ) (WorkEvent τ ρ) where
  init w := w = .start
  step := WorkStep P

/-- Work that has failed before its first task. -/
def overAtOnce (verdict : κ) : Machine (Work τ ρ κ) (WorkEvent τ ρ) where
  init w := w = { (Work.start : Work τ ρ κ) with outcome := .failed verdict }
  step _ _ _ := False

theorem of_overAtOnce {verdict : κ} {w₀ w : Work τ ρ κ}
    {ts : List (Transition (Work τ ρ κ) (WorkEvent τ ρ))}
    (hrun : (overAtOnce verdict).Run w₀ ts w) : ts = [] ∧ w = w₀ := by
  cases hrun with
  | refl => exact ⟨rfl, rfl⟩
  | snoc _ hstep => exact False.elim hstep

variable [DecidableEq τ] {P : Plan τ ρ κ} {w w' : Work τ ρ κ} {tasks : List τ} {t u : τ} {r : ρ}
  {ts us vs : List (Transition (Work τ ρ κ) (WorkEvent τ ρ))}

/-! ## What an answer changes -/

namespace Work

theorem asked_ask : (w.ask t).asked u = true ↔ u = t ∨ w.asked u = true := by
  simp only [ask, Function.update_apply]
  split <;> simp [*]

theorem answers_answer : (w.answer t r).answers u = if u = t then some r else w.answers u := by
  simp only [answer, Function.update_apply]

/-- A task that was answered is still answered, and as before. -/
theorem answers_answer_of_some (hopen : w.answers t = none) {s : ρ} (h : w.answers u = some s) :
    (w.answer t r).answers u = some s := by
  rw [answers_answer, if_neg, h]
  rintro rfl
  exact absurd (hopen.symm.trans h) (by simp)

theorem Answered.answer (hopen : w.answers t = none) (h : w.Answered tasks) :
    (w.answer t r).Answered tasks := fun u hu => by
  obtain ⟨s, hs⟩ := Option.isSome_iff_exists.mp (h u hu)
  rw [answers_answer_of_some hopen hs]
  rfl

/-- **A stage that is answered has its verdict.** -/
theorem verdictOn_answer (hopen : w.answers t = none) (h : w.Answered tasks) :
    (w.answer t r).verdictOn P tasks = w.verdictOn P tasks := by
  rw [verdictOn, verdictOn, ← List.head?_filterMap, ← List.head?_filterMap]
  refine congrArg List.head? (List.filterMap_congr fun u hu => ?_)
  obtain ⟨s, hs⟩ := Option.isSome_iff_exists.mp (h u hu)
  rw [answers_answer_of_some hopen hs, hs]

omit [DecidableEq τ] in
/-- No verdict: none of the answers has one. -/
theorem verdict_of_passed (hpassed : w.verdictOn P tasks = none) (hu : u ∈ tasks)
    (hanswer : w.answers u = some r) : P.verdict u r = none := by
  have h := List.findSome?_eq_none_iff.mp hpassed u hu
  rwa [hanswer] at h

omit [DecidableEq τ] in
/-- A verdict is that on one of the answers. -/
theorem exists_of_verdictOn {k : κ} (h : w.verdictOn P tasks = some k) :
    ∃ u ∈ tasks, ∃ r, w.answers u = some r ∧ P.verdict u r = some k := by
  obtain ⟨u, hu, hk⟩ := List.exists_of_findSome?_eq_some h
  obtain ⟨r, hr, hverdict⟩ := Option.bind_eq_some_iff.mp hk
  exact ⟨u, hu, r, hr, hverdict⟩

end Work

/-! ## Every run -/

/-- The stage has been answered, without a verdict. -/
structure Work.Passed (P : Plan τ ρ κ) (tasks : List τ) (w : Work τ ρ κ) : Prop where
  answered : w.Answered tasks
  verdict : w.verdictOn P tasks = none

/-- **The stages before the one at work have passed**, and the later ones are untouched. -/
structure Staged (P : Plan τ ρ κ) (w : Work τ ρ κ) : Prop where
  asked : ∀ t, w.asked t = true → ∃ j ≤ w.stage, ∃ tasks, P.stages[j]? = some tasks ∧ t ∈ tasks
  answered : ∀ t, (w.answers t).isSome = true → w.asked t = true
  passed : ∀ j < w.stage, ∀ tasks, P.stages[j]? = some tasks → w.Passed P tasks
  finished : w.outcome = .finished → P.stages[w.stage]? = none
  failed : ∀ k, w.outcome = .failed k → ∃ tasks, P.stages[w.stage]? = some tasks ∧
    w.Answered tasks ∧ w.verdictOn P tasks = some k

omit [DecidableEq τ] in
theorem Work.Passed.of_answers (h : w.Passed P tasks) (heq : w'.answers = w.answers) :
    w'.Passed P tasks :=
  ⟨fun t ht => heq ▸ h.answered t ht, by rw [verdictOn, heq]; exact h.verdict⟩

theorem Work.Passed.answer (hopen : w.answers t = none) (h : w.Passed P tasks) :
    (w.answer t r).Passed P tasks :=
  ⟨h.answered.answer hopen, (Work.verdictOn_answer hopen h.answered).trans h.verdict⟩

theorem Staged.step (h : Staged P w) {e : WorkEvent τ ρ} (hstep : WorkStep P w e w') :
    Staged P w' := by
  cases hstep with
  | @ask tasks t hworking hstage hmem _ =>
    refine ⟨fun u hu => ?_, fun u hu => Work.asked_ask.mpr (.inr (h.answered u hu)),
      fun j hj tasks' hj' => (h.passed j hj tasks' hj').of_answers rfl, h.finished, h.failed⟩
    rcases Work.asked_ask.mp hu with rfl | hu
    · exact ⟨w.stage, Nat.le_refl _, tasks, hstage, hmem⟩
    · exact h.asked u hu
  | @answer t r hasked hopen =>
    refine ⟨h.asked, fun u hu => ?_, fun j hj tasks hj' => (h.passed j hj tasks hj').answer hopen,
      h.finished, fun k hk => ?_⟩
    · rw [Work.answers_answer] at hu
      split at hu
      · exact ‹u = t› ▸ hasked
      · exact h.answered u hu
    · obtain ⟨tasks, hstage, hall, hverdict⟩ := h.failed k hk
      exact ⟨tasks, hstage, hall.answer hopen,
        (Work.verdictOn_answer hopen hall).trans hverdict⟩
  | @judge tasks hworking hstage hall =>
    rw [Work.judge]
    cases hverdict : w.verdictOn P tasks with
    | some k =>
      refine ⟨h.asked, h.answered, fun j hj tasks' hj' => (h.passed j hj tasks' hj').of_answers rfl,
        fun hfin => ?_, fun k' hk' => ?_⟩
      · exact absurd hfin (by simp)
      · obtain rfl : k = k' := Outcome.failed.inj hk'
        exact ⟨tasks, hstage, hall, hverdict⟩
    | none =>
      refine ⟨fun u hu => ?_, h.answered, fun j hj tasks' hj' => ?_, fun hfin => ?_,
        fun k hk => ?_⟩
      · obtain ⟨j, hj, hrest⟩ := h.asked u hu
        exact ⟨j, Nat.le_succ_of_le hj, hrest⟩
      · rcases Nat.lt_succ_iff_lt_or_eq.mp hj with hlt | rfl
        · exact (h.passed j hlt tasks' hj').of_answers rfl
        · obtain rfl : tasks = tasks' := Option.some.inj (hstage.symm.trans hj')
          exact ⟨hall, hverdict⟩
      · exact absurd (hworking.symm.trans hfin) (by simp)
      · exact absurd (hworking.symm.trans hk) (by simp)
  | finish hworking hend =>
    exact ⟨h.asked, h.answered, fun j hj tasks hj' => (h.passed j hj tasks hj').of_answers rfl,
      fun _ => hend, fun k hk => absurd hk (by simp [Work.finish])⟩

theorem staged_of_reachable (h : (work P).Reachable w) : Staged P w := by
  refine h.invariant (fun w hw => ?_) fun w e w' _ hw hstep => hw.step hstep
  subst hw
  exact ⟨fun t ht => absurd ht (by simp [Work.start]), fun t ht => absurd ht (by simp [Work.start]),
    fun j hj => absurd hj (Nat.not_lt_zero j), fun h => absurd h (by simp [Work.start]),
    fun k h => absurd h (by simp [Work.start])⟩

/-! ## What has been asked and answered -/

/-- An answer is there because it was given. -/
theorem event_of_answers {e : WorkEvent τ ρ} (hstep : WorkStep P w e w')
    (hbefore : w.answers t ≠ some r) (hafter : w'.answers t = some r) : e = .answer t r := by
  cases hstep with
  | ask | finish => exact absurd hafter hbefore
  | judge =>
    rw [Work.judge] at hafter
    split at hafter <;> exact absurd hafter hbefore
  | @answer u s _ _ =>
    rw [Work.answers_answer] at hafter
    split at hafter
    · obtain rfl := Option.some.inj hafter
      rw [‹t = u›]
    · exact absurd hafter hbefore

/-- A task counts as asked because it was. -/
theorem event_of_asked {e : WorkEvent τ ρ} (hstep : WorkStep P w e w')
    (hbefore : ¬w.asked t = true) (hafter : w'.asked t = true) : e = .ask t := by
  cases hstep with
  | answer | finish => exact absurd hafter hbefore
  | judge =>
    rw [Work.judge] at hafter
    split at hafter <;> exact absurd hafter hbefore
  | ask => rw [(Work.asked_ask.mp hafter).resolve_right hbefore]

/-- **Whatever is known was answered in the run.** -/
theorem exists_answer (hrun : (work P).Run .start ts w) (h : w.answers t = some r) :
    ∃ σ ∈ ts, σ.ev = .answer t r := by
  obtain ⟨σ, hσ, hstep, hbefore, hafter⟩ :=
    hrun.exists_change (Q := fun w => w.answers t = some r) (by simp [Work.start]) h
  exact ⟨σ, hσ, event_of_answers hstep hbefore hafter⟩

theorem exists_ask (hrun : (work P).Run .start ts w) (h : w.asked t = true) :
    ∃ σ ∈ ts, σ.ev = .ask t := by
  obtain ⟨σ, hσ, hstep, hbefore, hafter⟩ :=
    hrun.exists_change (Q := fun w => w.asked t = true) (by simp [Work.start]) h
  exact ⟨σ, hσ, event_of_asked hstep hbefore hafter⟩

theorem asked_of_step {e : WorkEvent τ ρ} (hstep : WorkStep P w e w') (h : w.asked t = true) :
    w'.asked t = true := by
  cases hstep with
  | ask => exact Work.asked_ask.mpr (.inr h)
  | answer | finish => exact h
  | judge =>
    rw [Work.judge]
    split <;> exact h

/-- An answer stays. -/
theorem answers_of_step {e : WorkEvent τ ρ} (hstep : WorkStep P w e w') (h : w.answers t = some r) :
    w'.answers t = some r := by
  cases hstep with
  | answer _ hopen => exact Work.answers_answer_of_some hopen h
  | ask | finish => exact h
  | judge =>
    rw [Work.judge]
    split <;> exact h

theorem answers_of_mem (hrun : (work P).Run w ts w') {σ : Transition (Work τ ρ κ) (WorkEvent τ ρ)}
    (hσ : σ ∈ ts) (hanswer : σ.ev = .answer t r) : w'.answers t = some r := by
  obtain ⟨us, vs, rfl⟩ := List.append_of_mem hσ
  obtain ⟨-, hstep, hafter⟩ := hrun.of_append_cons
  refine hafter.preserves (P := fun w => w.answers t = some r) ?_
    fun _ _ hsrc hmove => answers_of_step hmove hsrc
  have hgiven : WorkStep P σ.src (.answer t r) σ.dst := hanswer ▸ hstep
  generalize σ.dst = v at hgiven
  cases hgiven with
  | answer => rw [Work.answers_answer, if_pos rfl]

/-- What a task that is asked finds. -/
theorem of_ask (hstep : WorkStep P w (.ask t) w') : w.asked t = false ∧ w'.asked t = true ∧
    ∃ tasks, P.stages[w.stage]? = some tasks ∧ t ∈ tasks := by
  cases hstep with
  | ask _ hstage hmem hnew => exact ⟨hnew, Work.asked_ask.mpr (.inl rfl), _, hstage, hmem⟩

theorem asked_of_run (hrun : (work P).Run w ts w') (h : w.asked t = true) : w'.asked t = true :=
  hrun.preserves (P := fun w => w.asked t = true) h fun _ _ hsrc hmove => asked_of_step hmove hsrc

/-- **No task is asked twice.** -/
theorem ask_once {σ : Transition (Work τ ρ κ) (WorkEvent τ ρ)}
    (hrun : (work P).Run .start (us ++ σ :: vs) w) (hask : σ.ev = .ask t) :
    ∀ ψ ∈ vs, ψ.ev ≠ .ask t := by
  rintro ψ hψ hagain
  obtain ⟨-, hstep, hafter⟩ := hrun.of_append_cons
  obtain ⟨xs, ys, rfl⟩ := List.append_of_mem hψ
  obtain ⟨hbetween, hstep', -⟩ := hafter.of_append_cons
  have hstill := asked_of_run hbetween (of_ask (hask ▸ hstep)).2.1
  exact absurd (hstill.symm.trans (of_ask (hagain ▸ hstep')).1) (by simp)

theorem asked_alone {σ : Transition (Work τ ρ κ) (WorkEvent τ ρ)}
    (hrun : (work P).Run .start (us ++ σ :: vs) w) (hask : σ.ev = .ask t) :
    ∀ ψ ∈ us ++ vs, ψ.ev ≠ .ask t := by
  refine List.forall_mem_append.mpr ⟨fun ψ hψ hbefore => ?_, ask_once hrun hask⟩
  obtain ⟨xs, ys, rfl⟩ := List.append_of_mem hψ
  rw [List.append_assoc, List.cons_append] at hrun
  exact ask_once hrun hbefore σ (by simp) hask

/-! ## The order of the stages -/

omit [DecidableEq τ] in
/-- What is listed once has its list. -/
theorem index_unique {lists : List (List τ)} (hnodup : lists.flatten.Nodup) {i j : ℕ}
    {xs ys : List τ} (hi : lists[i]? = some xs) (hxs : t ∈ xs) (hj : lists[j]? = some ys)
    (hys : t ∈ ys) : i = j := by
  have hpair := (List.nodup_flatten.mp hnodup).2
  have hapart : ∀ {i j : ℕ} {xs ys : List τ}, lists[i]? = some xs → lists[j]? = some ys → i < j →
      t ∈ xs → t ∉ ys := by
    intro i j xs ys hi hj hlt hxs hys
    obtain ⟨hi', rfl⟩ := List.getElem?_eq_some_iff.mp hi
    obtain ⟨hj', rfl⟩ := List.getElem?_eq_some_iff.mp hj
    exact List.pairwise_iff_getElem.mp hpair i j hi' hj' hlt hxs hys
  rcases Nat.lt_trichotomy i j with hlt | heq | hgt
  · exact absurd hys (hapart hi hj hlt hxs)
  · exact heq
  · exact absurd hxs (hapart hj hi hgt hys)

/-- A task of a stage that has passed was answered, without a verdict. -/
theorem Staged.answer_of_passed (h : Staged P w) (hrun : (work P).Run .start ts w) {j : ℕ}
    (hlt : j < w.stage) (hj : P.stages[j]? = some tasks) (ht : t ∈ tasks) :
    ∃ r, P.verdict t r = none ∧ ∃ σ ∈ ts, σ.ev = .answer t r := by
  have hpassed := h.passed j hlt tasks hj
  obtain ⟨r, hr⟩ := Option.isSome_iff_exists.mp (hpassed.answered t ht)
  exact ⟨r, Work.verdict_of_passed hpassed.verdict ht hr, exists_answer hrun hr⟩

/-- **Before a task is asked**, those of the earlier stages have been answered, without a verdict. -/
theorem answered_before_ask (hnodup : P.stages.flatten.Nodup)
    {σ : Transition (Work τ ρ κ) (WorkEvent τ ρ)}
    (hrun : (work P).Run .start (us ++ σ :: vs) w) (hask : σ.ev = .ask t) {i j : ℕ}
    {tasks' : List τ} (hi : P.stages[i]? = some tasks) (ht : t ∈ tasks) (hlt : j < i)
    (hj : P.stages[j]? = some tasks') (hu : u ∈ tasks') :
    ∃ r, P.verdict u r = none ∧ ∃ ψ ∈ us, ψ.ev = .answer u r := by
  obtain ⟨hbefore, hstep, -⟩ := hrun.of_append_cons
  have hstaged : Staged P σ.src := staged_of_reachable ⟨_, _, rfl, hbefore⟩
  obtain ⟨-, -, tasks₀, hstage, hmem⟩ := of_ask (hask ▸ hstep)
  obtain rfl := index_unique hnodup hstage hmem hi ht
  exact hstaged.answer_of_passed hbefore hlt hj hu

/-! ## The end -/

/-- **Finished**: every task was asked, and answered without a verdict. -/
theorem of_finished (hrun : (work P).Run .start ts w) (hfin : w.outcome = .finished)
    (ht : t ∈ P.stages.flatten) :
    (∃ σ ∈ ts, σ.ev = .ask t) ∧ ∃ r, P.verdict t r = none ∧ ∃ σ ∈ ts, σ.ev = .answer t r := by
  have hstaged : Staged P w := staged_of_reachable ⟨_, _, rfl, hrun⟩
  obtain ⟨tasks, hmem, ht⟩ := List.mem_flatten.mp ht
  obtain ⟨j, hj⟩ := List.mem_iff_getElem?.mp hmem
  have hlt : j < w.stage := by
    have hend := List.getElem?_eq_none_iff.mp (hstaged.finished hfin)
    obtain ⟨hj', -⟩ := List.getElem?_eq_some_iff.mp hj
    omega
  have hasked := hstaged.answered t ((hstaged.passed j hlt tasks hj).answered t ht)
  exact ⟨exists_ask hrun hasked, hstaged.answer_of_passed hrun hlt hj ht⟩

/-- **Failed**: the stages before some stage have passed, that one was answered and has the verdict,
and no later task was asked. -/
theorem of_failed (hnodup : P.stages.flatten.Nodup) (hrun : (work P).Run .start ts w) {k : κ}
    (hfail : w.outcome = .failed k) : ∃ (i : ℕ) (tasks : List τ),
      P.stages[i]? = some tasks ∧
      (∃ t ∈ tasks, ∃ r, P.verdict t r = some k ∧ ∃ σ ∈ ts, σ.ev = .answer t r) ∧
      ∀ (j : ℕ) (tasks' : List τ) (t : τ), P.stages[j]? = some tasks' → t ∈ tasks' →
        (j < i → ∃ r, P.verdict t r = none ∧ ∃ σ ∈ ts, σ.ev = .answer t r) ∧
        (j = i → ∃ σ ∈ ts, σ.ev = .ask t) ∧ (i < j → ∀ σ ∈ ts, σ.ev ≠ .ask t) := by
  have hstaged : Staged P w := staged_of_reachable ⟨_, _, rfl, hrun⟩
  obtain ⟨tasks, hstage, hall, hverdict⟩ := hstaged.failed k hfail
  obtain ⟨t, ht, r, hr, hk⟩ := Work.exists_of_verdictOn hverdict
  refine ⟨w.stage, tasks, hstage, ⟨t, ht, r, hk, exists_answer hrun hr⟩,
    fun j tasks' u hj hu => ⟨fun hlt => ?_, fun heq => ?_, fun hlt σ hσ hask => ?_⟩⟩
  · exact hstaged.answer_of_passed hrun hlt hj hu
  · subst heq
    obtain rfl := Option.some.inj (hstage.symm.trans hj)
    exact exists_ask hrun (hstaged.answered u (hall u hu))
  · obtain ⟨xs, ys, rfl⟩ := List.append_of_mem hσ
    obtain ⟨-, hstep, hafter⟩ := hrun.of_append_cons
    have hstill := asked_of_run hafter (of_ask (hask ▸ hstep)).2.1
    obtain ⟨m, hle, tasks₀, hm, hu₀⟩ := hstaged.asked u hstill
    have hstages := index_unique hnodup hm hu₀ hj hu
    omega

/-! ## The work can always be ended -/

/-- All answers are these. -/
def RepliesWith (reply : τ → ρ) (ts : List (Transition (Work τ ρ κ) (WorkEvent τ ρ))) : Prop :=
  ∀ σ ∈ ts, ∀ t r, σ.ev = .answer t r → r = reply t

omit [DecidableEq τ] in
theorem RepliesWith.append {reply : τ → ρ} (h : RepliesWith reply ts) (h' : RepliesWith reply us) :
    RepliesWith reply (ts ++ us) := List.forall_mem_append.mpr ⟨h, h'⟩

/-- One more task is answered. -/
theorem exists_run_answered (reply : τ → ρ) (hworking : w.outcome = .working)
    (hstage : P.stages[w.stage]? = some tasks) (ht : t ∈ tasks) : ∃ ts w',
      (work P).Run w ts w' ∧ RepliesWith reply ts ∧ w'.outcome = .working ∧ w'.stage = w.stage ∧
      (w'.answers t).isSome = true ∧ ∀ us, w.Answered us → w'.Answered us := by
  have hanswered (v : Work τ ρ κ) (hopen : v.answers t = none) :
      ((v.answer t (reply t)).answers t).isSome = true ∧
        ∀ us, v.Answered us → (v.answer t (reply t)).Answered us :=
    ⟨by rw [Work.answers_answer, if_pos rfl]; rfl, fun _ => .answer hopen⟩
  cases hopen : w.answers t with
  | some r =>
    exact ⟨[], w, .refl, by simp [RepliesWith], hworking, rfl, by rw [hopen]; rfl, fun _ h => h⟩
  | none =>
    cases hasked : w.asked t with
    | true =>
      refine ⟨_, _, Machine.Run.refl.snoc (M := work P) (.answer (r := reply t) hasked hopen), ?_,
        hworking, rfl, hanswered w hopen⟩
      simp [RepliesWith]
    | false =>
      have hask : (work P).step w (.ask t) (w.ask t) := .ask hworking hstage ht hasked
      have hanswer : (work P).step (w.ask t) (.answer t (reply t)) ((w.ask t).answer t (reply t)) :=
        .answer (Work.asked_ask.mpr (.inl rfl)) hopen
      refine ⟨_, _, (Machine.Run.refl.snoc hask).snoc hanswer, ?_, hworking, rfl,
        hanswered (w.ask t) hopen⟩
      simp [RepliesWith]

/-- A stage is answered, task by task. -/
theorem exists_run_stage (reply : τ → ρ) (hworking : w.outcome = .working)
    (hstage : P.stages[w.stage]? = some tasks) (todo : List τ) (htodo : todo ⊆ tasks) :
    ∃ ts w', (work P).Run w ts w' ∧ RepliesWith reply ts ∧ w'.outcome = .working ∧
      w'.stage = w.stage ∧ w'.Answered todo := by
  induction todo with
  | nil =>
    exact ⟨[], w, .refl, by simp [RepliesWith], hworking, rfl,
      fun _ h => absurd h List.not_mem_nil⟩
  | cons t todo ih =>
    obtain ⟨ht, htodo⟩ := List.cons_subset.mp htodo
    obtain ⟨ts, v, hrun, hreplies, hv, hsame, hall⟩ := ih htodo
    obtain ⟨us, v', hrun', hreplies', hv', hsame', hsome, hkept⟩ :=
      exists_run_answered reply hv (hsame ▸ hstage) ht
    exact ⟨_, v', hrun.append hrun', hreplies.append hreplies', hv', hsame'.trans hsame,
      List.forall_mem_cons.mpr ⟨hsome, hkept todo hall⟩⟩

/-- **The work is never stuck**: from wherever it stands, answers to what is asked end it. -/
theorem exists_run_ended (reply : τ → ρ) (w : Work τ ρ κ) :
    ∃ ts w', (work P).Run w ts w' ∧ RepliesWith reply ts ∧ w'.outcome ≠ .working := by
  generalize hleft : P.stages.length - w.stage = left
  induction left using Nat.strongRecOn generalizing w with
  | ind left ih =>
    by_cases hworking : w.outcome = .working
    swap
    · exact ⟨[], w, .refl, by simp [RepliesWith], hworking⟩
    cases hstage : P.stages[w.stage]? with
    | none =>
      exact ⟨_, _, Machine.Run.refl.snoc (M := work P) (.finish hworking hstage),
        by simp [RepliesWith], by simp [Work.finish]⟩
    | some tasks =>
      obtain ⟨ts, v, hrun, hreplies, hv, hsame, hall⟩ :=
        exists_run_stage reply hworking hstage tasks (List.Subset.refl _)
      have hjudge : (work P).Run w (ts ++ [⟨v, .judge, v.judge P tasks⟩]) (v.judge P tasks) :=
        hrun.snoc (.judge hv (hsame ▸ hstage) hall)
      have hreplies' : RepliesWith reply (ts ++ [⟨v, .judge, v.judge P tasks⟩]) :=
        hreplies.append (by simp [RepliesWith])
      cases hverdict : v.verdictOn P tasks with
      | some k => exact ⟨_, _, hjudge, hreplies', by simp [Work.judge, hverdict]⟩
      | none =>
        have hnext : (v.judge P tasks).stage = w.stage + 1 := by simp [Work.judge, hverdict, hsame]
        have hlt := (List.getElem?_eq_some_iff.mp hstage).1
        obtain ⟨us, v', hrun', hreplies'', hended⟩ :=
          ih (P.stages.length - (w.stage + 1)) (by omega) (v.judge P tasks) (by rw [hnext])
        exact ⟨_, v', hjudge.append hrun', hreplies'.append hreplies'', hended⟩

/-- **Answers without a verdict** finish the work. -/
theorem exists_run_finished {reply : τ → ρ} (hpasses : ∀ t, P.verdict t (reply t) = none) :
    ∃ ts w, (work P).Run .start ts w ∧ w.outcome = .finished := by
  obtain ⟨ts, w, hrun, hreplies, hended⟩ := exists_run_ended (P := P) reply .start
  refine ⟨ts, w, hrun, ?_⟩
  cases hw : w.outcome with
  | working => exact absurd hw hended
  | finished => rfl
  | failed k =>
    have hstaged : Staged P w := staged_of_reachable ⟨_, _, rfl, hrun⟩
    obtain ⟨tasks, -, -, hverdict⟩ := hstaged.failed k hw
    obtain ⟨t, -, r, hr, hk⟩ := Work.exists_of_verdictOn hverdict
    obtain ⟨σ, hσ, hanswer⟩ := exists_answer hrun hr
    obtain rfl := hreplies σ hσ t r hanswer
    exact absurd ((hpasses t).symm.trans hk) (by simp)

end AgentProcs
