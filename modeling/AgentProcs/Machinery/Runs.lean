import Mathlib.Data.List.Basic

/-!
# Machinery/Runs — labelled machines, their runs, and what every run preserves

    s₀ ──e₀──▸ s₁ ──e₁──▸ ⋯ ──eₙ──▸ s        trace = [(s₀,e₀,s₁), …]

A run keeps the transitions it took, so that a temporal statement ("after this step, never that
one") is a statement about the list.  `Machine.guarded` cuts a machine down to the steps meeting a
condition: "every run whose steps all meet the condition" is a run of the guarded machine.
-/

namespace AgentProcs

variable {σ ε : Type*}

/-- A transition, with both ends. -/
structure Transition (σ ε : Type*) where
  src : σ
  ev : ε
  dst : σ

/-- A labelled machine: where it starts and how it moves. -/
structure Machine (σ ε : Type*) where
  init : σ → Prop
  step : σ → ε → σ → Prop

namespace Machine

/-- **A run**, grown at its end; the transitions taken are listed oldest first. -/
inductive Run (M : Machine σ ε) (s : σ) : List (Transition σ ε) → σ → Prop
  | refl : M.Run s [] s
  | snoc {ts : List (Transition σ ε)} {t u : σ} {e : ε} :
      M.Run s ts t → M.step t e u → M.Run s (ts ++ [⟨t, e, u⟩]) u

/-- A state some run reaches from an initial one. -/
def Reachable (M : Machine σ ε) (s : σ) : Prop := ∃ s₀ ts, M.init s₀ ∧ M.Run s₀ ts s

/-- The machine that only takes the steps `g` allows. -/
def guarded (M : Machine σ ε) (g : σ → ε → Prop) : Machine σ ε where
  init := M.init
  step s e t := M.step s e t ∧ g s e

/-! ## Runs -/

variable {M : Machine σ ε} {s t u : σ} {ts us : List (Transition σ ε)}

/-- Runs compose. -/
theorem Run.append (h : M.Run s ts t) (h' : M.Run t us u) : M.Run s (ts ++ us) u := by
  induction h' with
  | refl => rwa [List.append_nil]
  | snoc _ hstep ih =>
    rw [← List.append_assoc]
    exact ih.snoc hstep

/-- **Every transition of a run is a step out of a state the run reaches.** -/
theorem Run.step_of_mem (h : M.Run s ts t) {τ : Transition σ ε} (hτ : τ ∈ ts) :
    M.step τ.src τ.ev τ.dst ∧ ∃ us, M.Run s us τ.src := by
  induction h with
  | refl => exact absurd hτ List.not_mem_nil
  | snoc hrun hstep ih =>
    rcases List.mem_append.mp hτ with hmem | hlast
    · exact ih hmem
    · obtain rfl := List.mem_singleton.mp hlast
      exact ⟨hstep, _, hrun⟩

/-- **What the steps of a run preserve** holds where it ends. -/
theorem Run.preserves {P : σ → Prop} (h : M.Run s ts t) (hs : P s)
    (hstep : ∀ τ ∈ ts, P τ.src → M.step τ.src τ.ev τ.dst → P τ.dst) : P t := by
  induction h with
  | refl => exact hs
  | snoc _ hmove ih =>
    refine hstep _ (List.mem_append_right _ (List.mem_singleton_self _)) ?_ hmove
    exact ih fun τ hτ => hstep τ (List.mem_append_left _ hτ)

/-- A run taken apart at one of its transitions. -/
theorem Run.of_append_cons {τ : Transition σ ε} (h : M.Run s (ts ++ τ :: us) t) :
    M.Run s ts τ.src ∧ M.step τ.src τ.ev τ.dst ∧ M.Run τ.dst us t := by
  generalize hall : ts ++ τ :: us = all at h
  induction h generalizing us with
  | refl => exact absurd hall (by simp)
  | @snoc vs v u e hrun hstep ih =>
    rcases us.eq_nil_or_concat with rfl | ⟨ws, last, rfl⟩
    · obtain ⟨rfl, hlast⟩ := List.append_inj' hall rfl
      obtain rfl := List.singleton_inj.mp hlast
      exact ⟨hrun, hstep, .refl⟩
    · rw [List.concat_eq_append, ← List.cons_append, ← List.append_assoc] at hall
      obtain ⟨hinit, hlast⟩ := List.append_inj' hall rfl
      obtain rfl := List.singleton_inj.mp hlast
      obtain ⟨hbefore, hmove, hafter⟩ := ih hinit
      exact ⟨hbefore, hmove, List.concat_eq_append ▸ hafter.snoc hstep⟩

/-- **What a run brings about**, one of its steps does. -/
theorem Run.exists_change {Q : σ → Prop} (h : M.Run s ts t) (hs : ¬Q s) (ht : Q t) :
    ∃ τ ∈ ts, M.step τ.src τ.ev τ.dst ∧ ¬Q τ.src ∧ Q τ.dst := by
  induction h with
  | refl => exact absurd ht hs
  | @snoc ts t u e _ hstep ih =>
    by_cases hbefore : Q t
    · obtain ⟨τ, hτ, hmove⟩ := ih hbefore
      exact ⟨τ, List.mem_append_left _ hτ, hmove⟩
    · exact ⟨_, List.mem_append_right _ (List.mem_singleton_self _), hstep, hbefore, ht⟩

/-- A run ends where it begins, or where one of its transitions does. -/
theorem Run.eq_or_exists_dst (h : M.Run s ts t) : t = s ∨ ∃ τ ∈ ts, τ.dst = t := by
  cases h with
  | refl => exact .inl rfl
  | snoc => exact .inr ⟨_, List.mem_append_right _ (List.mem_singleton_self _), rfl⟩

/-- A run of the guarded machine is a run all of whose steps the guard allows. -/
theorem Run.of_guarded {g : σ → ε → Prop} (h : (M.guarded g).Run s ts t) :
    M.Run s ts t ∧ ∀ τ ∈ ts, g τ.src τ.ev := by
  induction h with
  | refl => exact ⟨.refl, fun _ hτ => absurd hτ List.not_mem_nil⟩
  | snoc _ hstep ih =>
    refine ⟨ih.1.snoc hstep.1, fun τ hτ => ?_⟩
    rcases List.mem_append.mp hτ with hmem | hlast
    · exact ih.2 τ hmem
    · obtain rfl := List.mem_singleton.mp hlast
      exact hstep.2

/-! ## Reachable states -/

theorem Reachable.init (h : M.init s) : M.Reachable s := ⟨s, [], h, .refl⟩

theorem Reachable.step {e : ε} (h : M.Reachable s) (hs : M.step s e t) : M.Reachable t := by
  obtain ⟨s₀, ts, h₀, hrun⟩ := h
  exact ⟨s₀, _, h₀, hrun.snoc hs⟩

theorem Reachable.run (h : M.Reachable s) (hrun : M.Run s ts t) : M.Reachable t := by
  obtain ⟨s₀, us, h₀, hrun₀⟩ := h
  exact ⟨s₀, _, h₀, hrun₀.append hrun⟩

/-- **The invariant rule**: what holds initially and is preserved by every step out of a reachable
state holds of every reachable state. -/
theorem Reachable.invariant {P : σ → Prop} (h : M.Reachable s) (hinit : ∀ s, M.init s → P s)
    (hstep : ∀ s e t, M.Reachable s → P s → M.step s e t → P t) : P s := by
  obtain ⟨s₀, ts, h₀, hrun⟩ := h
  induction hrun with
  | refl => exact hinit _ h₀
  | snoc hrun hs ih => exact hstep _ _ _ ⟨s₀, _, h₀, hrun⟩ ih hs

/-- The same along one run, for a statement that also speaks of the transitions taken so far. -/
theorem Run.invariant {P : List (Transition σ ε) → σ → Prop} (h : M.Run s ts t) (hs : M.Reachable s)
    (hinit : P [] s)
    (hstep : ∀ ts t e u, M.Reachable t → P ts t → M.step t e u → P (ts ++ [⟨t, e, u⟩]) u) :
    P ts t := by
  induction h with
  | refl => exact hinit
  | snoc hrun hstep' ih => exact hstep _ _ _ _ (hs.run hrun) ih hstep'

/-- **A property kept exactly by the steps that meet a condition** holds along a run exactly if all its
steps meet it. -/
theorem Run.forall_iff {P : σ → Prop} {Q G : Transition σ ε → Prop} (h : M.Run s ts t)
    (hs : M.Reachable s) (hinit : P s)
    (hstep : ∀ t e u, M.Reachable t → P t → M.step t e u → (P u ∧ Q ⟨t, e, u⟩ ↔ G ⟨t, e, u⟩)) :
    (∀ τ ∈ ts, P τ.dst ∧ Q τ) ↔ ∀ τ ∈ ts, G τ := by
  suffices hlast : ((∀ τ ∈ ts, P τ.dst ∧ Q τ) → P t) ∧
      ((∀ τ ∈ ts, P τ.dst ∧ Q τ) ↔ ∀ τ ∈ ts, G τ) from hlast.2
  refine h.invariant (P := fun ts t => ((∀ τ ∈ ts, P τ.dst ∧ Q τ) → P t) ∧
    ((∀ τ ∈ ts, P τ.dst ∧ Q τ) ↔ ∀ τ ∈ ts, G τ)) hs ⟨fun _ => hinit, by simp⟩ ?_
  intro ts t e u ht ih hmove
  simp only [List.forall_mem_append, List.forall_mem_singleton]
  refine ⟨fun h => h.2.1, fun h => ⟨ih.2.mp h.1, ?_⟩, fun h => ?_⟩
  · exact (hstep t e u ht (ih.1 h.1) hmove).mp h.2
  · have hts := ih.2.mpr h.1
    exact ⟨hts, (hstep t e u ht (ih.1 hts) hmove).mpr h.2⟩

/-- A state the guarded machine reaches is reachable. -/
theorem Reachable.of_guarded {g : σ → ε → Prop} (h : (M.guarded g).Reachable s) :
    M.Reachable s := by
  obtain ⟨s₀, ts, h₀, hrun⟩ := h
  exact ⟨s₀, ts, h₀, hrun.of_guarded.1⟩

end Machine

end AgentProcs
