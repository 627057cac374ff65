import AgentProcs.Machinery.Runs
import Mathlib.Order.WellFounded

/-!
# Machinery/Fairness — runs without an end, and what comes about in them

    s₀ ──e₀──▸ s₁ ──e₁──▸ s₂ ──e₂──▸ ⋯

What must happen at last is said of the places of a run that never ends.  Such a run is fair to a
kind of steps if it takes one whenever they stay possible.  So whatever lasts until such a step, and
keeps it possible, does not last for ever (`FairTo.leadsTo`); and what gets nearer again and again is
reached (`LeadsTo.of_rank`).
-/

namespace AgentProcs

variable {σ ε : Type*}

/-! ## What leads to what -/

/-- **Wherever `P` holds, `Q` holds** at that place or a later one. -/
def LeadsTo (P Q : ℕ → Prop) : Prop := ∀ i, P i → ∃ j, i ≤ j ∧ Q j

namespace LeadsTo

variable {P P' Q R : ℕ → Prop}

theorem of_imp (h : ∀ i, P i → Q i) : LeadsTo P Q := fun i hi => ⟨i, le_rfl, h i hi⟩

theorem trans (h : LeadsTo P Q) (h' : LeadsTo Q R) : LeadsTo P R := by
  intro i hi
  obtain ⟨j, hij, hj⟩ := h i hi
  obtain ⟨k, hjk, hk⟩ := h' j hj
  exact ⟨k, hij.trans hjk, hk⟩

theorem or (h : LeadsTo P R) (h' : LeadsTo P' R) : LeadsTo (fun i => P i ∨ P' i) R :=
  fun i hi => hi.elim (h i) (h' i)

/-- What holds at the next place holds at last. -/
theorem next : LeadsTo (fun i => Q (i + 1)) Q := fun i hi => ⟨i + 1, Nat.le_succ i, hi⟩

/-- **What gets nearer again and again is reached.** -/
theorem of_rank {α : Type*} [Preorder α] [WellFoundedLT α] {P : α → ℕ → Prop}
    (h : ∀ k, LeadsTo (P k) fun i => Q i ∨ ∃ m < k, P m i) (k : α) : LeadsTo (P k) Q := by
  induction k using WellFoundedLT.induction with
  | ind k ih =>
    refine (h k).trans (LeadsTo.or (of_imp fun _ => id) fun i hi => ?_)
    obtain ⟨m, hm, hi⟩ := hi
    exact ih m hm i hi

end LeadsTo

namespace Machine

/-- **A run without an end**: its states and its events. -/
structure Forever (M : Machine σ ε) (s : ℕ → σ) (e : ℕ → ε) : Prop where
  start : M.Reachable (s 0)
  step : ∀ i, M.step (s i) (e i) (s (i + 1))

/-- A step of the kind `K` is possible. -/
def Enables (M : Machine σ ε) (K : ε → Prop) (s : σ) : Prop := ∃ e t, K e ∧ M.step s e t

/-- **Fair to the kind `K`**: if steps of the kind are possible from some place on, one is taken. -/
def FairTo (M : Machine σ ε) (s : ℕ → σ) (e : ℕ → ε) (K : ε → Prop) : Prop :=
  ∀ i, (∀ j, i ≤ j → M.Enables K (s j)) → ∃ j, i ≤ j ∧ K (e j)

variable {M : Machine σ ε} {s : ℕ → σ} {e : ℕ → ε} {K : ε → Prop}

theorem Forever.reachable (h : M.Forever s e) (i : ℕ) : M.Reachable (s i) := by
  induction i with
  | zero => exact h.start
  | succ i ih => exact ih.step (h.step i)

/-- **The fairness rule**: what lasts until a step of the kind and keeps one possible leads to what
such a step does. -/
theorem FairTo.leadsTo {P Q : ℕ → Prop} (hfair : M.FairTo s e K)
    (henabled : ∀ i, P i → M.Enables K (s i)) (hdone : ∀ i, P i → K (e i) → Q i)
    (hlasts : ∀ i, P i → ¬Q i → ¬K (e i) → P (i + 1)) : LeadsTo P Q := by
  intro i hi
  by_contra hnever
  push Not at hnever
  have hforever : ∀ j, i ≤ j → P j := by
    intro j hij
    induction j, hij using Nat.le_induction with
    | base => exact hi
    | succ j hij ih =>
      have hnot := hnever j hij
      exact hlasts j ih hnot fun hk => hnot (hdone j ih hk)
  obtain ⟨j, hij, hk⟩ := hfair i fun j hij => henabled j (hforever j hij)
  exact hnever j hij (hdone j (hforever j hij) hk)

/-! ## Finite runs that come to rest -/

section Rest

variable {t u : σ} {rest : ε} {ts : List (Transition σ ε)}

/-- The states of a run that ends in `u` and stays there. -/
def statesOf (ts : List (Transition σ ε)) (u : σ) (i : ℕ) : σ := ((ts[i]?).map (·.src)).getD u

/-- Its events, from the end on the event `rest`. -/
def eventsOf (ts : List (Transition σ ε)) (rest : ε) (i : ℕ) : ε :=
  ((ts[i]?).map (·.ev)).getD rest

theorem statesOf_rest {i : ℕ} (h : ts.length ≤ i) : statesOf ts u i = u := by
  rw [statesOf, List.getElem?_eq_none h]
  rfl

theorem eventsOf_rest {i : ℕ} (h : ts.length ≤ i) : eventsOf ts rest i = rest := by
  rw [eventsOf, List.getElem?_eq_none h]
  rfl

theorem statesOf_zero (h : M.Run t ts u) : statesOf ts u 0 = t := by
  cases ts with
  | nil =>
    cases h.eq_or_exists_dst with
    | inl heq => exact heq
    | inr hmem => simp at hmem
  | cons τ ts =>
    have hcons : M.Run t ([] ++ τ :: ts) u := h
    obtain ⟨hnone, -, -⟩ := hcons.of_append_cons
    rcases hnone.eq_or_exists_dst with heq | hmem
    · exact heq
    · simp at hmem

theorem step_statesOf (h : M.Run t ts u) (hrest : M.step u rest u) (i : ℕ) :
    M.step (statesOf ts u i) (eventsOf ts rest i) (statesOf ts u (i + 1)) := by
  by_cases hi : i < ts.length
  · have hsplit : ts = ts.take i ++ ts[i] :: ts.drop (i + 1) := by
      rw [List.getElem_cons_drop, List.take_append_drop]
    obtain ⟨-, hstep, hafter⟩ := Run.of_append_cons (hsplit ▸ h)
    have hnext : statesOf ts u (i + 1) = ts[i].dst := by
      have hzero := statesOf_zero hafter
      rwa [statesOf, List.getElem?_drop] at hzero
    rw [statesOf, eventsOf, List.getElem?_eq_getElem hi, hnext]
    exact hstep
  · have hle := Nat.le_of_not_lt hi
    rw [statesOf_rest hle, eventsOf_rest hle, statesOf_rest (hle.trans (Nat.le_succ i))]
    exact hrest

/-- **A run that comes to rest** goes on for ever. -/
theorem Run.forever (h : M.Run t ts u) (ht : M.Reachable t) (hrest : M.step u rest u) :
    M.Forever (statesOf ts u) (eventsOf ts rest) :=
  ⟨(statesOf_zero h).symm ▸ ht, step_statesOf h hrest⟩

/-- It is fair to the kinds that its rest is of, and to those that are not possible there. -/
theorem fairTo_rest (h : K rest ∨ ¬M.Enables K u) :
    M.FairTo (statesOf ts u) (eventsOf ts rest) K := by
  intro i henabled
  have hlast : ts.length ≤ max i ts.length := le_max_right ..
  refine ⟨max i ts.length, le_max_left .., ?_⟩
  rw [eventsOf_rest hlast]
  refine h.resolve_right fun hnot => hnot ?_
  have := henabled (max i ts.length) (le_max_left ..)
  rwa [statesOf_rest hlast] at this

end Rest

end Machine

end AgentProcs
