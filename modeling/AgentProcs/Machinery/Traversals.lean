import Mathlib.Data.List.Forall2

/-!
# Machinery/Traversals — an effect for each element in turn

    xs        x₀ x₁ x₂ │ x₃ x₄
    mapM f    y₀ y₁ y₂ │ y₃ y₄      what a window yields is a window of what the whole yields
              y₀ ✗                  the first failure is that of the whole
-/

namespace AgentProcs

universe u v w

section Monad

variable {m : Type u → Type v} [Monad m] [LawfulMonad m] {α : Type w} {β : Type u} {xs : List α}

theorem mapM_congr_mem {f g : α → m β} (h : ∀ x ∈ xs, f x = g x) : xs.mapM f = xs.mapM g := by
  induction xs with
  | nil => rfl
  | cons x xs ih =>
    obtain ⟨hx, hxs⟩ := List.forall_mem_cons.mp h
    rw [List.mapM_cons, List.mapM_cons, hx, ih hxs]

/-- An effect that is none on these elements. -/
theorem mapM_map_pure {γ : Type*} {f : γ → m β} {g : α → β} {place : α → γ}
    (h : ∀ x ∈ xs, f (place x) = pure (g x)) : (xs.map place).mapM f = pure (xs.map g) := by
  have hpure : xs.mapM (f ∘ place) = xs.mapM fun x => pure (g x) := mapM_congr_mem h
  rw [List.mapM_map, hpure]
  exact List.mapM_pure

/-- **A window after the one before** is both in one. -/
theorem mapM_window_append (f : α → m β) (xs : List α) (start count more : ℕ) : (do
      let first ← ((xs.drop start).take count).mapM f
      let second ← ((xs.drop (start + count)).take more).mapM f
      return first ++ second) = ((xs.drop start).take (count + more)).mapM f := by
  rw [List.take_add, List.drop_drop, List.mapM_append]

end Monad

theorem forall₂_congr_mem {α β : Type*} {R S : α → β → Prop} {xs : List α} {ys : List β}
    (h : ∀ x ∈ xs, ∀ y, R x y ↔ S x y) : List.Forall₂ R xs ys ↔ List.Forall₂ S xs ys := by
  induction xs generalizing ys with
  | nil => rw [List.forall₂_nil_left_iff, List.forall₂_nil_left_iff]
  | cons x xs ih =>
    obtain ⟨hx, hxs⟩ := List.forall_mem_cons.mp h
    simp only [List.forall₂_cons_left_iff, hx, ih hxs]

section Except

variable {ε : Type u} {α : Type w} {β : Type u} {f : α → Except ε β} {xs : List α} {ys : List β}

/-- What is done to each yield is done to all. -/
theorem map_mapM {γ : Type u} (g : β → γ) (f : α → Except ε β) (xs : List α) :
    (xs.mapM f).map (·.map g) = xs.mapM fun x => (f x).map g := by
  induction xs with
  | nil => rfl
  | cons x xs ih =>
    rw [List.mapM_cons, List.mapM_cons, ← ih]
    cases f x with
    | error e => rfl
    | ok y => cases xs.mapM f <;> rfl

/-- **What a traversal yields**, element for element. -/
theorem mapM_eq_ok_iff : xs.mapM f = .ok ys ↔ List.Forall₂ (fun x y => f x = .ok y) xs ys := by
  induction xs generalizing ys with
  | nil =>
    rw [List.forall₂_nil_left_iff]
    exact ⟨fun h => (Except.ok.inj h).symm, fun h => h ▸ rfl⟩
  | cons x xs ih =>
    rw [List.mapM_cons, List.forall₂_cons_left_iff]
    refine ⟨fun h => ?_, ?_⟩
    · cases hx : f x with
      | error e =>
        rw [hx] at h
        cases h
      | ok y =>
        cases hxs : xs.mapM f with
        | error e =>
          rw [hx, hxs] at h
          cases h
        | ok rest =>
          rw [hx, hxs] at h
          exact ⟨y, rest, rfl, ih.mp hxs, (Except.ok.inj h).symm⟩
    · rintro ⟨y, rest, hy, hrest, rfl⟩
      rw [hy, ih.mpr hrest]
      rfl

/-- If all is yielded, each is. -/
theorem exists_ok_of_mem (h : xs.mapM f = .ok ys) {x : α} (hx : x ∈ xs) : ∃ y, f x = .ok y := by
  have hall := mapM_eq_ok_iff.mp h
  clear h
  induction hall with
  | nil => exact absurd hx List.not_mem_nil
  | @cons a y xs ys hy _ ih =>
    obtain rfl | hmem := List.mem_cons.mp hx
    · exact ⟨y, hy⟩
    · exact ih hmem

end Except

end AgentProcs
