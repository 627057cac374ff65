import AgentProcs.Machinery.Files
import Mathlib.Data.List.Basic
import Mathlib.Data.List.Infix

/-!
# Machinery/Rotation — numbered files, each moved up by one

    0 1 2 … n  ──shift──▸  0 · 1 … n-1  ──rename 0 1──▸  · 0 1 … n-1  ──create 0──▸  new 0 1 … n-1

Rotating a stack of numbered files keeps the `n` newest under the numbers from 1 on, and leaves 0
free.  Two families, the files and their companions, rotate in one loop without meeting.  Seen from
the records in them, oldest first, a rotation forgets the oldest file and nothing else: what is kept
is always a suffix of what was written.
-/

namespace AgentProcs

variable {C N M α : Type*}

namespace Directory

/-- `for i in (1..=m).rev()`: move `i` to `i + 1`. -/
def shift : ℕ → Directory ℕ C → Directory ℕ C
  | 0, d => d
  | i + 1, d => shift i (rename (i + 1) (i + 2) d)

/-- Make room at 0, keeping `n` files. -/
def rotate (n : ℕ) (d : Directory ℕ C) : Directory ℕ C :=
  remove (n + 1) (rename 0 1 (shift (n - 1) d))

/-- The files of a list, numbered from 0. -/
def stack (cs : List C) : Directory ℕ C := fun i => cs[i]?

/-- Replacing the newest file. -/
theorem update_stack_zero (c c' : C) (cs : List C) :
    Function.update (stack (c :: cs)) 0 (some c') = stack (c' :: cs) := by
  ext1 i
  cases i <;> rfl

theorem shift_zero_apply : ∀ (m : ℕ) (d : Directory ℕ C), shift m d 0 = d 0
  | 0, _ => rfl
  | m + 1, d => by
    rw [shift, shift_zero_apply, rename_apply]
    simp

/-- What the loop leaves above 0. -/
theorem shift_succ_apply : ∀ (m : ℕ) (d : Directory ℕ C) (j : ℕ), shift m d (j + 1) =
    if m < j then d (j + 1) else if j = m then (if m = 0 then d 1 else (d m).or (d (m + 1)))
      else if j = 0 then none else d j
  | 0, d, j => by
    rw [shift]
    split_ifs with h h'
    · rfl
    · rw [h']
    all_goals omega
  | m + 1, d, j => by
    rw [shift, shift_succ_apply m]
    simp only [rename_apply]
    cases hd : d (m + 1) with
    | none => grind
    | some c => grind

/-- **Rotating a stack** moves every file up by one and keeps `n` of them. -/
theorem rotate_stack {n : ℕ} {c : C} {cs : List C} (h : cs.length ≤ n) (i : ℕ) :
    rotate n (stack (c :: cs)) i = if i = 0 then none else ((c :: cs).take n)[i - 1]? := by
  have hlast : (c :: cs)[n + 1]? = none := List.getElem?_eq_none (by simpa using h)
  cases i with
  | zero => simp [rotate, remove, rename_apply, shift_zero_apply, stack]
  | succ j =>
    simp only [rotate, remove, Function.update_apply, rename_apply, shift_zero_apply,
      shift_succ_apply, stack, List.getElem?_take]
    grind

/-- Nothing is left at 0. -/
theorem rotate_zero (n : ℕ) (d : Directory ℕ C) : rotate n d 0 = none := by
  simp only [rotate, remove, Function.update_apply, rename_apply, shift_zero_apply]
  split_ifs <;> simp_all

/-- **What a rotation leaves**: the oldest file stays where it is if there is none to take its
place. -/
theorem rotate_apply {n : ℕ} (hn : 0 < n) (d : Directory ℕ C) (i : ℕ) : rotate n d i =
    if i = 0 ∨ i = n + 1 then none
    else if i = n then (d (n - 1)).or (d n)
    else if i < n then d (i - 1) else d i := by
  obtain ⟨m, rfl⟩ := Nat.exists_eq_add_of_lt hn
  rw [Nat.zero_add]
  cases i with
  | zero => rw [rotate_zero, if_pos (.inl rfl)]
  | succ j =>
    simp only [rotate, remove, Function.update_apply, rename_apply, shift_zero_apply,
      shift_succ_apply]
    cases m with
    | zero =>
      cases h0 : d 0 <;> grind
    | succ m =>
      cases h0 : d 0 <;> grind

/-- **Making the new file** completes the stack. -/
theorem update_rotate_stack {n : ℕ} {c new : C} {cs : List C} (h : cs.length ≤ n) :
    Function.update (rotate n (stack (c :: cs))) 0 (some new) = stack (new :: (c :: cs).take n) := by
  ext1 i
  rw [Function.update_apply, rotate_stack h, stack]
  cases i <;> rfl

/-! ## Files and companions -/

section Paired

variable (R : C → C → Prop) {files companions : Directory ℕ C} {n : ℕ}

/-- Every companion goes with the file of its number. -/
def Paired (files companions : Directory ℕ C) : Prop :=
  ∀ i x, companions i = some x → ∃ c, files i = some c ∧ R x c

/-- **A rotation keeps the pairs together** exactly when the companion that may stay behind as the
oldest goes with the file that takes its file's place. -/
theorem paired_rotate_iff (hn : 0 < n) (h : Paired R files companions) :
    Paired R (rotate n files) (rotate n companions) ↔
      ∀ c x, files (n - 1) = some c → companions (n - 1) = none → companions n = some x → R x c := by
  constructor
  · intro hpaired c x hc hnone hx
    have hx' : rotate n companions n = some x := by
      rw [rotate_apply hn, if_neg (by omega), if_pos rfl, hnone, Option.none_or, hx]
    have hc' : rotate n files n = some c := by
      rw [rotate_apply hn, if_neg (by omega), if_pos rfl, hc, Option.some_or]
    obtain ⟨c', heq, hR⟩ := hpaired n x hx'
    rw [hc', Option.some.injEq] at heq
    exact heq ▸ hR
  · intro hstale i x hx
    rw [rotate_apply hn] at hx ⊢
    split_ifs at hx ⊢ with hend hlast hlt
    · -- the last number: a companion moved there, or one that stayed
      cases hmoved : companions (n - 1) with
      | some y =>
        rw [hmoved, Option.some_or, Option.some.injEq] at hx
        obtain ⟨c, hc, hR⟩ := h (n - 1) y hmoved
        exact ⟨c, by rw [hc, Option.some_or], hx ▸ hR⟩
      | none =>
        rw [hmoved, Option.none_or] at hx
        cases hfile : files (n - 1) with
        | some c => exact ⟨c, Option.some_or, hstale c x hfile hmoved hx⟩
        | none =>
          rw [Option.none_or]
          exact h n x hx
    · exact h _ x hx
    · exact h i x hx

end Paired

/-! ## Two families in one loop -/

section Both

variable [DecidableEq N] (p q : ℕ → N)

def renameBoth (i j : ℕ) (d : Directory N C) : Directory N C :=
  rename (q i) (q j) (rename (p i) (p j) d)

def shiftBoth : ℕ → Directory N C → Directory N C
  | 0, d => d
  | i + 1, d => shiftBoth i (renameBoth p q (i + 1) (i + 2) d)

/-- The rotation of a family of files and of their companions. -/
def rotateBoth (n : ℕ) (d : Directory N C) : Directory N C :=
  remove (q (n + 1)) (remove (p (n + 1)) (renameBoth p q 0 1 (shiftBoth p q (n - 1) d)))

variable {p q}

theorem shiftBoth_comp_left (hp : p.Injective) (hpq : ∀ i j, p i ≠ q j) :
    ∀ (m : ℕ) (d : Directory N C), shiftBoth p q m d ∘ p = shift m (d ∘ p)
  | 0, _ => rfl
  | m + 1, d => by
    rw [shiftBoth, shiftBoth_comp_left hp hpq m, renameBoth,
      rename_comp_of_ne (hpq · _) (hpq · _), rename_comp hp, shift]

theorem shiftBoth_comp_right (hq : q.Injective) (hpq : ∀ i j, p i ≠ q j) :
    ∀ (m : ℕ) (d : Directory N C), shiftBoth p q m d ∘ q = shift m (d ∘ q)
  | 0, _ => rfl
  | m + 1, d => by
    rw [shiftBoth, shiftBoth_comp_right hq hpq m, renameBoth, rename_comp hq,
      rename_comp_of_ne (fun i => (hpq _ i).symm) (fun i => (hpq _ i).symm), shift]

theorem shiftBoth_comp_of_ne {r : M → N} (hp : ∀ m i, r m ≠ p i) (hq : ∀ m i, r m ≠ q i) :
    ∀ (k : ℕ) (d : Directory N C), shiftBoth p q k d ∘ r = d ∘ r
  | 0, _ => rfl
  | k + 1, d => by
    rw [shiftBoth, shiftBoth_comp_of_ne hp hq k, renameBoth, rename_comp_of_ne (hq · _) (hq · _),
      rename_comp_of_ne (hp · _) (hp · _)]

variable {d : Directory N C} {n : ℕ}

/-- **The files rotate**, whatever their companions do, -/
theorem rotateBoth_comp_left (hp : p.Injective) (hpq : ∀ i j, p i ≠ q j) :
    rotateBoth p q n d ∘ p = rotate n (d ∘ p) := by
  rw [rotateBoth, remove_comp_of_ne (hpq · _), remove_comp hp, renameBoth,
    rename_comp_of_ne (hpq · _) (hpq · _), rename_comp hp, shiftBoth_comp_left hp hpq, rotate]

/-- **and so do the companions**, -/
theorem rotateBoth_comp_right (hq : q.Injective) (hpq : ∀ i j, p i ≠ q j) :
    rotateBoth p q n d ∘ q = rotate n (d ∘ q) := by
  rw [rotateBoth, remove_comp hq, remove_comp_of_ne (fun i => (hpq _ i).symm), renameBoth,
    rename_comp hq, rename_comp_of_ne (fun i => (hpq _ i).symm) (fun i => (hpq _ i).symm),
    shiftBoth_comp_right hq hpq, rotate]

/-- **and no other file is touched.** -/
theorem rotateBoth_comp_of_ne {r : M → N} (hp : ∀ m i, r m ≠ p i) (hq : ∀ m i, r m ≠ q i) :
    rotateBoth p q n d ∘ r = d ∘ r := by
  rw [rotateBoth, remove_comp_of_ne (hq · _), remove_comp_of_ne (hp · _), renameBoth,
    rename_comp_of_ne (hq · _) (hq · _), rename_comp_of_ne (hp · _) (hp · _),
    shiftBoth_comp_of_ne hp hq]

end Both

end Directory

/-! ## Records in numbered files -/

/-- The files of a rotated log, newest first, each with its records, oldest first. -/
abbrev Shelf (α : Type*) := List (List α)

namespace Shelf

variable {s : Shelf α} {x : α} {n : ℕ}

/-- All records, oldest first. -/
def history (s : Shelf α) : List α := s.reverse.flatten

/-- Add a record to the newest file. -/
def put (x : α) : Shelf α → Shelf α
  | [] => [[x]]
  | cur :: old => (cur ++ [x]) :: old

/-- Start a new file, keeping `n` old ones. -/
def rotate (n : ℕ) (s : Shelf α) : Shelf α := [] :: s.take n

@[simp] theorem history_cons {cur : List α} : history (cur :: s) = history s ++ cur := by
  simp [history]

/-- **A rotation keeps a suffix.** -/
theorem history_rotate_suffix : history (rotate n s) <:+ history s := by
  refine ⟨(s.drop n).reverse.flatten, ?_⟩
  rw [rotate, history_cons, List.append_nil, history, history, ← List.flatten_append,
    ← List.reverse_append, List.take_append_drop]

end Shelf

end AgentProcs
