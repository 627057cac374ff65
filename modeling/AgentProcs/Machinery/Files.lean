import Mathlib.Data.Fintype.Card
import Mathlib.Data.Nat.Notation
import Mathlib.Data.Option.Basic
import Mathlib.Logic.Function.Basic
import Mathlib.Tactic.SplitIfs

/-!
# Machinery/Files — names, inodes and contents

    name ──dir──▸ inode ──data──▸ contents          read = data ∘ dir

A `Directory` says what each name holds.  A `FileSystem` puts an inode between the two, so that an
open file stays the same file when it is renamed or replaced under its name; every inode in use has
one name.  `read` forgets the inodes, and each operation on names becomes the same operation on the
directory read.
-/

namespace AgentProcs

variable {M N C : Type*}

/-- What each name holds. -/
abbrev Directory (N C : Type*) := N → Option C

namespace Directory

variable [DecidableEq N]

/-- Move what `a` holds to `b`, replacing what is there; a missing `a` changes nothing. -/
def rename (a b : N) (d : Directory N C) : Directory N C :=
  match d a with
  | none => d
  | some c => Function.update (Function.update d a none) b (some c)

def remove (a : N) (d : Directory N C) : Directory N C := Function.update d a none

variable {a b : N} {d : Directory N C}

theorem rename_apply (x : N) : rename a b d x =
    if (d a).isSome then (if x = b then d a else if x = a then none else d x) else d x := by
  rw [rename]
  cases h : d a <;> simp [Function.update_apply]

/-- A name renamed to itself is as it was. -/
theorem rename_self (a : N) (d : Directory N C) : rename a a d = d := by
  ext1 x
  rw [rename_apply]
  split_ifs with _ hx
  · rw [hx]
  · rfl
  · rfl

/-- So is everything when what is renamed is missing. -/
theorem rename_of_none (h : d a = none) : rename a b d = d := by
  rw [rename, h]

theorem remove_of_none (h : d a = none) : remove a d = d := by
  rw [remove, ← h, Function.update_eq_self]

/-! ## Through a family of names -/

/-- **Renaming inside a family** is renaming its indices. -/
theorem rename_comp [DecidableEq M] {p : M → N} (hp : p.Injective) (i j : M) :
    rename (p i) (p j) d ∘ p = rename i j (d ∘ p) := by
  ext1 m
  simp only [Function.comp_apply, rename_apply, hp.eq_iff]

/-- Renaming outside a family leaves it alone. -/
theorem rename_comp_of_ne {p : M → N} (ha : ∀ m, p m ≠ a) (hb : ∀ m, p m ≠ b) :
    rename a b d ∘ p = d ∘ p := by
  ext1 m
  simp only [Function.comp_apply, rename_apply, ha m, hb m, if_false, ite_self]

theorem remove_comp [DecidableEq M] {p : M → N} (hp : p.Injective) (i : M) :
    remove (p i) d ∘ p = remove i (d ∘ p) :=
  Function.update_comp_eq_of_injective d hp i none

theorem remove_comp_of_ne {p : M → N} (ha : ∀ m, p m ≠ a) : remove a d ∘ p = d ∘ p :=
  Function.update_comp_eq_of_forall_ne d none ha

end Directory

/-- Names, inodes and contents, without hard links. -/
structure FileSystem (N C : Type*) where
  dir : N → Option ℕ
  data : ℕ → C
  /-- The next inode to hand out. -/
  next : ℕ
  lt_next : ∀ {n : N} {i : ℕ}, dir n = some i → i < next
  single : ∀ {m n : N} {i : ℕ}, dir m = some i → dir n = some i → m = n

namespace FileSystem

variable [DecidableEq N] {fs : FileSystem N C} {a b m n : N} {c : C} {h : ℕ}

/-- What a name holds. -/
def read (fs : FileSystem N C) : Directory N C := fun n => (fs.dir n).map fs.data

/-- Nothing on it. -/
def empty (c : C) : FileSystem N C where
  dir _ := none
  data _ := c
  next := 0
  lt_next h := nomatch h
  single h := nomatch h

/-- Write through an open file. -/
def modify (h : ℕ) (f : C → C) (fs : FileSystem N C) : FileSystem N C :=
  { fs with data := Function.update fs.data h (f (fs.data h)) }

/-- Rewire names to inodes in use, each at most once. -/
def relink (fs : FileSystem N C) (dir : N → Option ℕ)
    (src : N → N) (hsrc : ∀ {n : N} {i : ℕ}, dir n = some i → fs.dir (src n) = some i)
    (hinj : ∀ {m n : N} {i : ℕ}, dir m = some i → dir n = some i → src m = src n → m = n) :
    FileSystem N C where
  dir := dir
  data := fs.data
  next := fs.next
  lt_next h := fs.lt_next (hsrc h)
  single h h' := hinj h h' (fs.single (hsrc h) (hsrc h'))

/-- `rename(2)`: a missing source changes nothing. -/
def rename (a b : N) (fs : FileSystem N C) : FileSystem N C :=
  fs.relink (Directory.rename a b fs.dir)
    (fun n => if (fs.dir a).isSome ∧ n = b then a else n)
    (by
      intro n i hn
      rw [Directory.rename_apply] at hn
      split_ifs at hn ⊢ <;> simp_all)
    (by
      intro m n i hm hn hmn
      rw [Directory.rename_apply] at hm hn
      split_ifs at hm hn hmn <;> simp_all)

/-- `unlink(2)`: an open file stays readable through its handle. -/
def remove (a : N) (fs : FileSystem N C) : FileSystem N C :=
  fs.relink (Directory.remove a fs.dir) id
    (by
      intro n i hn
      rw [Directory.remove, Function.update_apply] at hn
      split_ifs at hn
      exact hn)
    (by
      intro m n i _ _ hmn
      exact hmn)

/-- A new inode under this name. -/
def link (n : N) (c : C) (fs : FileSystem N C) : FileSystem N C where
  dir := Function.update fs.dir n (some fs.next)
  data := Function.update fs.data fs.next c
  next := fs.next + 1
  lt_next {m i} hm := by
    rw [Function.update_apply] at hm
    split_ifs at hm with heq
    · exact Nat.lt_succ_of_le (Nat.le_of_eq (Option.some.inj hm).symm)
    · exact Nat.lt_succ_of_lt (fs.lt_next hm)
  single {m m' i} hm hm' := by
    rw [Function.update_apply] at hm hm'
    split_ifs at hm hm' with heq heq' heq'
    · rw [heq, heq']
    · exact absurd (fs.lt_next hm') (Option.some.inj hm ▸ Nat.lt_irrefl _)
    · exact absurd (fs.lt_next hm) (Option.some.inj hm' ▸ Nat.lt_irrefl _)
    · exact fs.single hm hm'

/-- `open(2)` with `O_CREAT | O_TRUNC`: the file under this name, emptied, or a new one. -/
def create (n : N) (c : C) (fs : FileSystem N C) : ℕ × FileSystem N C :=
  match fs.dir n with
  | some i => (i, fs.modify i fun _ => c)
  | none => (fs.next, fs.link n c)

omit [DecidableEq N] in
/-- **There are no more names in use than inodes.** -/
theorem le_next {p : ℕ → N} (hp : p.Injective) {k : ℕ} (hk : ∀ i < k, (fs.dir (p i)).isSome) :
    k ≤ fs.next := by
  have hinode : ∀ i : Fin k, ∃ j : Fin fs.next, fs.dir (p i) = some j.val := fun i => by
    obtain ⟨j, hj⟩ := Option.isSome_iff_exists.mp (hk i i.isLt)
    exact ⟨⟨j, fs.lt_next hj⟩, hj⟩
  choose inode hinode using hinode
  have hinj : inode.Injective := fun i i' heq =>
    Fin.ext (hp (fs.single (hinode i) (heq ▸ hinode i')))
  simpa using Fintype.card_le_of_injective inode hinj

/-! ## What is read afterwards -/

@[simp] theorem dir_rename : (fs.rename a b).dir = Directory.rename a b fs.dir := rfl

@[simp] theorem dir_remove : (fs.remove a).dir = Directory.remove a fs.dir := rfl

theorem dir_remove_self (fs : FileSystem N C) (a : N) : (fs.remove a).dir a = none := by
  rw [dir_remove, Directory.remove, Function.update_self]

/-- **Writing through a file** changes what its one name holds. -/
theorem read_modify (hn : fs.dir n = some h) (f : C → C) :
    (fs.modify h f).read = Function.update fs.read n ((fs.read n).map f) := by
  ext1 m
  rw [Function.update_apply]
  split_ifs with heq
  · subst heq
    simp [read, modify, hn]
  · have hm : fs.dir m ≠ some h := fun hm => heq (fs.single hm hn)
    rw [read, read, modify]
    cases hi : fs.dir m with
    | none => rfl
    | some i => simp [Function.update_of_ne (fun hih : i = h => hm (hih ▸ hi))]

omit [DecidableEq N] in
/-- Writing through another file changes nothing here. -/
theorem read_modify_of_ne {i : ℕ} (hn : fs.dir n = some h) (hne : h ≠ i) (f : C → C) :
    (fs.modify i f).read n = fs.read n := by
  simp [read, modify, hn, Function.update_of_ne hne]

@[simp] theorem read_rename : (fs.rename a b).read = Directory.rename a b fs.read := by
  ext1 n
  have hread : ∀ x, fs.read x = (fs.dir x).map fs.data := fun _ => rfl
  have hdir : (fs.rename a b).read n = (Directory.rename a b fs.dir n).map fs.data := rfl
  rw [hdir, Directory.rename_apply, Directory.rename_apply, hread, hread, Option.isSome_map]
  split_ifs <;> rfl

@[simp] theorem read_remove : (fs.remove a).read = Directory.remove a fs.read := by
  ext1 n
  have hdir : (fs.remove a).read n = (Directory.remove a fs.dir n).map fs.data := rfl
  rw [hdir, Directory.remove, Directory.remove, Function.update_apply, Function.update_apply]
  split_ifs <;> rfl

/-- **Creating** gives the name these contents and no other name anything. -/
@[simp] theorem read_create : (fs.create n c).2.read = Function.update fs.read n (some c) := by
  rw [create]
  split
  next i hi =>
    rw [read_modify hi, read, hi]
    rfl
  next hn =>
    ext1 m
    rw [Function.update_apply]
    split_ifs with heq
    · subst heq
      simp [read, link]
    · rw [read, read]
      cases hm : fs.dir m with
      | none => simp [link, Function.update_of_ne heq, hm]
      | some i =>
        have hi : i ≠ fs.next := Nat.ne_of_lt (fs.lt_next hm)
        simp [link, Function.update_of_ne heq, hm, Function.update_of_ne hi]

@[simp] theorem read_link_self : (fs.link n c).read n = some c := by
  simp [read, link]

/-- The file created is the one under the name. -/
@[simp] theorem dir_create :
    (fs.create n c).2.dir = Function.update fs.dir n (some (fs.create n c).1) := by
  rw [create]
  split
  next i hi => exact (Function.update_eq_self_iff.mpr hi.symm).symm
  next hn => rfl

/-! ## What the inodes hold afterwards -/

/-- Creating touches the file that is under the name, and no other. -/
theorem data_create_of_ne (hne : fs.dir n ≠ some h) (hlt : h < fs.next) :
    (fs.create n c).2.data h = fs.data h := by
  rw [create]
  split
  next i hi =>
    have hhi : h ≠ i := fun heq => hne (heq ▸ hi)
    exact Function.update_of_ne hhi _ _
  next hn => exact Function.update_of_ne (Nat.ne_of_lt hlt) _ _

theorem next_le_create : fs.next ≤ (fs.create n c).2.next := by
  rw [create]
  split
  next i hi => exact Nat.le_refl _
  next hn => exact Nat.le_succ _

/-- A file in use keeps its name, or is under none. -/
theorem dir_of_create (hlt : h < fs.next) (hm : (fs.create n c).2.dir m = some h) :
    fs.dir m = some h := by
  rw [create] at hm
  split at hm
  next i hi => exact hm
  next hn =>
    have hlink : Function.update fs.dir n (some fs.next) m = some h := hm
    rw [Function.update_apply] at hlink
    split_ifs at hlink with heq
    · exact absurd (Option.some.inj hlink) (Nat.ne_of_gt hlt)
    · exact hlink

theorem dir_of_remove (hm : (fs.remove n).dir m = some h) : fs.dir m = some h := by
  rw [dir_remove, Directory.remove, Function.update_apply] at hm
  split_ifs at hm
  exact hm

end FileSystem

end AgentProcs
