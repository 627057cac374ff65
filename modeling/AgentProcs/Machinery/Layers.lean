import Mathlib.Data.Fintype.Card
import Mathlib.Data.List.Sort
import Mathlib.Data.Set.Finite.List
import Mathlib.Logic.Relation
import Mathlib.Order.Bounds.Basic

/-!
# Machinery/Layers — the layers of a dependency graph

    a ◂── b ◂── d        layer 0   a c    nothing below
    c ◂─────────┘        layer 1   b      longest chain below: 1
                         layer 2   d      longest chain below: 2

A node belongs to the layer that the longest chain below it is long.  Taken away layer by layer, a
finite graph is used up exactly if it has no cycle: where every node that is left depends on one
that is left, some chain among them comes back.
-/

namespace AgentProcs

section Layers

variable {α : Type*} (below : α → List α)

/-- **A chain of dependencies** below a node, of this length. -/
inductive ChainBelow : α → ℕ → Prop
  | nil {x : α} : ChainBelow x 0
  | cons {x y : α} {n : ℕ} (hy : y ∈ below x) (hchain : ChainBelow y n) : ChainBelow x (n + 1)

/-- All chains below are shorter. -/
def Shallow (k : ℕ) (x : α) : Prop := ∀ n, ChainBelow below x n → n < k

/-- Some node depends on itself, directly or not. -/
def Cyclic : Prop := ∃ x, Relation.TransGen (fun x y => y ∈ below x) x x

variable {below} {x y : α} {k : ℕ}

theorem not_shallow_zero : ¬Shallow below 0 x := fun h => absurd (h 0 .nil) (Nat.not_lt_zero 0)

theorem Shallow.mono {m : ℕ} (h : Shallow below k x) (hle : k ≤ m) : Shallow below m x :=
  fun n hn => (h n hn).trans_le hle

/-- **Layer by layer**: what is below is one layer shallower. -/
theorem shallow_succ_iff : Shallow below (k + 1) x ↔ ∀ y ∈ below x, Shallow below k y := by
  constructor
  · intro h y hy n hn
    exact Nat.lt_of_succ_lt_succ (h (n + 1) (.cons hy hn))
  · intro h n hn
    cases hn with
    | nil => exact Nat.succ_pos k
    | cons hy hchain => exact Nat.succ_lt_succ (h _ hy _ hchain)

/-- **The layer of a node** is the length of the longest chain below it. -/
theorem isGreatest_chainBelow_iff : IsGreatest {n | ChainBelow below x n} k ↔
    Shallow below (k + 1) x ∧ ¬Shallow below k x := by
  constructor
  · rintro ⟨hchain, hlongest⟩
    exact ⟨fun n hn => Nat.lt_succ_of_le (hlongest hn), fun h => absurd (h k hchain) (lt_irrefl k)⟩
  · rintro ⟨hshallow, hdeep⟩
    rw [Shallow] at hdeep
    push Not at hdeep
    obtain ⟨n, hn, hle⟩ := hdeep
    obtain rfl : n = k := le_antisymm (Nat.le_of_lt_succ (hshallow n hn)) hle
    exact ⟨hn, fun m hm => Nat.le_of_lt_succ (hshallow m hm)⟩

/-! ## Cycles -/

theorem Shallow.descend (hpath : Relation.TransGen (fun x y => y ∈ below x) x y)
    (h : Shallow below (k + 1) x) : Shallow below k y := by
  induction hpath with
  | single hy => exact shallow_succ_iff.mp h _ hy
  | @tail y z _ hz ih =>
    cases k with
    | zero => exact absurd ih not_shallow_zero
    | succ k => exact (shallow_succ_iff.mp ih z hz).mono (Nat.le_succ k)

/-- **On a cycle nothing is shallow.** -/
theorem not_shallow_of_cycle (hcycle : Relation.TransGen (fun x y => y ∈ below x) x x) :
    ¬Shallow below k x := by
  induction k with
  | zero => exact not_shallow_zero
  | succ k ih => exact fun h => ih (h.descend hcycle)

/-- **No way out is a cycle**: some of these nodes comes back to itself if each depends on one of
them. -/
theorem cyclic_of_no_source {nodes : List α} (hne : nodes ≠ [])
    (h : ∀ x ∈ nodes, ∃ y ∈ below x, y ∈ nodes) : Cyclic below := by
  by_contra hacyclic
  let reaches (x y : {x // x ∈ nodes}) : Prop :=
    Relation.TransGen (fun x y => y ∈ below x) y.1 x.1
  have htrans : IsTrans {x // x ∈ nodes} reaches := ⟨fun _ _ _ hxy hyz => hyz.trans hxy⟩
  have hirrefl : Std.Irrefl reaches := ⟨fun x hx => hacyclic ⟨x.1, hx⟩⟩
  have hfinite : Finite {x // x ∈ nodes} := (List.finite_toSet nodes).to_subtype
  obtain ⟨x, hx⟩ := List.exists_mem_of_ne_nil nodes hne
  refine (Finite.wellFounded_of_trans_of_irrefl reaches).induction (C := fun _ => False) ⟨x, hx⟩
    fun source ih => ?_
  obtain ⟨y, hy, hmem⟩ := h source.1 source.2
  exact ih ⟨y, hmem⟩ (.single hy)

/-! ## The layers, listed -/

/-- **The layers from the `k`-th on**, none empty and each in order, until nothing is left. -/
def LayersFrom [LT α] (below : α → List α) (nodes : Set α) : ℕ → List (List α) → Prop
  | k, [] => ∀ x ∈ nodes, Shallow below k x
  | k, layer :: layers => layer ≠ [] ∧ layer.Pairwise (· < ·) ∧
      (∀ x, x ∈ layer ↔ x ∈ nodes ∧ Shallow below (k + 1) x ∧ ¬Shallow below k x) ∧
      LayersFrom below nodes (k + 1) layers

namespace LayersFrom

variable [LinearOrder α] {nodes : Set α} {layers layers' : List (List α)}

/-- **There is only one such list.** -/
protected theorem unique (h : LayersFrom below nodes k layers)
    (h' : LayersFrom below nodes k layers') : layers = layers' := by
  induction layers generalizing k layers' with
  | nil =>
    cases layers' with
    | nil => rfl
    | cons layer layers' =>
      obtain ⟨x, hx⟩ := List.exists_mem_of_ne_nil layer h'.1
      obtain ⟨hnode, -, hdeep⟩ := (h'.2.2.1 x).mp hx
      exact absurd (h x hnode) hdeep
  | cons layer layers ih =>
    cases layers' with
    | nil =>
      obtain ⟨x, hx⟩ := List.exists_mem_of_ne_nil layer h.1
      obtain ⟨hnode, -, hdeep⟩ := (h.2.2.1 x).mp hx
      exact absurd (h' x hnode) hdeep
    | cons layer' layers' =>
      have hsame : layer = layer' := by
        refine List.Perm.eq_of_pairwise' h.2.1 h'.2.1 ?_
        rw [List.perm_ext_iff_of_nodup (h.2.1.imp ne_of_lt) (h'.2.1.imp ne_of_lt)]
        exact fun x => (h.2.2.1 x).trans (h'.2.2.1 x).symm
      rw [hsame, ih h.2.2.2 h'.2.2.2]

/-- A listed layer, by its index. -/
theorem getElem? (h : LayersFrom below nodes k layers) {index : ℕ} {layer : List α}
    (hlayer : layers[index]? = some layer) : layer ≠ [] ∧ layer.Pairwise (· < ·) ∧
      ∀ x, x ∈ layer ↔ x ∈ nodes ∧ IsGreatest {n | ChainBelow below x n} (k + index) := by
  induction layers generalizing k index with
  | nil => simp at hlayer
  | cons first layers ih =>
    cases index with
    | zero =>
      obtain rfl : first = layer := by simpa using hlayer
      exact ⟨h.1, h.2.1, fun x => (h.2.2.1 x).trans (by rw [add_zero, isGreatest_chainBelow_iff])⟩
    | succ index =>
      have htail := ih h.2.2.2 (by simpa using hlayer)
      rwa [Nat.add_right_comm] at htail

/-- What they hold are the nodes no shallower. -/
theorem mem_flatten (h : LayersFrom below nodes k layers) :
    x ∈ layers.flatten ↔ x ∈ nodes ∧ ¬Shallow below k x := by
  induction layers generalizing k with
  | nil => simpa using h x
  | cons layer layers ih =>
    rw [List.flatten_cons, List.mem_append, h.2.2.1 x, ih h.2.2.2]
    constructor
    · rintro (⟨hx, -, hdeep⟩ | ⟨hx, hdeep⟩)
      · exact ⟨hx, hdeep⟩
      · exact ⟨hx, fun hshallow => hdeep (hshallow.mono (Nat.le_succ k))⟩
    · rintro ⟨hx, hdeep⟩
      by_cases hshallow : Shallow below (k + 1) x
      · exact .inl ⟨hx, hshallow, hdeep⟩
      · exact .inr ⟨hx, hshallow⟩

/-- Each of them once. -/
theorem nodup_flatten (h : LayersFrom below nodes k layers) : layers.flatten.Nodup := by
  induction layers generalizing k with
  | nil => exact List.nodup_nil
  | cons layer layers ih =>
    rw [List.flatten_cons, List.nodup_append]
    refine ⟨h.2.1.imp ne_of_lt, ih h.2.2.2, fun x hx y hy heq => ?_⟩
    subst heq
    exact (h.2.2.2.mem_flatten.mp hy).2 ((h.2.2.1 x).mp hx).2.1

/-- Used up, the graph has no cycle among its nodes. -/
theorem not_cycle (h : LayersFrom below nodes k layers) (hx : x ∈ nodes) :
    ¬Relation.TransGen (fun x y => y ∈ below x) x x := by
  intro hcycle
  induction layers generalizing k with
  | nil => exact not_shallow_of_cycle hcycle (h x hx)
  | cons layer layers ih => exact ih h.2.2.2

end LayersFrom

end Layers

end AgentProcs
