import Mathlib.Data.List.Nodup
import Mathlib.Data.List.Sort

/-!
# Machinery/StableSort — a stable sort by key is a sort by key and place

    l = x y z …   key x = key z < key y     ──mergeSort──▸   x z … y

`l.mergeSort` by a key keeps the order of elements with equal keys.  When the elements of `l` stand
in some strict order, the sorted list therefore stands in the lexicographic one, key first.
-/

open scoped List

namespace AgentProcs

variable {α : Type*} {key : α → ℕ} {T : α → α → Prop} {l : List α} {x y : α}

/-- Two elements of a list without repetitions stand in one order only. -/
theorem not_sublist_swap (h : l.Nodup) (hxy : [x, y] <+ l) : ¬[y, x] <+ l := by
  induction l with
  | nil => exact absurd hxy (by simp)
  | cons a l ih =>
    obtain ⟨ha, hl⟩ := List.nodup_cons.mp h
    intro hyx
    have hmem : ∀ {u v : α}, [u, v] <+ l → v ∈ l := fun huv => huv.subset (by simp)
    rcases List.sublist_cons_iff.mp hxy with hxy | ⟨r, hr, hxy⟩
    · rcases List.sublist_cons_iff.mp hyx with hyx | ⟨r, hr, -⟩
      · exact ih hl hxy hyx
      · exact ha ((List.cons_eq_cons.mp hr).1 ▸ hmem hxy)
    · obtain ⟨rfl, rfl⟩ := List.cons_eq_cons.mp hr
      rcases List.sublist_cons_iff.mp hyx with hyx | ⟨r, hr, hyx⟩
      · exact ha (hmem hyx)
      · obtain ⟨rfl, rfl⟩ := List.cons_eq_cons.mp hr
        exact ha (List.singleton_sublist.mp hyx)

/-- Two different elements stand in one order or the other. -/
theorem sublist_or_swap (hx : x ∈ l) (hy : y ∈ l) (hne : x ≠ y) : [x, y] <+ l ∨ [y, x] <+ l := by
  induction l with
  | nil => exact absurd hx List.not_mem_nil
  | cons a l ih =>
    rcases List.mem_cons.mp hx with rfl | hx' <;> rcases List.mem_cons.mp hy with rfl | hy'
    · exact absurd rfl hne
    · exact .inl ((List.singleton_sublist.mpr hy').cons_cons _)
    · exact .inr ((List.singleton_sublist.mpr hx').cons_cons _)
    · exact (ih hx' hy').imp (.cons a) (.cons a)

/-- A list sorted by key stands by key. -/
theorem pairwise_mergeSort_key (key : α → ℕ) (l : List α) :
    (l.mergeSort fun a b => key a ≤ key b).Pairwise fun a b => key a ≤ key b := by
  have h := @List.pairwise_mergeSort _ (fun a b => decide (key a ≤ key b))
    (by simpa using fun _ _ _ => Nat.le_trans) (by simpa using fun a b => Nat.le_total _ _) l
  simpa using h

/-- **A stable sort is lexicographic.** -/
theorem pairwise_mergeSort_lex (hT : l.Pairwise T) (hirr : ∀ a, ¬T a a) :
    (l.mergeSort fun a b => key a ≤ key b).Pairwise
      fun a b => key a < key b ∨ key a = key b ∧ T a b := by
  have hnodup : l.Nodup := by
    refine hT.imp fun {a b} hab => ?_
    rintro rfl
    exact hirr a hab
  have hnodup' : (l.mergeSort fun a b => key a ≤ key b).Nodup :=
    (List.mergeSort_perm l _).nodup_iff.mpr hnodup
  have hsorted := pairwise_mergeSort_key key l
  rw [List.pairwise_iff_forall_sublist] at hsorted hT ⊢
  intro a b hab
  rcases (hsorted hab).lt_or_eq with hlt | htie
  · exact .inl hlt
  · refine .inr ⟨htie, ?_⟩
    have ha : a ∈ l := List.mem_mergeSort.mp (hab.subset (by simp))
    have hb : b ∈ l := List.mem_mergeSort.mp (hab.subset (by simp))
    have hne : a ≠ b := by
      rintro rfl
      exact not_sublist_swap hnodup' hab hab
    rcases sublist_or_swap ha hb hne with h | h
    · exact hT h
    · -- with equal keys the sort would have kept `b` before `a`
      have hswap : [b, a] <+ l.mergeSort fun a b => decide (key a ≤ key b) :=
        List.pair_sublist_mergeSort (fun _ _ _ hab hbc => decide_eq_true
          ((of_decide_eq_true hab).trans (of_decide_eq_true hbc)))
          (fun a b => by simpa using Nat.le_total (key a) (key b)) (by simp [htie]) h
      exact absurd hswap (not_sublist_swap hnodup' hab)

/-- **What holds in sorted order**, read off the order. -/
theorem pairwise_iff_of_sorted {R : α → α → Prop} (h : l.Pairwise R)
    (hasymm : ∀ a b, R a b → ¬R b a) (P : α → α → Prop) :
    l.Pairwise P ↔ ∀ a ∈ l, ∀ b ∈ l, R a b → P a b := by
  refine ⟨fun hP a ha b hb hab => ?_, fun hP => h.imp_of_mem fun ha hb hab => hP _ ha _ hb hab⟩
  have hne : a ≠ b := by
    rintro rfl
    exact hasymm a a hab hab
  rcases sublist_or_swap ha hb hne with hsub | hsub
  · exact List.pairwise_iff_forall_sublist.mp hP hsub
  · exact absurd (List.pairwise_iff_forall_sublist.mp h hsub) (hasymm a b hab)

/-- **The end of a list in strict order**: elements of it, in order, and behind all the others. -/
theorem suffix_iff_of_ordered [DecidableEq α] {R : α → α → Prop} {ending : List α}
    (h : l.Pairwise R) (hasymm : ∀ a b, R a b → ¬R b a) :
    ending <:+ l ↔ (∀ x ∈ ending, x ∈ l) ∧ ending.Pairwise R ∧
      ∀ x ∈ l, x ∉ ending → ∀ y ∈ ending, R x y := by
  have hnodup : ∀ {m : List α}, m.Pairwise R → m.Nodup := fun hm => hm.imp fun {a b} hab => by
    rintro rfl
    exact hasymm a a hab hab
  refine ⟨?_, ?_⟩
  · rintro ⟨before, rfl⟩
    obtain ⟨-, hending, hcross⟩ := List.pairwise_append.mp h
    refine ⟨fun x hx => List.mem_append_right _ hx, hending, fun x hx hnot y hy => ?_⟩
    exact hcross x ((List.mem_append.mp hx).resolve_right hnot) y hy
  · rintro ⟨hmem, hending, hbehind⟩
    refine ⟨l.filter (· ∉ ending), ?_⟩
    have hordered : (l.filter (· ∉ ending) ++ ending).Pairwise R :=
      List.pairwise_append.mpr ⟨h.filter _, hending, fun x hx y hy => by
        obtain ⟨hx, hnot⟩ := List.mem_filter.mp hx
        exact hbehind x hx (of_decide_eq_true hnot) y hy⟩
    have hperm : (l.filter (· ∉ ending) ++ ending).Perm l := by
      refine (List.perm_ext_iff_of_nodup (hnodup hordered) (hnodup h)).mpr fun x => ?_
      rw [List.mem_append, List.mem_filter, decide_eq_true_iff]
      refine ⟨fun hx => hx.elim And.left (hmem x), fun hx => ?_⟩
      by_cases hending : x ∈ ending
      · exact .inr hending
      · exact .inl ⟨hx, hending⟩
    exact hperm.eq_of_pairwise (fun a b _ _ hab hba => absurd hba (hasymm a b hab)) hordered h

end AgentProcs
