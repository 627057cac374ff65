import Mathlib.Data.List.AList
import Mathlib.Algebra.Order.BigOperators.Group.List
import Mathlib.Algebra.Order.Ring.Nat

/-!
# Machinery/Ledger — a table of records whose contents can be counted

    tally w t = Σ over the records v of t of  w v

A `Table` stores each record under a key the record itself carries, so that a record found by any
other route can be put back under its own name.  `update` touches one record, `map` all of them,
and `tally` weighs them; `tally_update` is the bookkeeping rule of a conservation proof: changing
one record changes the total by exactly that record's weight.
-/

namespace AgentProcs

/-- A finite map of records, each stored under its own key, in no order a lookup can see. -/
structure Table {κ α : Type*} [DecidableEq κ] (key : α → κ) where
  store : AList fun _ : κ => α
  keyed : ∀ k v, store.lookup k = some v → key v = k

namespace Table

variable {κ α : Type*} [DecidableEq κ] {key : α → κ}

/-- The record under a key. -/
def lookup (k : κ) (t : Table key) : Option α := t.store.lookup k

/-- The records, in the table's own order. -/
def values (t : Table key) : List α := t.store.entries.map Sigma.snd

/-- The keys, in the same order. -/
def keys (t : Table key) : List κ := t.store.keys

/-- The total weight of the records. -/
def tally (w : α → ℕ) (t : Table key) : ℕ := (t.values.map w).sum

theorem key_eq {t : Table key} {k : κ} {v : α} (h : t.lookup k = some v) : key v = k :=
  t.keyed k v h

theorem mem_entries {t : Table key} {k : κ} {v : α} :
    (⟨k, v⟩ : Σ _ : κ, α) ∈ t.store.entries ↔ t.lookup k = some v :=
  (List.mem_dlookup_iff t.store.nodupKeys).symm

/-- **A record of the table is found under its own key.** -/
theorem mem_values {t : Table key} {v : α} : v ∈ t.values ↔ t.lookup (key v) = some v := by
  simp only [values, List.mem_map, Sigma.exists, mem_entries]
  constructor
  · rintro ⟨k, v, hk, rfl⟩
    rwa [key_eq hk]
  · intro h
    exact ⟨key v, v, h, rfl⟩

theorem mem_keys {t : Table key} {k : κ} : k ∈ t.keys ↔ ∃ v, t.lookup k = some v := by
  rw [keys, ← AList.mem_keys, ← AList.lookup_isSome, Option.isSome_iff_exists]
  rfl

theorem nodup_keys (t : Table key) : t.keys.Nodup := t.store.keys_nodup

/-- The keys are the records' own. -/
theorem map_key_values (t : Table key) : t.values.map key = t.keys := by
  rw [values, List.map_map, keys, AList.keys, List.keys]
  refine List.map_congr_left fun e he => ?_
  change key e.2 = e.1
  exact key_eq (mem_entries.mp he)

theorem dlookup_filterMap {γ : Type*} (g : α → Option γ) (k : κ) :
    ∀ l : List (Σ _ : κ, α), (∀ e ∈ l, key e.2 = e.1) → l.NodupKeys →
      ((l.map Sigma.snd).filterMap fun v =>
        (g v).map fun c => (⟨key v, c⟩ : Σ _ : κ, γ)).dlookup k = (l.dlookup k).bind g
  | [], _, _ => rfl
  | ⟨j, v⟩ :: l, hkeyed, hnd => by
    obtain ⟨hj, hrest⟩ := List.nodupKeys_cons.mp hnd
    obtain rfl : key v = j := hkeyed ⟨j, v⟩ List.mem_cons_self
    have ih := dlookup_filterMap g k l (fun e he => hkeyed e (List.mem_cons_of_mem _ he)) hrest
    rw [List.map_cons, List.filterMap_cons]
    by_cases hk : k = key v
    · subst hk
      rw [List.dlookup_eq_none.mpr hj] at ih
      cases hg : g v with
      | none => simpa [hg] using ih
      | some c => simp [hg]
    · rw [List.dlookup_cons_ne l (⟨key v, v⟩ : Σ _ : κ, α) hk, ← ih]
      cases g v with
      | none => rfl
      | some c => exact List.dlookup_cons_ne _ (⟨key v, c⟩ : Σ _ : κ, γ) hk

/-- **A view of the records**, looked up under a key, is the view of the record there. -/
theorem dlookup_view {γ : Type*} (g : α → Option γ) (k : κ) (t : Table key) :
    (t.values.filterMap fun v => (g v).map fun c => (⟨key v, c⟩ : Σ _ : κ, γ)).dlookup k =
      (t.lookup k).bind g :=
  dlookup_filterMap g k _ (fun _ he => key_eq (mem_entries.mp he)) t.store.nodupKeys

/-! ## The empty table -/

def empty : Table key where
  store := ∅
  keyed k v h := absurd h (by simp)

@[simp] theorem lookup_empty (k : κ) : (empty : Table key).lookup k = none := AList.lookup_empty k

@[simp] theorem tally_empty (w : α → ℕ) : (empty : Table key).tally w = 0 := rfl

/-! ## Adding a record -/

def insert (v : α) (t : Table key) : Table key where
  store := t.store.insert (key v) v
  keyed k u h := by
    by_cases hk : k = key v
    · subst hk
      rw [AList.lookup_insert] at h
      exact congrArg key (Option.some.inj h).symm
    · rw [AList.lookup_insert_ne hk] at h
      exact t.keyed k u h

theorem lookup_insert (v : α) (t : Table key) (k : κ) :
    (t.insert v).lookup k = if k = key v then some v else t.lookup k := by
  split
  · subst k
    exact AList.lookup_insert _
  · exact AList.lookup_insert_ne ‹_›

/-- A fresh record adds its own weight. -/
theorem tally_insert (w : α → ℕ) {v : α} {t : Table key} (h : t.lookup (key v) = none) :
    (t.insert v).tally w = w v + t.tally w := by
  rw [tally, values, insert, AList.entries_insert_of_notMem (AList.lookup_eq_none.mp h),
    List.map_cons, List.map_cons, List.sum_cons]
  rfl

/-! ## Changing every record -/

theorem dlookup_map_snd (f : α → α) (k : κ) :
    ∀ l : List (Σ _ : κ, α),
      (l.map fun e => (⟨e.1, f e.2⟩ : Σ _ : κ, α)).dlookup k = (l.dlookup k).map f
  | [] => rfl
  | ⟨j, v⟩ :: l => by
    by_cases h : j = k
    · subst h
      simp
    · rw [List.map_cons, List.dlookup_cons_ne _ _ (Ne.symm h), List.dlookup_cons_ne _ _ (Ne.symm h)]
      exact dlookup_map_snd f k l

/-- Apply `f`, which leaves keys alone, to every record. -/
def map (f : α → α) (hf : ∀ v, key (f v) = key v) (t : Table key) : Table key where
  store :=
    { entries := t.store.entries.map fun e => ⟨e.1, f e.2⟩
      nodupKeys := by
        have hk : (t.store.entries.map fun e => (⟨e.1, f e.2⟩ : Σ _ : κ, α)).keys
            = t.store.entries.keys := by
          simp [List.keys, List.map_map, Function.comp_def]
        rw [List.NodupKeys, hk]
        exact t.store.keys_nodup }
  keyed k v h := by
    obtain ⟨u, hu, rfl⟩ := Option.map_eq_some_iff.mp ((dlookup_map_snd f k _).symm.trans h)
    rw [hf]
    exact t.keyed k u hu

@[simp] theorem lookup_map (f : α → α) (hf : ∀ v, key (f v) = key v) (t : Table key) (k : κ) :
    (t.map f hf).lookup k = (t.lookup k).map f := dlookup_map_snd f k t.store.entries

@[simp] theorem keys_map (f : α → α) (hf : ∀ v, key (f v) = key v) (t : Table key) :
    (t.map f hf).keys = t.keys := by
  simp [keys, map, AList.keys, List.keys, List.map_map, Function.comp_def]

@[simp] theorem values_map (f : α → α) (hf : ∀ v, key (f v) = key v) (t : Table key) :
    (t.map f hf).values = t.values.map f := by
  simp [values, map, List.map_map, Function.comp_def]

theorem tally_map (w : α → ℕ) (f : α → α) (hf : ∀ v, key (f v) = key v) (t : Table key) :
    (t.map f hf).tally w = t.tally fun v => w (f v) := by
  simp [tally, values, map, List.map_map, Function.comp_def]

/-- Weights that agree on the records give one total. -/
theorem tally_congr {w w' : α → ℕ} {t : Table key}
    (h : ∀ k v, t.lookup k = some v → w v = w' v) : t.tally w = t.tally w' :=
  congrArg List.sum (List.map_congr_left fun v hv => h (key v) v (mem_values.mp hv))

/-! ## Changing one record -/

/-- Apply `f`, which leaves keys alone, to the record under `k`, if there is one. -/
def update (k : κ) (f : α → α) (hf : ∀ v, key (f v) = key v) (t : Table key) : Table key :=
  t.map (fun v => if key v = k then f v else v) fun v => by
    split
    · exact hf v
    · rfl

theorem lookup_update (k : κ) (f : α → α) (hf : ∀ v, key (f v) = key v) (t : Table key) (j : κ) :
    (t.update k f hf).lookup j = if j = k then (t.lookup j).map f else t.lookup j := by
  rw [update, lookup_map]
  cases hj : t.lookup j with
  | none => simp
  | some v => simp only [Option.map_some, key_eq hj]; split <;> rfl

@[simp] theorem lookup_update_self (k : κ) (f : α → α) (hf : ∀ v, key (f v) = key v)
    (t : Table key) : (t.update k f hf).lookup k = (t.lookup k).map f := by
  rw [lookup_update, if_pos rfl]

theorem lookup_update_of (f : α → α) (hf : ∀ v, key (f v) = key v) {t : Table key} {k : κ} {v : α}
    (h : t.lookup k = some v) : (t.update k f hf).lookup k = some (f v) := by
  rw [lookup_update_self, h]
  rfl

theorem lookup_update_ne {j k : κ} (h : j ≠ k) (f : α → α) (hf : ∀ v, key (f v) = key v)
    (t : Table key) : (t.update k f hf).lookup j = t.lookup j := by
  rw [lookup_update, if_neg h]

/-- A record of the updated table is the changed one, or an old one under another key. -/
theorem lookup_update_cases (f : α → α) (hf : ∀ v, key (f v) = key v) {t : Table key} {k : κ}
    {v : α} (hk : t.lookup k = some v) {j : κ} {u : α} (h : (t.update k f hf).lookup j = some u) :
    (j = k ∧ u = f v) ∨ (j ≠ k ∧ t.lookup j = some u) := by
  rw [lookup_update] at h
  split at h
  · subst j
    rw [hk] at h
    exact .inl ⟨rfl, (Option.some.inj h).symm⟩
  · exact .inr ⟨‹_›, h⟩

theorem ext {t u : Table key} (h : t.store = u.store) : t = u := by
  cases t
  cases u
  cases h
  rfl

/-- A change that changes nothing. -/
theorem update_id {f : α → α} (hid : ∀ v, f v = v) (k : κ) (hf : ∀ v, key (f v) = key v)
    (t : Table key) : t.update k f hf = t := by
  refine ext (AList.ext ?_)
  simp [update, map, hid]

/-- Two changes of one record are one. -/
theorem update_update (k : κ) (f g : α → α) (hf : ∀ v, key (f v) = key v)
    (hg : ∀ v, key (g v) = key v) (t : Table key) :
    (t.update k f hf).update k g hg = t.update k (fun v => g (f v)) fun v => (hg _).trans (hf v) := by
  refine ext (AList.ext ?_)
  simp only [update, map, List.map_map]
  refine List.map_congr_left fun e _ => ?_
  by_cases h : key e.2 = k
  · simp [h, hf]
  · simp [h]

/-- Changing the record under `k` is setting it, when it is known. -/
theorem update_congr {t : Table key} {k : κ} {v : α} (h : t.lookup k = some v) {f g : α → α}
    (hf : ∀ v, key (f v) = key v) (hg : ∀ v, key (g v) = key v) (hfg : f v = g v) :
    t.update k f hf = t.update k g hg := by
  refine ext (AList.ext ?_)
  simp only [update, map]
  refine List.map_congr_left fun e he => ?_
  by_cases hk : key e.2 = k
  · have he' : t.lookup e.1 = some e.2 := mem_entries.mp he
    obtain rfl : e.1 = k := (key_eq he').symm.trans hk
    obtain rfl : e.2 = v := Option.some.inj (he'.symm.trans h)
    simp [hfg]
  · simp [hk]

/-- Bringing the record of `k` to the front. -/
theorem exists_values_perm {t : Table key} {k : κ} {v : α} (h : t.lookup k = some v) :
    ∃ l : List α, t.values.Perm (v :: l) ∧ ∀ u ∈ l, key u ≠ k := by
  obtain rfl := key_eq h
  obtain ⟨l₁, l₂, hl⟩ := List.append_of_mem (mem_values.mpr h)
  have hperm : t.values.Perm (v :: (l₁ ++ l₂)) := hl ▸ List.perm_middle
  refine ⟨l₁ ++ l₂, hperm, fun u hu hku => ?_⟩
  have hnd : (key v :: (l₁ ++ l₂).map key).Nodup :=
    (hperm.map key).nodup_iff.mp (t.map_key_values ▸ t.nodup_keys)
  exact (List.nodup_cons.mp hnd).1 (List.mem_map.mpr ⟨u, hu, hku⟩)

/-- **The bookkeeping rule**: changing the record under `k` changes the total by its weight. -/
theorem tally_update (w : α → ℕ) {t : Table key} {k : κ} {v : α} (h : t.lookup k = some v)
    (f : α → α) (hf : ∀ v, key (f v) = key v) :
    (t.update k f hf).tally w + w v = t.tally w + w (f v) := by
  obtain ⟨l, hperm, hne⟩ := exists_values_perm h
  have hold : t.tally w = w v + (l.map w).sum := by
    rw [tally, (hperm.map w).sum_eq, List.map_cons, List.sum_cons]
  have hnew : (t.update k f hf).tally w = w (f v) + (l.map w).sum := by
    rw [update, tally_map, tally, (hperm.map fun v => w (if key v = k then f v else v)).sum_eq,
      List.map_cons, List.sum_cons, if_pos (key_eq h)]
    exact congrArg (fun n => w (f v) + n)
      (congrArg List.sum (List.map_congr_left fun u hu => by rw [if_neg (hne u hu)]))
  omega

/-! ## Reading a total -/

/-- A positive total has a record that weighs something. -/
theorem exists_of_tally_pos {w : α → ℕ} {t : Table key} (h : 0 < t.tally w) :
    ∃ k v, t.lookup k = some v ∧ 0 < w v := by
  by_contra hno
  push Not at hno
  have hz : t.tally w = t.tally fun _ => 0 :=
    tally_congr fun k v hk => Nat.le_zero.mp (hno k v hk)
  rw [hz] at h
  simp [tally] at h

/-- Weighing by a yes-no question counts the records it holds of. -/
theorem tally_eq_countP (P : α → Bool) (t : Table key) :
    t.tally (fun v => if P v then 1 else 0) = t.values.countP P := by
  rw [tally]
  induction t.values with
  | nil => rfl
  | cons v l ih =>
    rw [List.map_cons, List.sum_cons, ih, List.countP_cons]
    omega

/-- No record weighs anything when none does. -/
theorem tally_eq_zero {w : α → ℕ} {t : Table key} (h : ∀ k v, t.lookup k = some v → w v = 0) :
    t.tally w = 0 := by
  rw [tally_congr h]
  simp [tally]

end Table

end AgentProcs
