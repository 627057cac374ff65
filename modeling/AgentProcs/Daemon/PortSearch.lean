import AgentProcs.Daemon.PortAllocator
import AgentProcs.Machinery.Cyclic
import AgentProcs.Machinery.Runs
import Mathlib.Algebra.Order.Ring.Nat

/-!
# Daemon/PortSearch — the search for a port, on `u16`

    next        next + 1   ⋯   4999   4000   ⋯   next - 1
    assigned?   assigned?      assigned?
    bind-test   bind-test      bind-test  ──▸  Ok, and the next search starts behind it

The loop computes on `u16`, where a subtraction may underflow and an addition overflow; `none` is the
panic this is.  In every state the allocator comes to neither happens, and the loop is the search the
process table is modelled with.
-/

namespace AgentProcs

/-- `a - b` on `u16`. -/
def sub16 (a b : ℕ) : Option ℕ := if b ≤ a then some (a - b) else none

/-- `a + b` on `u16`. -/
def add16 (a b : ℕ) : Option ℕ := if a + b < 2 ^ 16 then some (a + b) else none

def rangeSize : ℕ := autoPortMax - autoPortMin + 1

namespace PortAllocator

/-- The candidate of turn `i`; the cast to `u16` drops high bits. -/
def candidate16 (i : ℕ) (a : PortAllocator) : Option ℕ := do
  let offset ← sub16 a.nextAutoPort autoPortMin
  add16 autoPortMin ((offset + i) % rangeSize % 2 ^ 16)

/-- The turns of the loop. -/
def tryPorts (bind : ℕ → Bool) (assigned : List ℕ) (a : PortAllocator) :
    List ℕ → Option (Option ℕ)
  | [] => some none
  | i :: is => do
    let candidate ← a.candidate16 i
    if assigned.contains candidate then tryPorts bind assigned a is
    else if bind candidate then some (some candidate)
    else tryPorts bind assigned a is

/-- `auto_assign_port`, with the state it leaves. -/
def autoAssignPort16 (bind : ℕ → Bool) (assigned : List ℕ) (a : PortAllocator) :
    Option (Except String ℕ × PortAllocator) := do
  match ← a.tryPorts bind assigned (List.range rangeSize) with
  | some candidate =>
    let next ← if candidate ≥ autoPortMax then some autoPortMin else add16 candidate 1
    return (.ok candidate, { a with nextAutoPort := next })
  | none => return (.error (noFreeAutoPort a.nextAutoPort), a)

end PortAllocator

/-- A call, with what the operating system answers its bind tests. -/
inductive AllocatorCall where
  | enableProxy
  | autoAssignPort (bind : ℕ → Bool) (assigned : List ℕ)

/-- An allocator and its callers. -/
def allocator : Machine PortAllocator AllocatorCall where
  init a := a = .new
  step a
    | .enableProxy, a' => a' = a.enableProxy
    | .autoAssignPort bind assigned, a' =>
      ∃ result, a.autoAssignPort16 bind assigned = some (result, a')

namespace PortAllocator

/-- The cursor is a port of the range. -/
def InRange (a : PortAllocator) : Prop :=
  autoPortMin ≤ a.nextAutoPort ∧ a.nextAutoPort ≤ autoPortMax

/-- A port that is not assigned and that can be bound. -/
def isFree (bind : ℕ → Bool) (assigned : List ℕ) (port : ℕ) : Bool :=
  !assigned.contains port && bind port

variable {a a' : PortAllocator} {bind : ℕ → Bool} {assigned : List ℕ} {p : ℕ}

theorem rangeSize_eq : autoPortMax - autoPortMin + 1 = rangeSize := by rw [rangeSize]

theorem candidate_eq (a : PortAllocator) :
    a.candidate = cyclic autoPortMin rangeSize a.nextAutoPort := by
  funext i
  rw [candidate, cyclic, rangeSize_eq]

/-! ## No overflow -/

theorem candidate16_eq (h : a.InRange) (i : ℕ) : a.candidate16 i = some (a.candidate i) := by
  have hmod : (a.nextAutoPort - autoPortMin + i) % rangeSize < rangeSize :=
    Nat.mod_lt _ (Nat.succ_pos _)
  have hbound : autoPortMin + rangeSize < 2 ^ 16 := by decide
  have hsmall : (a.nextAutoPort - autoPortMin + i) % rangeSize % 2 ^ 16 =
      (a.nextAutoPort - autoPortMin + i) % rangeSize := Nat.mod_eq_of_lt (by omega)
  have hfits : autoPortMin + (a.nextAutoPort - autoPortMin + i) % rangeSize < 2 ^ 16 := by omega
  simp only [candidate16, sub16, if_pos h.1, Option.bind_eq_bind, Option.bind_some, hsmall, add16,
    if_pos hfits, candidate_eq, cyclic]

theorem tryPorts_eq (h : a.InRange) : ∀ is : List ℕ,
    a.tryPorts bind assigned is = some ((is.map a.candidate).find? (isFree bind assigned))
  | [] => rfl
  | i :: is => by
    rw [tryPorts, candidate16_eq h, tryPorts_eq h is, List.map_cons, List.find?_cons]
    simp only [Option.bind_eq_bind, Option.bind_some]
    by_cases hassigned : assigned.contains (a.candidate i) = true
    · rw [if_pos hassigned, isFree, hassigned]
      rfl
    · rw [if_neg hassigned, isFree, Bool.eq_false_iff.mpr hassigned]
      cases bind (a.candidate i) <;> rfl

/-- The search of the model, with the notions of this module. -/
theorem autoAssignPort_eq : a.autoAssignPort bind assigned =
    match ((List.range rangeSize).map a.candidate).find? (isFree bind assigned) with
    | some c => .ok (c, { a with nextAutoPort := if c ≥ autoPortMax then autoPortMin else c + 1 })
    | none => .error (noFreeAutoPort a.nextAutoPort) := by
  have hfree : (fun c => !assigned.contains c && bind c) = isFree bind assigned := rfl
  unfold autoAssignPort
  rewrite [rangeSize_eq, hfree]
  cases ((List.range rangeSize).map a.candidate).find? (isFree bind assigned) <;> rfl

/-- **The loop on `u16`** is the search of the model, which leaves the state alone when it fails. -/
theorem autoAssignPort16_eq (h : a.InRange) : a.autoAssignPort16 bind assigned =
    some (match a.autoAssignPort bind assigned with
      | .ok (port, next) => (.ok port, next)
      | .error e => (.error e, a)) := by
  rw [autoAssignPort16, tryPorts_eq h, autoAssignPort_eq]
  cases ((List.range rangeSize).map a.candidate).find? (isFree bind assigned) with
  | none => rfl
  | some c =>
    by_cases hc : c ≥ autoPortMax
    · simp [hc]
    · have hfits : c + 1 < 2 ^ 16 := by
        rw [autoPortMax] at hc
        omega
      have hnext : add16 c 1 = some (c + 1) := if_pos hfits
      simp [hc, hnext]

/-! ## Every call -/

theorem inRange_new : new.InRange := ⟨Nat.le_refl autoPortMin, by decide⟩

/-- The range is not empty, and ends with its last port. -/
theorem lt_range_iff : p < autoPortMin + rangeSize ↔ p ≤ autoPortMax := by
  simp only [rangeSize, autoPortMin, autoPortMax]
  omega

/-- A search that succeeds found the first free port, and the next one starts in the range. -/
theorem autoAssignPort_ok_iff (h : a.InRange) :
    (∃ a', a.autoAssignPort bind assigned = .ok (p, a')) ↔
      FirstFree autoPortMin rangeSize a.nextAutoPort (isFree bind assigned) p := by
  have hend : a.nextAutoPort < autoPortMin + rangeSize := lt_range_iff.mpr h.2
  rw [← find?_cyclic_eq_some h.1 hend, ← candidate_eq, autoAssignPort_eq]
  cases ((List.range rangeSize).map a.candidate).find? (isFree bind assigned) <;> simp

theorem inRange_autoAssignPort (h : a.InRange)
    (hok : a.autoAssignPort bind assigned = .ok (p, a')) : a'.InRange := by
  have hp := ((autoAssignPort_ok_iff h).mp ⟨a', hok⟩).mem
  rw [autoAssignPort_eq] at hok
  split at hok
  · rename_i c _
    obtain ⟨rfl, rfl⟩ := Prod.mk.inj (Except.ok.inj hok)
    refine ⟨?_, ?_⟩ <;> dsimp only <;> split
    · exact Nat.le_refl autoPortMin
    · exact Nat.le_succ_of_le hp.1
    · exact inRange_new.2
    · exact Nat.lt_of_not_le ‹_›
  · exact absurd hok (by simp)

/-- **The cursor never leaves the range.** -/
theorem inRange_of_reachable (h : allocator.Reachable a) : a.InRange := by
  refine h.invariant (P := InRange) ?_ ?_
  · rintro a rfl
    exact inRange_new
  · intro a call a' _ ih hstep
    cases call with
    | enableProxy =>
      obtain rfl : a' = a.enableProxy := hstep
      exact ih
    | autoAssignPort bind assigned =>
      obtain ⟨result, hcall⟩ := hstep
      rw [autoAssignPort16_eq ih] at hcall
      split at hcall
      · rename_i port next hok
        obtain ⟨-, rfl⟩ := Prod.mk.inj (Option.some.inj hcall)
        exact inRange_autoAssignPort ih hok
      · obtain ⟨-, rfl⟩ := Prod.mk.inj (Option.some.inj hcall)
        exact ih

/-- What a call comes to: no operation of it overflows, it finds the first free port of the range if
there is one at all, and otherwise changes nothing. -/
structure Searches (bind : ℕ → Bool) (assigned : List ℕ) (a : PortAllocator)
    (result : Except String ℕ) (a' : PortAllocator) : Prop where
  returns : a.autoAssignPort16 bind assigned = some (result, a')
  complete : (∃ p, result = .ok p) ↔
    ∃ p, autoPortMin ≤ p ∧ p ≤ autoPortMax ∧ p ∉ assigned ∧ bind p = true
  first : ∀ p, result = .ok p ↔
    FirstFree autoPortMin rangeSize a.nextAutoPort (isFree bind assigned) p
  unchanged : ∀ e, result = .error e → a' = a
  inRange : a.InRange ∧ a'.InRange

/-- **The port search is sound and complete**, in every state of an allocator. -/
theorem searches_of_reachable (h : allocator.Reachable a) (bind : ℕ → Bool) (assigned : List ℕ) :
    ∃ result a', Searches bind assigned a result a' := by
  have hin := inRange_of_reachable h
  have hcall : a.autoAssignPort16 bind assigned = _ := autoAssignPort16_eq hin
  have hok (p : ℕ) : (∃ a', a.autoAssignPort bind assigned = .ok (p, a')) ↔
      FirstFree autoPortMin rangeSize a.nextAutoPort (isFree bind assigned) p :=
    autoAssignPort_ok_iff hin
  cases hsearch : a.autoAssignPort bind assigned with
  | ok found =>
    obtain ⟨p, a'⟩ := found
    rw [hsearch] at hcall
    have hfirst := (hok p).mp ⟨a', hsearch⟩
    refine ⟨_, _, hcall, ⟨fun _ => ⟨p, hfirst.mem.1, lt_range_iff.mp hfirst.mem.2, ?_⟩,
      fun _ => ⟨p, rfl⟩⟩, fun q => ?_, fun e he => absurd he (by simp), hin,
      inRange_autoAssignPort hin hsearch⟩
    · simpa [isFree] using hfirst.hit
    · rw [← hok q, hsearch]
      exact ⟨fun he => ⟨a', by rw [Except.ok.inj he]⟩,
        fun ⟨_, he⟩ => by rw [(Prod.mk.inj (Except.ok.inj he)).1]⟩
  | error e =>
    rw [hsearch] at hcall
    have hnone (q : ℕ) : ¬FirstFree autoPortMin rangeSize a.nextAutoPort (isFree bind assigned) q := by
      rw [← hok q, hsearch]
      simp
    refine ⟨_, _, hcall, ⟨fun ⟨_, he⟩ => absurd he (by simp), ?_⟩,
      fun q => ⟨fun he => absurd he (by simp), fun hq => absurd hq (hnone q)⟩, fun _ _ => rfl,
      hin, hin⟩
    rintro ⟨q, hq, hq', hfree⟩
    have hend : a.nextAutoPort < autoPortMin + rangeSize := lt_range_iff.mpr hin.2
    have hempty : ((List.range rangeSize).map (cyclic autoPortMin rangeSize a.nextAutoPort)).find?
        (isFree bind assigned) = none := by
      refine Option.eq_none_iff_forall_ne_some.mpr fun r hr => hnone r ?_
      exact (find?_cyclic_eq_some hin.1 hend).mp hr
    have hbusy := (find?_cyclic_eq_none hend).mp hempty q hq (lt_range_iff.mpr hq')
    exact absurd hbusy (by simpa [isFree] using hfree)

/-- A search from the top of the range: 4999 is busy, 4000 assigned, so it goes around to 4001. -/
theorem searches_of_reachable_top :
    ∃ result a', Searches (· != 4999) [4000] ⟨false, 4999⟩ result a' := by
  refine searches_of_reachable ?_ _ _
  have hcall : new.autoAssignPort16 (· == 4998) [] = some (.ok 4998, ⟨false, 4999⟩) := by
    rw [autoAssignPort16_eq inRange_new]
    decide +kernel
  exact (Machine.Reachable.init rfl).step (M := allocator)
    (e := .autoAssignPort (· == 4998) []) ⟨_, hcall⟩

end PortAllocator

end AgentProcs
