import Mathlib.Data.List.Basic
import Mathlib.Tactic.Common

/-!
# Machinery/Broadcast — a bounded broadcast channel, as one of its receivers sees it

    unread     x x x m y y          oldest first
    turn       more than `capacity` unread ──▸ the oldest are gone, and the turn only says so
               otherwise            ──▸ the oldest is received

Senders do not wait, so a receiver that falls behind loses messages.  Whether it gets to one of them
is a matter of numbers: how many are unread ahead of it, and how many have been sent behind it when
the receiver's turns come.
-/

namespace AgentProcs

/-- What happens on a channel, to one of its receivers. -/
inductive ChannelEvent (α : Type*) where
  | sent (m : α)
  | turn
  deriving DecidableEq, Repr

/-- What a receiver gets. -/
inductive Received (α : Type*) where
  | message (m : α)
  | lagged
  deriving DecidableEq, Repr

namespace Broadcast

variable {α : Type*} (capacity : ℕ)

/-- One turn: what is received, if anything is there, and what is unread after it. -/
def recv (unread : List α) : Option (Received α) × List α :=
  if capacity < unread.length then (some .lagged, unread.drop (unread.length - capacity))
  else match unread with
    | [] => (none, [])
    | m :: unread => (some (.message m), unread)

/-- What all turns together come to. -/
def received : List α → List (ChannelEvent α) → List (Received α)
  | _, [] => []
  | unread, .sent m :: ts => received (unread ++ [m]) ts
  | unread, .turn :: ts => (recv capacity unread).1.toList ++ received (recv capacity unread).2 ts

/-- How many messages are unread in the end. -/
def backlog : ℕ → List (ChannelEvent α) → ℕ
  | n, [] => n
  | n, .sent _ :: ts => backlog (n + 1) ts
  | n, .turn :: ts => backlog (if capacity < n then capacity else n - 1) ts

/-- **A message is reached**, with so many unread ahead of it and so many sent behind it: a turn comes
to it, and at no turn before have as many been sent behind it as the channel holds. -/
def Reached : ℕ → ℕ → List (ChannelEvent α) → Prop
  | _, _, [] => False
  | ahead, behind, .sent _ :: ts => Reached ahead (behind + 1) ts
  | ahead, behind, .turn :: ts => behind < capacity ∧
      if capacity < ahead + 1 + behind then Reached (capacity - 1 - behind) behind ts
      else ahead = 0 ∨ Reached (ahead - 1) behind ts

/-- The receiver never has more unread than the channel holds, and nothing in the end. -/
def CatchesUp : ℕ → List (ChannelEvent α) → Prop
  | n, [] => n = 0
  | n, .sent _ :: ts => CatchesUp (n + 1) ts
  | n, .turn :: ts => n ≤ capacity ∧ CatchesUp (n - 1) ts

variable {capacity} {unread : List α} {m : α} {ts : List (ChannelEvent α)}

/-! ## One turn -/

theorem recv_of_lagging (h : capacity < unread.length) :
    recv capacity unread = (some .lagged, unread.drop (unread.length - capacity)) := if_pos h

theorem recv_cons (h : unread.length < capacity) :
    recv capacity (m :: unread) = (some (.message m), unread) :=
  if_neg (Nat.not_lt.mpr h)

/-- **A receiver that keeps up** gets the oldest message. -/
theorem eq_cons_of_recv {r : Received α} {left : List α} (hle : unread.length ≤ capacity)
    (h : recv capacity unread = (some r, left)) : ∃ m, unread = m :: left ∧ r = .message m := by
  cases unread with
  | nil =>
    rw [recv, if_neg (Nat.not_lt.mpr hle)] at h
    cases h
  | cons m unread =>
    rw [recv_cons (Nat.lt_of_succ_le hle)] at h
    obtain ⟨hr, rfl⟩ := Prod.mk.inj h
    exact ⟨m, rfl, (Option.some.inj hr).symm⟩

theorem length_recv (unread : List α) : (recv capacity unread).2.length =
    if capacity < unread.length then capacity else unread.length - 1 := by
  by_cases h : capacity < unread.length
  · rw [recv_of_lagging h, if_pos h, List.length_drop]
    omega
  · rw [if_neg h]
    cases unread with
    | nil => rw [recv, if_neg h]; rfl
    | cons x unread =>
      rw [recv_cons (Nat.not_lt.mp h), List.length_cons]
      rfl

/-- A turn that loses messages leaves the newest. -/
theorem exists_drop_iff {P : ℕ → ℕ → Prop} (h : capacity < unread.length) :
    (∃ us vs, unread.drop (unread.length - capacity) = us ++ m :: vs ∧ P us.length vs.length) ↔
      ∃ us vs, unread = us ++ m :: vs ∧ vs.length < capacity ∧
        P (capacity - 1 - vs.length) vs.length := by
  constructor
  · rintro ⟨us, vs, hdrop, hp⟩
    have hlength := congrArg List.length hdrop
    rw [List.length_drop, List.length_append, List.length_cons] at hlength
    refine ⟨unread.take (unread.length - capacity) ++ us, vs, ?_, by omega, ?_⟩
    · rw [List.append_assoc, ← hdrop, List.take_append_drop]
    · rwa [show capacity - 1 - vs.length = us.length by omega]
  · rintro ⟨us, vs, rfl, hvs, hp⟩
    rw [List.length_append, List.length_cons] at h ⊢
    refine ⟨us.drop (us.length + (vs.length + 1) - capacity), vs, ?_, ?_⟩
    · rw [List.drop_append_of_le_length (by omega)]
    · rwa [List.length_drop, show us.length - (us.length + (vs.length + 1) - capacity) =
        capacity - 1 - vs.length by omega]

/-- **What is reached at a turn or later** is what the turn receives, or what is reached after it. -/
theorem reached_turn_iff (unread : List α) (m : α) (ts : List (ChannelEvent α)) :
    (∃ us vs, unread = us ++ m :: vs ∧ Reached capacity us.length vs.length (.turn :: ts)) ↔
      (recv capacity unread).1 = some (.message m) ∨
        ∃ us vs, (recv capacity unread).2 = us ++ m :: vs ∧
          Reached capacity us.length vs.length ts := by
  by_cases h : capacity < unread.length
  · rw [recv_of_lagging h]
    simp only [Option.some.injEq, reduceCtorEq, false_or]
    rw [exists_drop_iff (P := fun ahead behind => Reached capacity ahead behind ts) h]
    refine exists_congr fun us => exists_congr fun vs => and_congr_right fun hsplit => ?_
    have hlength : capacity < us.length + 1 + vs.length := by
      rw [hsplit, List.length_append, List.length_cons] at h
      omega
    rw [Reached, if_pos hlength]
  · cases unread with
    | nil => simp [recv]
    | cons x rest =>
      rw [List.length_cons] at h
      rw [recv_cons (by omega)]
      dsimp only
      constructor
      · rintro ⟨us, vs, hsplit, -, hreached⟩
        have hlength := congrArg List.length hsplit
        rw [List.length_append, List.length_cons, List.length_cons] at hlength
        rw [if_neg (by omega)] at hreached
        cases us with
        | nil => exact .inl (by rw [(List.cons.inj hsplit).1])
        | cons u us =>
          exact .inr ⟨us, vs, (List.cons.inj hsplit).2, hreached.resolve_left (Nat.succ_ne_zero _)⟩
      · rintro (hm | ⟨us, vs, hsplit, hreached⟩)
        · obtain rfl := Received.message.inj (Option.some.inj hm)
          exact ⟨[], rest, rfl, by omega, by rw [if_neg (by simp; omega)]; exact .inl rfl⟩
        · have hlength := congrArg List.length hsplit
          rw [List.length_append, List.length_cons] at hlength
          refine ⟨x :: us, vs, by rw [hsplit]; rfl, by omega, ?_⟩
          rw [if_neg (by rw [List.length_cons]; omega)]
          exact .inr hreached

/-! ## All turns -/

/-- **A message is received** if it is reached from where it is unread, or from where it is sent. -/
theorem mem_received_iff (m : α) (ts : List (ChannelEvent α)) (unread : List α) :
    .message m ∈ received capacity unread ts ↔
      (∃ us vs, unread = us ++ m :: vs ∧ Reached capacity us.length vs.length ts) ∨
        ∃ before after, ts = before ++ .sent m :: after ∧
          Reached capacity (backlog capacity unread.length before) 0 after := by
  induction ts generalizing unread with
  | nil => simp [received, Reached]
  | cons t ts ih =>
    have hsplit (P : List (ChannelEvent α) → List (ChannelEvent α) → Prop) :
        (∃ before after, t :: ts = before ++ .sent m :: after ∧ P before after) ↔
          (t = .sent m ∧ P [] ts) ∨
            ∃ before after, ts = before ++ .sent m :: after ∧ P (t :: before) after := by
      constructor
      · rintro ⟨before, after, heq, hp⟩
        cases before with
        | nil => exact .inl ⟨(List.cons.inj heq).1, (List.cons.inj heq).2 ▸ hp⟩
        | cons b before =>
          obtain ⟨rfl, hts⟩ := List.cons.inj heq
          exact .inr ⟨before, after, hts, hp⟩
      · rintro (⟨rfl, hp⟩ | ⟨before, after, rfl, hp⟩)
        · exact ⟨[], ts, rfl, hp⟩
        · exact ⟨t :: before, after, rfl, hp⟩
    rw [hsplit]
    cases t with
    | sent x =>
      rw [received, ih, List.length_append, List.length_singleton, ← or_assoc]
      refine or_congr ?_ Iff.rfl
      constructor
      · rintro ⟨us, vs, heq, hreached⟩
        rcases List.eq_nil_or_concat vs with rfl | ⟨vs, y, rfl⟩
        · obtain ⟨rfl, hx⟩ := List.append_inj' heq rfl
          exact .inr ⟨by rw [(List.cons.inj hx).1], hreached⟩
        · rw [List.concat_eq_append, ← List.cons_append, ← List.append_assoc] at heq
          rw [List.concat_eq_append] at hreached
          obtain ⟨rfl, -⟩ := List.append_inj' heq rfl
          rw [List.length_append, List.length_singleton] at hreached
          exact .inl ⟨us, vs, rfl, hreached⟩
      · rintro (⟨us, vs, rfl, hreached⟩ | ⟨hx, hreached⟩)
        · refine ⟨us, vs ++ [x], by simp, ?_⟩
          rwa [List.length_append, List.length_singleton]
        · obtain rfl := ChannelEvent.sent.inj hx
          exact ⟨unread, [], rfl, hreached⟩
    | turn =>
      rw [received, List.mem_append, ih, reached_turn_iff, length_recv]
      simp only [Option.mem_toList, reduceCtorEq, false_and, false_or, or_assoc]
      rfl

/-! ## Catching up, and falling behind -/

theorem CatchesUp.after {n : ℕ} {before after : List (ChannelEvent α)}
    (h : CatchesUp capacity n (before ++ after)) : CatchesUp capacity (backlog capacity n before) after := by
  induction before generalizing n with
  | nil => exact h
  | cons t before ih =>
    cases t with
    | sent x => exact ih h
    | turn =>
      rw [backlog, if_neg (Nat.not_lt.mpr h.1)]
      exact ih h.2

/-- **Whoever catches up** reaches every message. -/
theorem CatchesUp.reached {ahead behind : ℕ} (h : CatchesUp capacity (ahead + 1 + behind) ts) :
    Reached capacity ahead behind ts := by
  induction ts generalizing ahead behind with
  | nil => exact absurd (show ahead + 1 + behind = 0 from h) (by omega)
  | cons t ts ih =>
    cases t with
    | sent x => exact ih h
    | turn =>
      obtain ⟨hle, hrest⟩ := h
      refine ⟨by omega, ?_⟩
      rw [if_neg (by omega)]
      cases ahead with
      | zero => exact .inl rfl
      | succ ahead =>
        refine .inr (ih ?_)
        rwa [show ahead + 1 + 1 + behind - 1 = ahead + 1 - 1 + 1 + behind by omega] at hrest

/-- A burst is sent behind a message. -/
theorem reached_burst (burst : List α) (ahead behind : ℕ) :
    Reached capacity ahead behind (burst.map .sent ++ ts) ↔
      Reached capacity ahead (behind + burst.length) ts := by
  induction burst generalizing behind with
  | nil => exact Iff.rfl
  | cons x burst ih =>
    rw [List.length_cons, show behind + (burst.length + 1) = behind + 1 + burst.length by omega]
    exact ih (behind + 1)

/-- **A burst as long as the channel** takes a message away before the next turn. -/
theorem not_reached_of_burst {burst : List α} (h : capacity ≤ burst.length) (ahead : ℕ) :
    ¬Reached capacity ahead 0 (burst.map .sent ++ .turn :: ts) := by
  rw [reached_burst]
  exact fun hreached => absurd hreached.1 (by omega)

end Broadcast

end AgentProcs
