import Mathlib.Data.List.Basic

/-!
# Machinery/Notify — one permit, and a queue of waiters

    notifyOne :  [] ──▸ permit        i :: rest ──▸ rest, i woken
    leave i   :  i woken ──▸ notifyOne once more      i queued ──▸ forgotten

A notification wakes the waiter that has waited longest, or is kept as the one permit when nobody
waits.  A waiter may give up: if it was woken but has not run yet, its notification is passed on.
What is `pending` is a notification that nobody has consumed.
-/

namespace AgentProcs

structure Notify (ι : Type*) where
  permit : Bool
  /-- Who waits, longest first. -/
  waiters : List ι
  /-- Who has been woken and has not run yet. -/
  woken : List ι
  deriving DecidableEq, Repr

namespace Notify

variable {ι : Type*}

def new : Notify ι := ⟨false, [], []⟩

/-- Wake the waiter that has waited longest, or keep the permit. -/
def notifyOne (n : Notify ι) : Notify ι :=
  match n.waiters with
  | [] => { n with permit := true }
  | i :: rest => { n with waiters := rest, woken := i :: n.woken }

/-- A notification that nobody has consumed. -/
def Pending (n : Notify ι) : Prop := n.permit = true ∨ n.woken ≠ []

/-- Take the permit. -/
def take (n : Notify ι) : Notify ι := { n with permit := false }

/-- Join the queue, at its end. -/
def join (i : ι) (n : Notify ι) : Notify ι := { n with waiters := n.waiters ++ [i] }

variable [DecidableEq ι]

/-- A woken waiter runs. -/
def run (i : ι) (n : Notify ι) : Notify ι := { n with woken := n.woken.erase i }

/-- Give up waiting; a notification received meanwhile is passed on. -/
def leave (i : ι) (n : Notify ι) : Notify ι :=
  if i ∈ n.woken then notifyOne (n.run i) else { n with waiters := n.waiters.erase i }

variable {i : ι} {n : Notify ι}

omit [DecidableEq ι]

/-- **A notification is pending once it is sent.** -/
theorem pending_notifyOne (n : Notify ι) : n.notifyOne.Pending := by
  rw [notifyOne]
  split
  · exact .inl rfl
  · exact .inr (List.cons_ne_nil _ _)

theorem pending_join : (n.join i).Pending ↔ n.Pending := .rfl

variable [DecidableEq ι]

/-- **Giving up loses no notification**, and makes none. -/
theorem pending_leave : (n.leave i).Pending ↔ n.Pending := by
  rw [leave]
  split
  · rename_i hmem
    exact iff_of_true (pending_notifyOne _) (.inr (List.ne_nil_of_mem hmem))
  · exact .rfl

end Notify

end AgentProcs
