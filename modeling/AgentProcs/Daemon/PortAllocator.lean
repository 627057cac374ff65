import Mathlib.Data.List.Basic

/-!
# Daemon/PortAllocator — handing out ports of a fixed range, round robin

The search starts at `nextAutoPort` and wraps; a candidate is taken when no live record holds it and
a bind test on it succeeds.  The bind test is asked of the operating system, one answer a port.
-/

namespace AgentProcs

def autoPortMin : ℕ := 4000

def autoPortMax : ℕ := 4999

structure PortAllocator where
  proxyEnabled : Bool
  nextAutoPort : ℕ
  deriving DecidableEq, Repr

namespace PortAllocator

def new : PortAllocator := ⟨false, autoPortMin⟩

def enableProxy (a : PortAllocator) : PortAllocator := { a with proxyEnabled := true }

def isProxyEnabled (a : PortAllocator) : Bool := a.proxyEnabled

/-- The `i`-th port the search tries. -/
def candidate (a : PortAllocator) (i : ℕ) : ℕ :=
  autoPortMin + ((a.nextAutoPort - autoPortMin) + i) % (autoPortMax - autoPortMin + 1)

def noFreeAutoPort (start : ℕ) : String :=
  s!"no free port available in range {autoPortMin}-{autoPortMax} (started at {start})"

/-- The first candidate neither assigned nor taken, and the allocator that continues after it. -/
def autoAssignPort (bind : ℕ → Bool) (assigned : List ℕ) (a : PortAllocator) :
    Except String (ℕ × PortAllocator) :=
  match ((List.range (autoPortMax - autoPortMin + 1)).map a.candidate).find? fun c =>
      !assigned.contains c && bind c with
  | some c => .ok (c, { a with nextAutoPort := if c ≥ autoPortMax then autoPortMin else c + 1 })
  | none => .error (noFreeAutoPort a.nextAutoPort)

end PortAllocator

end AgentProcs
