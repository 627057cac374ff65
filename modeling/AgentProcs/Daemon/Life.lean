import AgentProcs.Protocol.Messages

/-!
# Daemon/Life — one managed process and the incarnation it holds

    Running i ──exit seen──▸ Exited (Natural, some i) ──start_teardown──▸ Stopping ──▸ Exited none
        └────────────────────start_teardown────────────────────▸──┘

An incarnation is one spawn of a managed command.  It lives in a `Life` until a teardown task takes
it; `Life.inc` reads off which one a life holds.
-/

namespace AgentProcs

/-- One spawn of a managed command.  `serial` is its place in the spawn order; the code has the
`pgid` only, which the kernel may reuse once the leader has been reaped. -/
structure Incarnation where
  serial : ℕ
  pgid : ℕ
  deriving DecidableEq, Repr

inductive ExitWhy where
  | natural
  | manual
  | exhausted
  | spawnFailed
  deriving DecidableEq, Repr

inductive RespawnReason where
  | manual
  | auto
  | watch
  deriving DecidableEq, Repr

inductive AfterStop where
  | park
  | respawn (reason : RespawnReason)
  deriving DecidableEq, Repr

/-- A reply channel, named by the request it belongs to. -/
abbrev Reply := ℕ

/-- A client waiting on an in-flight stop. -/
inductive Waiter where
  | stop (reply : Reply)
  | restart (reply : Reply)
  deriving DecidableEq, Repr

/-- The channel a waiter is answered on. -/
def Waiter.reply : Waiter → Reply
  | .stop r => r
  | .restart r => r

inductive Life where
  | running (inc : Incarnation)
  /-- `inc` is present while the leader is an unreaped zombie. -/
  | exited (code : Option ℤ) (why : ExitWhy) (inc : Option Incarnation) (restartTimer : Bool)
  /-- A teardown task owns the incarnation.  `leaderExit` is present when the leader had already
  exited before the stop began; `andThen` is what follows the teardown. -/
  | stopping (leaderExit : Option (Option ℤ)) (andThen : AfterStop) (waiters : List Waiter)
  deriving DecidableEq, Repr

namespace Life

/-- The incarnation a life holds. -/
def inc : Life → Option Incarnation
  | running i => some i
  | exited _ _ i _ => i
  | stopping .. => none

def isStopping : Life → Bool
  | stopping .. => true
  | _ => false

/-- The clients parked on a life. -/
def waiters : Life → List Waiter
  | stopping _ _ ws => ws
  | _ => []

def holdsPort : Life → Bool
  | running _ => true
  | stopping .. => true
  | exited .. => false

def leaderAlive : Life → Bool
  | running _ => true
  | stopping none _ _ => true
  | _ => false

@[simp] theorem inc_running (i : Incarnation) : (running i).inc = some i := rfl

@[simp] theorem inc_exited (c : Option ℤ) (w : ExitWhy) (i : Option Incarnation) (t : Bool) :
    (exited c w i t).inc = i := rfl

@[simp] theorem inc_stopping (l : Option (Option ℤ)) (a : AfterStop) (ws : List Waiter) :
    (stopping l a ws).inc = none := rfl

@[simp] theorem isStopping_running (i : Incarnation) : (running i).isStopping = false := rfl

@[simp] theorem isStopping_exited (c : Option ℤ) (w : ExitWhy) (i : Option Incarnation)
    (t : Bool) : (exited c w i t).isStopping = false := rfl

@[simp] theorem isStopping_stopping (l : Option (Option ℤ)) (a : AfterStop) (ws : List Waiter) :
    (stopping l a ws).isStopping = true := rfl

@[simp] theorem waiters_running (i : Incarnation) : (running i).waiters = [] := rfl

@[simp] theorem waiters_exited (c : Option ℤ) (w : ExitWhy) (i : Option Incarnation) (t : Bool) :
    (exited c w i t).waiters = [] := rfl

@[simp] theorem waiters_stopping (l : Option (Option ℤ)) (a : AfterStop) (ws : List Waiter) :
    (stopping l a ws).waiters = ws := rfl

/-- A life that is not stopping has no client parked on it. -/
theorem waiters_of_not_stopping {l : Life} (h : l.isStopping = false) : l.waiters = [] := by
  cases l with
  | running => rfl
  | exited => rfl
  | stopping => exact absurd h (by simp)

/-- A stopping life holds no incarnation. -/
theorem inc_of_stopping {l : Life} (h : l.isStopping = true) : l.inc = none := by
  cases l with
  | running => exact absurd h (by simp)
  | exited => exact absurd h (by simp)
  | stopping => rfl

end Life

/-- A live file watcher.  Its events are stamped with the name and generation it was set up for. -/
structure WatchHandle where
  name : String
  generation : ℕ
  deriving DecidableEq, Repr

structure ManagedProcess where
  name : String
  id : String
  command : String
  cwd : Option String
  env : List (String × String)
  pid : ℕ
  startedAt : ℕ
  port : Option ℕ
  restartPolicy : Option RestartPolicy
  watchConfig : Option WatchConfig
  restartCount : ℕ
  /-- Daemon-wide spawn generation: stale timers, watch events and teardown results carry the
  generation they were issued for. -/
  generation : ℕ
  life : Life
  watchHandle : Option WatchHandle
  deriving DecidableEq, Repr

end AgentProcs
