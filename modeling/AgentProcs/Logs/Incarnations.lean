import AgentProcs.Logs.Writing
import AgentProcs.Machinery.Runs

/-!
# Logs/Incarnations — two captures at work on the logs of one process

    stdout   ──write_line──▸ ┐  one counter, one disk          respawn
                             ├─ ⋯                      ⋯ finish ──▸ rotate both, open both, count from 0
    stderr   ──write_line──▸ ┘

A call of `write_line` touches what the captures share twice when it rotates: to read the counter for
the new index, and to draw the line's number.  The other capture may work between the two.  A respawn
waits for both captures, keeps their logs as rotated segments, and starts a new counter.
-/

namespace AgentProcs

/-- Rotate a log when one more line would exceed 50 MB. -/
def DEFAULT_MAX_LOG_BYTES : ℕ := 50 * 1024 * 1024

/-- A line, and which incarnation printed it. -/
structure Printed where
  incarnation : ℕ
  entry : Entry
  deriving DecidableEq, Repr

structure ProcessLogs where
  shared : Shared
  state : Stream → LogWriteState
  /-- The line a call has rotated for and not written yet. -/
  pending : Stream → Option String
  /-- The capture has flushed its index and returned. -/
  ended : Stream → Bool
  /-- How often the process has been respawned. -/
  incarnation : ℕ
  /-- All lines written so far. -/
  written : Stream → List Printed

namespace ProcessLogs

/-- The lines of the incarnation at work. -/
def lines (s : Stream) (p : ProcessLogs) : List Entry :=
  ((p.written s).filter (·.incarnation = p.incarnation)).map (·.entry)

/-- Both logs opened, as `spawn_incarnation` does before the child starts. -/
def opened (name : String) (disk : Disk) (sent : List OutputLine) (incarnation : ℕ)
    (written : Stream → List Printed) : ProcessLogs :=
  let stdout := LogSink.openAt (logPathOf name .stdout) 0 disk
  let stderr := LogSink.openAt (logPathOf name .stderr) 0 stdout.2
  { shared := ⟨stderr.2, 0, sent⟩
    state := fun
      | .stdout => .start stdout.1
      | .stderr => .start stderr.1
    pending _ := none
    ended _ := false
    incarnation
    written }

variable (ctx : LogContext) (s : Stream)

/-- The second half of a call. -/
def emit (line : String) (p : ProcessLogs) : ProcessLogs :=
  let (st, shared) := (p.state s).emit ctx line p.shared
  { p with
    state := Function.update p.state s st, shared
    written := Function.update p.written s
      (p.written s ++ [⟨p.incarnation, line, p.shared.seq⟩]) }

/-- Index the last lines and return. -/
def finish (p : ProcessLogs) : ProcessLogs :=
  let (st, shared) := (p.state s).flushIdx p.shared
  { p with
    state := Function.update p.state s st, shared
    ended := Function.update p.ended s true }

/-- Rotate both logs and open new ones. -/
def respawn (name : String) (p : ProcessLogs) : ProcessLogs :=
  opened name (rotateIfExists (logPathOf name .stderr)
    (rotateIfExists (logPathOf name .stdout) p.shared.disk)) p.shared.sent (p.incarnation + 1)
    p.written

section Fields

variable {ctx : LogContext} {s t : Stream} {line : String} {p : ProcessLogs}

@[simp] theorem emit_shared :
    (p.emit ctx s line).shared = ((p.state s).emit ctx line p.shared).2 := rfl

@[simp] theorem emit_incarnation : (p.emit ctx s line).incarnation = p.incarnation := rfl

@[simp] theorem emit_pending : (p.emit ctx s line).pending = p.pending := rfl

@[simp] theorem emit_ended : (p.emit ctx s line).ended = p.ended := rfl

theorem emit_written : (p.emit ctx s line).written = Function.update p.written s
    (p.written s ++ [⟨p.incarnation, line, p.shared.seq⟩]) := rfl

@[simp] theorem emit_written_self : (p.emit ctx s line).written s =
    p.written s ++ [⟨p.incarnation, line, p.shared.seq⟩] := Function.update_self ..

@[simp] theorem emit_written_of_ne (h : t ≠ s) : (p.emit ctx s line).written t = p.written t :=
  Function.update_of_ne h ..

@[simp] theorem emit_state_self :
    (p.emit ctx s line).state s = ((p.state s).emit ctx line p.shared).1 := Function.update_self ..

@[simp] theorem emit_state_of_ne (h : t ≠ s) : (p.emit ctx s line).state t = p.state t :=
  Function.update_of_ne h ..

@[simp] theorem lines_emit_self :
    (p.emit ctx s line).lines s = p.lines s ++ [⟨line, p.shared.seq⟩] := by
  rw [lines, emit_written_self, List.filter_append, List.map_append]
  simp only [emit_incarnation, decide_true, List.filter_cons_of_pos, List.filter_nil]
  rfl

@[simp] theorem finish_shared : (p.finish s).shared = ((p.state s).flushIdx p.shared).2 := rfl

@[simp] theorem finish_state_self :
    (p.finish s).state s = ((p.state s).flushIdx p.shared).1 := Function.update_self ..

@[simp] theorem finish_state_of_ne (h : t ≠ s) : (p.finish s).state t = p.state t :=
  Function.update_of_ne h ..

@[simp] theorem finish_ended_of_ne (h : t ≠ s) : (p.finish s).ended t = p.ended t :=
  Function.update_of_ne h ..

end Fields

end ProcessLogs

inductive LogsEvent where
  | write (s : Stream) (line : String)
  | rotate (s : Stream) (line : String)
  | resume (s : Stream)
  | finish (s : Stream)
  | respawn
  deriving DecidableEq, Repr

/-- One step of one capture, or a respawn. -/
inductive LogsStep (name : String) (maxBytes maxRotatedFiles : ℕ) :
    ProcessLogs → LogsEvent → ProcessLogs → Prop
  | write {p : ProcessLogs} {s : Stream} {line : String} (hidle : p.pending s = none)
      (hopen : p.ended s = false)
      (hfits : ¬(p.state s).Overflows (.of name s maxBytes maxRotatedFiles) line) :
      LogsStep name maxBytes maxRotatedFiles p (.write s line)
        (p.emit (.of name s maxBytes maxRotatedFiles) s line)
  | rotate {p : ProcessLogs} {s : Stream} {line : String} {st : LogWriteState} {shared : Shared}
      (hidle : p.pending s = none) (hopen : p.ended s = false)
      (hfull : (p.state s).Overflows (.of name s maxBytes maxRotatedFiles) line)
      (hreopen : (p.state s).reopen (.of name s maxBytes maxRotatedFiles) .ok p.shared =
        (true, st, shared)) :
      LogsStep name maxBytes maxRotatedFiles p (.rotate s line)
        { p with
          state := Function.update p.state s st, shared
          pending := Function.update p.pending s (some line) }
  | resume {p : ProcessLogs} {s : Stream} {line : String} (hline : p.pending s = some line) :
      LogsStep name maxBytes maxRotatedFiles p (.resume s)
        (({ p with pending := Function.update p.pending s none } : ProcessLogs).emit
          (.of name s maxBytes maxRotatedFiles) s line)
  | finish {p : ProcessLogs} {s : Stream} (hidle : p.pending s = none) (hopen : p.ended s = false) :
      LogsStep name maxBytes maxRotatedFiles p (.finish s) (p.finish s)
  | respawn {p : ProcessLogs} (hended : ∀ s, p.ended s = true) :
      LogsStep name maxBytes maxRotatedFiles p .respawn (p.respawn name)

/-- **The captures of a process**, spawned into a directory of this kind. -/
def processLogs (name : String) (maxBytes maxRotatedFiles : ℕ) (directory : Disk → Prop) :
    Machine ProcessLogs LogsEvent where
  init p := ∃ disk, directory disk ∧ p = .opened name disk [] 0 fun _ => []
  step := LogsStep name maxBytes maxRotatedFiles

end AgentProcs
