import AgentProcs.Logs.Writing
import AgentProcs.Machinery.Runs

/-!
# Logs/Capture — one pipe and one supervisor channel into one log

    pipe        ──next_line──▸ ┐
                               ├─▸ writeLine          reading ──EOF, error──▸ draining ──▸ ended
    supervisor  ──recv──────▸ ┘                          └──cancel──▸ draining ──▸ ended

`capture_output` as a machine: the child, the supervisor, the stop and the captures beside this one
take steps of their own between those of the loop.  `next_line` splits on newline, strips one
carriage return before it, and fails on a line that is no text; the loop treats that failure like the
end of the pipe.
-/

namespace AgentProcs

/-! ## Reading lines from a pipe -/

/-- A line without its end of line. -/
def chomp (raw : List UInt8) : List UInt8 :=
  match raw.reverse with
  | 10 :: 13 :: l => l.reverse
  | 10 :: l => l.reverse
  | _ => raw

/-- The text of a line; a line that is not valid UTF-8 has none. -/
def decodeLine (raw : List UInt8) : Option String := utf8? (chomp raw)

inductive NextLine where
  | line (text : String)
  | eof
  | error
  deriving DecidableEq, Repr

/-- What `next_line` makes of the bytes up to the next end of line. -/
def NextLine.ofRaw (raw : List UInt8) : NextLine :=
  if raw = [] then .eof else (decodeLine raw).elim .error .line

/-- `next_line`, once it is ready; and what stays unread. -/
def nextLine (unread : List UInt8) (closed : Bool) : Option (NextLine × List UInt8) :=
  if NEWLINE ∈ unread ∨ closed = true then
    some (.ofRaw (takeLine NEWLINE unread).1, (takeLine NEWLINE unread).2)
  else none

/-! ## The machine -/

inductive CapturePhase where
  | reading
  | draining
  | ended
  deriving DecidableEq, Repr

/-- Where a line comes from. -/
inductive Origin where
  | pipe
  | supervisor
  deriving DecidableEq, Repr

structure Capture where
  /-- All bytes the child has written to the pipe. -/
  stream : List UInt8
  unread : List UInt8
  /-- No process holds the writing end any more. -/
  closed : Bool
  /-- The supervisor's messages not received yet. -/
  supervisor : List String
  supClosed : Bool
  phase : CapturePhase
  cancelled : Bool
  state : LogWriteState
  shared : Shared
  /-- The lines `write_line` was called with. -/
  written : List (Origin × String)
  /-- How often a line did not fit. -/
  rotations : ℕ

namespace Capture

/-- `capture_output` on a freshly opened log. -/
def opened (ctx : LogContext) (disk : Disk) (seq : ℕ) : Capture where
  stream := []
  unread := []
  closed := false
  supervisor := []
  supClosed := false
  phase := .reading
  cancelled := false
  state := .start (LogSink.openAt ctx.logPath seq disk).1
  shared := ⟨(LogSink.openAt ctx.logPath seq disk).2, seq, []⟩
  written := []
  rotations := 0

/-- The lines from one origin. -/
def linesFrom (o : Origin) (c : Capture) : List String :=
  (c.written.filter (·.1 = o)).map (·.2)

def lines (c : Capture) : List String := c.written.map (·.2)

def write (ctx : LogContext) (o : Origin) (line : String) (c : Capture) : Capture :=
  { c with
    state := (c.state.writeLine ctx .ok line c.shared).1
    shared := (c.state.writeLine ctx .ok line c.shared).2
    written := c.written ++ [(o, line)]
    rotations := if c.state.Overflows ctx line then c.rotations + 1 else c.rotations }

/-- Index the last lines and return. -/
def finish (c : Capture) : Capture :=
  { c with
    phase := .ended
    state := (c.state.flushIdx c.shared).1
    shared := (c.state.flushIdx c.shared).2 }

end Capture

/-- Others write to the disk, draw sequence numbers and broadcast; not to this log. -/
structure Elsewhere (ctx : LogContext) (sh sh' : Shared) : Prop where
  dirLog : ∀ i, sh'.disk.dir (logName ctx.logPath i) = sh.disk.dir (logName ctx.logPath i)
  dirIdx : ∀ i, sh'.disk.dir (idxName ctx.logPath i) = sh.disk.dir (idxName ctx.logPath i)
  readLog : ∀ i, sh'.disk.read (logName ctx.logPath i) = sh.disk.read (logName ctx.logPath i)
  readIdx : ∀ i, sh'.disk.read (idxName ctx.logPath i) = sh.disk.read (idxName ctx.logPath i)
  seq : sh.seq ≤ sh'.seq
  sent : ∃ more, sh'.sent = sh.sent ++ more ∧
    ∀ o ∈ more, ¬(o.process = ctx.processName ∧ o.stream = ctx.stream)

inductive CaptureEvent where
  | childWrites (chunk : List UInt8)
  | childCloses
  | supSends (message : String)
  | supCloses
  | nextLine
  | recvSup
  | cancel
  | finish
  | others

/-- One step of the capture or of what surrounds it. -/
inductive CaptureStep (ctx : LogContext) : Capture → CaptureEvent → Capture → Prop
  | childWrites {c : Capture} (chunk : List UInt8) (h : c.closed = false) :
      CaptureStep ctx c (.childWrites chunk)
        { c with stream := c.stream ++ chunk, unread := c.unread ++ chunk }
  | childCloses {c : Capture} : CaptureStep ctx c .childCloses { c with closed := true }
  | supSends {c : Capture} (message : String) (h : c.supClosed = false) :
      CaptureStep ctx c (.supSends message) { c with supervisor := c.supervisor ++ [message] }
  | supCloses {c : Capture} : CaptureStep ctx c .supCloses { c with supClosed := true }
  | line {c : Capture} {text : String} {rest : List UInt8} (h : c.phase = .reading)
      (hnext : nextLine c.unread c.closed = some (.line text, rest)) :
      CaptureStep ctx c .nextLine (({ c with unread := rest } : Capture).write ctx .pipe text)
  /-- `_ => break` -/
  | stop {c : Capture} {res : NextLine} {rest : List UInt8} (h : c.phase = .reading)
      (hnext : nextLine c.unread c.closed = some (res, rest)) (hres : ∀ text, res ≠ .line text) :
      CaptureStep ctx c .nextLine { c with unread := rest, phase := .draining }
  | recvSup {c : Capture} {message : String} {rest : List String} (h : c.phase ≠ .ended)
      (hsup : c.supervisor = message :: rest) :
      CaptureStep ctx c .recvSup
        (({ c with supervisor := rest } : Capture).write ctx .supervisor message)
  | cancel {c : Capture} (h : c.phase = .reading) :
      CaptureStep ctx c .cancel { c with phase := .draining, cancelled := true }
  /-- A cancelled capture drains what is there; another waits for the channel to close. -/
  | finish {c : Capture} (h : c.phase = .draining) (hsup : c.supervisor = [])
      (hend : c.cancelled = true ∨ c.supClosed = true) : CaptureStep ctx c .finish c.finish
  | others {c : Capture} {sh : Shared} (h : Elsewhere ctx c.shared sh) :
      CaptureStep ctx c .others { c with shared := sh }

/-- The rotated segments an earlier capture has left. -/
structure Older (path : FileName) (disk : Disk) (old : List Segment) : Prop where
  logs : ∀ i, disk.read (logName path (i + 1)) = (old.map fun s => Content.text s.text)[i]?
  indexes : ∀ i, disk.read (idxName path (i + 1)) = (old.map Segment.fullIndex)[i]?

/-- **The captures** of one stream into a directory with these older segments. -/
def captures (ctx : LogContext) (older : List Segment) : Machine Capture CaptureEvent where
  init c := ∃ disk seq, Older ctx.logPath disk older ∧ c = .opened ctx disk seq
  step := CaptureStep ctx

/-! ## What is in the log -/

/-- No file is longer than the limit, unless it holds one line. -/
def Bounded (ctx : LogContext) (s : Segment) : Prop :=
  0 < ctx.maxBytes → s.text.length ≤ ctx.maxBytes ∨ s.entries.length = 1

/-- **The log and what was written to it.**  The newest segments hold the lines written, in order;
what a rotation has removed is at the old end. -/
structure Logged (ctx : LogContext) (older : List Segment) (c : Capture) (k : ℕ) (cur : Segment)
    (old : List Segment) (new : List Entry) : Prop where
  writing : Writing ctx c.state c.shared.disk k cur old
  lines : new.map Entry.line = c.lines
  kept : entriesOf (cur :: old) <:+ entriesOf older ++ new
  all : c.rotations + older.length ≤ ctx.maxRotatedFiles →
    entriesOf (cur :: old) = entriesOf older ++ new ∧ old.length = c.rotations + older.length
  bounded : (∀ s ∈ older, Bounded ctx s) → ∀ s ∈ cur :: old, Bounded ctx s
  sent : (c.shared.sent.filter fun o => o.process = ctx.processName ∧ o.stream = ctx.stream) =
    c.lines.map fun line => ⟨ctx.processName, ctx.stream, line⟩
  flushed : c.phase = .ended → k = cur.entries.length

section Step

variable {ctx : LogContext} {cur : Segment} {old : List Segment} {e : Entry}

/-- A line added to the log keeps a suffix of it, and all while there is room. -/
theorem entriesOf_logStep_suffix :
    entriesOf (logStep ctx e (cur :: old)) <:+ entriesOf (cur :: old) ++ [e] := by
  rw [logStep]
  split_ifs
  · rw [entriesOf_cons]
    have hsuffix : entriesOf ((cur :: old).take ctx.maxRotatedFiles) <:+ entriesOf (cur :: old) := by
      have h := Shelf.history_rotate_suffix (s := (cur :: old).map Segment.entries)
        (n := ctx.maxRotatedFiles)
      rwa [Shelf.rotate, Shelf.history_cons, List.append_nil, ← List.map_take] at h
    obtain ⟨gone, hgone⟩ := hsuffix
    exact ⟨gone, by rw [← List.append_assoc, hgone]⟩
  · rw [entriesOf_cons, entriesOf_cons, Segment.entries_put, List.append_assoc]

theorem entriesOf_logStep (h : Overflows ctx e.line cur → old.length < ctx.maxRotatedFiles) :
    entriesOf (logStep ctx e (cur :: old)) = entriesOf (cur :: old) ++ [e] := by
  rw [logStep]
  split_ifs with hfull
  · rw [entriesOf_cons, List.take_of_length_le (h hfull)]
  · rw [entriesOf_cons, entriesOf_cons, Segment.entries_put, List.append_assoc]

theorem length_logStep (h : Overflows ctx e.line cur → old.length < ctx.maxRotatedFiles) :
    (logStep ctx e (cur :: old)).length =
      if Overflows ctx e.line cur then old.length + 2 else old.length + 1 := by
  rw [logStep]
  split_ifs with hfull
  · rw [List.length_cons, List.take_of_length_le (h hfull), List.length_cons]
  · rfl

/-- **A new line keeps the segments within the limit.** -/
theorem bounded_logStep (h : ∀ s ∈ cur :: old, Bounded ctx s) :
    ∀ s ∈ logStep ctx e (cur :: old), Bounded ctx s := by
  rw [logStep]
  split_ifs with hfull
  · refine List.forall_mem_cons.mpr ⟨fun _ => .inr rfl, fun s hs => h s (List.mem_of_mem_take hs)⟩
  · refine List.forall_mem_cons.mpr ⟨fun hmax => .inl ?_, fun s hs => h s (List.mem_cons_of_mem _ hs)⟩
    have hfits : cur.text.length + lineBytes e.line ≤ ctx.maxBytes :=
      Nat.not_lt.mp fun hlt => hfull ⟨hmax, hlt⟩
    rwa [Segment.text_put, List.length_append, Entry.length_bytes]

end Step

end AgentProcs
