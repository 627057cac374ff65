import AgentProcs.Daemon.FollowLimit
import AgentProcs.Machinery.Broadcast
import AgentProcs.Tui.EventLoop

/-!
# Logs/Tailing — `logs --follow --tail n`, from the files to the live output

    client     list ──▸ open · read · end of file ──▸ ⋯ ──▸ print ──▸ subscribe ──▸ receive ⋯
    captures   start ──▸ store ⋯ ──▸ send          each log on its own, at any time

The client reads the files by itself, one by one, and asks the daemon for the live output only when
it has printed them.  A capture stores a line in pieces before it sends it, and meanwhile its log may
be renamed away or created anew.
-/

namespace AgentProcs

/-- One stream of one process. -/
structure Log where
  process : String
  stream : Stream
  deriving DecidableEq, Repr

def Log.path (f : Log) : FileName := logPathOf f.process f.stream

def OutputLine.log (o : OutputLine) : Log := ⟨o.process, o.stream⟩

/-- The arguments of `logs --follow`. -/
structure LogsArgs where
  target : Option String
  tail : ℕ
  stderr : Bool
  all : Bool
  lines : Option ℕ
  deriving DecidableEq, Repr

/-- `str::trim_end_matches` -/
def trimEndMatches (suffix name : FileName) : FileName :=
  if suffix ≠ [] ∧ suffix <:+ name then
    trimEndMatches suffix (name.take (name.length - suffix.length))
  else name
termination_by name.length
decreasing_by
  rename_i h
  have hpos : 0 < suffix.length := List.length_pos_iff.mpr h.1
  have hle : suffix.length ≤ name.length := h.2.length_le
  rw [List.length_take]
  omega

theorem trimEndMatches_append {suffix : FileName} (hne : suffix ≠ []) (name : FileName) :
    trimEndMatches suffix (name ++ suffix) = trimEndMatches suffix name := by
  rw [trimEndMatches, if_pos ⟨hne, List.suffix_append _ _⟩, List.length_append, Nat.add_sub_cancel,
    List.take_left]

/-- What is left of a name does not end so any more. -/
theorem not_suffix_trimEndMatches {suffix : FileName} (hne : suffix ≠ []) (name : FileName) :
    ¬suffix <:+ trimEndMatches suffix name := by
  induction name using trimEndMatches.induct suffix with
  | case1 name h ih =>
    rw [trimEndMatches, if_pos h]
    exact ih
  | case2 name h =>
    rw [trimEndMatches, if_neg h]
    exact fun hends => h ⟨hne, hends⟩

/-- The process of a file, by the file's name. -/
def Log.procName (f : Log) : String :=
  String.ofList (trimEndMatches ('.' :: f.stream.extension) f.path)

/-- The last `n` lines of these bytes, if all of them are text. -/
def tailLines (n : ℕ) (bytes : List UInt8) : Option (List String) := do
  let lines ← (splitLines NEWLINE bytes).mapM decodeLine
  return lines.drop (lines.length - n)

namespace LogsArgs

variable (args : LogsArgs)

/-- Every process is shown, with its name before each line. -/
def showPrefix : Bool := args.all || args.target.isNone

/-- The stream whose files are replayed. -/
def stream : Stream := if args.stderr then .stderr else .stdout

/-- What the client asks the daemon for. -/
def request : FollowRequest :=
  ⟨args.target, args.all || args.target.isNone, args.stderr, args.lines⟩

def println (process line : String) : String :=
  if args.showPrefix then s!"[{process}] {line}" else line

/-- What is printed of a response. -/
def onLine : Response → Option String
  | .logLine process _ line => some (args.println process line)
  | _ => none

end LogsArgs

/-- What a capture is at: nothing, storing a line, or about to send it. -/
inductive Emission where
  | idle
  | writing (line : String) (rest : List UInt8)
  | written (line : String)
  deriving DecidableEq, Repr

/-- What the client is at. -/
inductive Client where
  | starting
  /-- The files to be opened; the one that is open, with its inode and what has been read of it; and
  what is to be printed. -/
  | replaying (todo : List Log) (reading : Option (Log × ℕ × List UInt8)) (lines : List String)
  | requesting
  | following
  | ended
  deriving DecidableEq, Repr

structure Tailing where
  disk : Disk
  emission : Log → Emission
  /-- The lines each capture is done storing. -/
  captured : Log → List String
  client : Client
  /-- What the client has printed of the files, once it has. -/
  replayed : Option (List String)
  /-- What the subscription has not received yet. -/
  unread : List OutputLine
  /-- What it has. -/
  events : List FollowEvent

def FollowEvent.ofReceived : Received OutputLine → FollowEvent
  | .message o => .recv o
  | .lagged => .lagged

namespace Tailing

/-- All the client has printed. -/
def printed (args : LogsArgs) (s : Tailing) : List String :=
  s.replayed.getD [] ++ (streamLoop args.request 0 s.events).filterMap args.onLine

/-! ## The captures -/

def setEmission (f : Log) (e : Emission) (s : Tailing) : Tailing :=
  { s with emission := Function.update s.emission f e }

/-- A capture is done storing the line. -/
def capture (f : Log) (line : String) (s : Tailing) : Tailing :=
  { s.setEmission f (.written line) with
    captured := Function.update s.captured f (s.captured f ++ [line]) }

/-- A piece of the line is stored. -/
def store (f : Log) (inode : ℕ) (line : String) (rest : List UInt8) (k : ℕ) (s : Tailing) :
    Tailing :=
  let s := { s with disk := s.disk.modify inode (Content.appendBytes (rest.take k)) }
  if rest.length ≤ k then s.capture f line else s.setEmission f (.writing line (rest.drop k))

/-- A line is broadcast. -/
def push (o : OutputLine) (s : Tailing) : Tailing :=
  if s.client = .following then { s with unread := s.unread ++ [o] } else s

section Captures

variable {f g : Log} {line : String} {s : Tailing}

@[simp] theorem emission_setEmission (f : Log) (e : Emission) (s : Tailing) :
    (s.setEmission f e).emission f = e := Function.update_self ..

theorem emission_setEmission_of_ne (h : f ≠ g) (e : Emission) :
    (s.setEmission g e).emission f = s.emission f := Function.update_of_ne h ..

@[simp] theorem emission_capture (f : Log) (line : String) (s : Tailing) :
    (s.capture f line).emission f = .written line := emission_setEmission ..

@[simp] theorem captured_capture (f : Log) (line : String) (s : Tailing) :
    (s.capture f line).captured f = s.captured f ++ [line] := Function.update_self ..

theorem emission_capture_of_ne (h : f ≠ g) :
    (s.capture g line).emission f = s.emission f := emission_setEmission_of_ne h _

theorem captured_capture_of_ne (h : f ≠ g) :
    (s.capture g line).captured f = s.captured f := Function.update_of_ne h ..

/-- A line is broadcast to who has subscribed. -/
theorem push_eq (o : OutputLine) (s : Tailing) : s.push o =
    { s with unread := if s.client = .following then s.unread ++ [o] else s.unread } := by
  rw [push]
  split <;> rfl

end Captures

/-! ## The client -/

/-- What the client is to read: the target's file, or what the directory lists.  The listing is that
of one instant; what appears or goes while `read_dir` is under way may be in it or not. -/
def Lists (args : LogsArgs) (files : List Log) (s : Tailing) : Prop :=
  if args.showPrefix then
    files.Nodup ∧ ∀ f, f ∈ files ↔ f.stream = args.stream ∧ (s.disk.dir f.path).isSome
  else files = args.target.toList.map (⟨·, args.stream⟩)

/-- The next file is opened, if there is one. -/
def openFile (f : Log) (todo : List Log) (lines : List String) (s : Tailing) : Tailing :=
  match s.disk.dir f.path with
  | some inode => { s with client := .replaying todo (some (f, inode, [])) lines }
  | none => { s with client := .replaying todo none lines }

/-- A file that cannot be read is left out, or ends the client. -/
def skip (args : LogsArgs) (todo : List Log) (lines : List String) (s : Tailing) : Tailing :=
  if args.showPrefix then { s with client := .replaying todo none lines }
  else { s with client := .ended }

/-- All of a file has been read. -/
def endOfFile (args : LogsArgs) (f : Log) (buf : List UInt8) (todo : List Log)
    (lines : List String) (s : Tailing) : Tailing :=
  match tailLines args.tail buf with
  | some ls =>
    { s with client := .replaying todo none (lines ++ ls.map (args.println f.procName)) }
  | none => s.skip args todo lines

/-- What was read is printed. -/
def print (lines : List String) (s : Tailing) : Tailing :=
  { s with client := .requesting, replayed := some lines }

end Tailing

inductive TailingEvent where
  | create (f : Log)
  | away (f : Log)
  | start (f : Log) (line : String)
  | store (f : Log) (k : ℕ)
  /-- A write fails, and the capture goes on. -/
  | fail (f : Log)
  | send (f : Log)
  /-- The actor broadcasts a line of its own. -/
  | announce (o : OutputLine)
  | list (files : List Log)
  | listFails
  | openFile
  | aborts
  | readSome (k : ℕ)
  | readFails
  | endOfFile
  | print
  | subscribe
  | turn
  /-- The timeout, the limit, or a connection that fails. -/
  | ends

inductive TailingStep (args : LogsArgs) (capacity : ℕ) : Tailing → TailingEvent → Tailing → Prop
  | create {s : Tailing} {f : Log} :
      TailingStep args capacity s (.create f) { s with disk := (s.disk.create f.path (.text [])).2 }
  | away {s : Tailing} {f : Log} :
      TailingStep args capacity s (.away f) { s with disk := s.disk.remove f.path }
  | start {s : Tailing} {f : Log} {line : String} (hidle : s.emission f = .idle) :
      TailingStep args capacity s (.start f line)
        (s.setEmission f (.writing line (utf8 line ++ [NEWLINE])))
  | store {s : Tailing} {f : Log} {line : String} {rest : List UInt8} {inode k : ℕ}
      (hwriting : s.emission f = .writing line rest) (hopen : s.disk.dir f.path = some inode)
      (hk : 0 < k) : TailingStep args capacity s (.store f k) (s.store f inode line rest k)
  | fail {s : Tailing} {f : Log} {line : String} {rest : List UInt8}
      (hwriting : s.emission f = .writing line rest) :
      TailingStep args capacity s (.fail f) (s.capture f line)
  | send {s : Tailing} {f : Log} {line : String} (hwritten : s.emission f = .written line) :
      TailingStep args capacity s (.send f)
        ((s.setEmission f .idle).push ⟨f.process, f.stream, line⟩)
  | announce {s : Tailing} {o : OutputLine} :
      TailingStep args capacity s (.announce o) (s.push o)
  | list {s : Tailing} {files : List Log} (hclient : s.client = .starting) (htail : args.tail ≠ 0)
      (hlists : s.Lists args files) :
      TailingStep args capacity s (.list files) { s with client := .replaying files none [] }
  | listFails {s : Tailing} (hclient : s.client = .starting) (htail : args.tail ≠ 0)
      (hall : args.showPrefix = true) :
      TailingStep args capacity s .listFails { s with client := .ended }
  /-- Without a tail there is nothing to read. -/
  | noTail {s : Tailing} (hclient : s.client = .starting) (htail : args.tail = 0) :
      TailingStep args capacity s .print (s.print [])
  | openFile {s : Tailing} {f : Log} {todo : List Log} {lines : List String}
      (hclient : s.client = .replaying (f :: todo) none lines) :
      TailingStep args capacity s .openFile (s.openFile f todo lines)
  /-- `VecDeque::with_capacity(n)`, for more lines than there is memory for. -/
  | aborts {s : Tailing} {f : Log} {inode : ℕ} {todo : List Log} {lines : List String}
      (hclient : s.client = .replaying todo (some (f, inode, [])) lines) :
      TailingStep args capacity s .aborts { s with client := .ended }
  | readSome {s : Tailing} {f : Log} {inode k : ℕ} {buf : List UInt8} {todo : List Log}
      {lines : List String} (hclient : s.client = .replaying todo (some (f, inode, buf)) lines) :
      TailingStep args capacity s (.readSome k) { s with
        client := .replaying todo
          (some (f, inode, buf ++ ((s.disk.data inode).bytes.drop buf.length).take k)) lines }
  | readFails {s : Tailing} {f : Log} {inode : ℕ} {buf : List UInt8} {todo : List Log}
      {lines : List String} (hclient : s.client = .replaying todo (some (f, inode, buf)) lines) :
      TailingStep args capacity s .readFails (s.skip args todo lines)
  | endOfFile {s : Tailing} {f : Log} {inode : ℕ} {buf : List UInt8} {todo : List Log}
      {lines : List String} (hclient : s.client = .replaying todo (some (f, inode, buf)) lines)
      (hend : (s.disk.data inode).bytes.length ≤ buf.length) :
      TailingStep args capacity s .endOfFile (s.endOfFile args f buf todo lines)
  | print {s : Tailing} {lines : List String} (hclient : s.client = .replaying [] none lines) :
      TailingStep args capacity s .print (s.print lines)
  | subscribe {s : Tailing} (hclient : s.client = .requesting) :
      TailingStep args capacity s .subscribe { s with client := .following, unread := [] }
  | turn {s : Tailing} {r : Received OutputLine} {unread : List OutputLine}
      (hclient : s.client = .following)
      (hrecv : Broadcast.recv capacity s.unread = (some r, unread)) :
      TailingStep args capacity s .turn
        { s with unread := unread, events := s.events ++ [.ofReceived r] }
  | ends {s : Tailing} (hclient : s.client = .requesting ∨ s.client = .following) :
      TailingStep args capacity s .ends { s with client := .ended }

/-- A client that follows the logs, and the captures that write them. -/
def tailing (args : LogsArgs) (capacity : ℕ) : Machine Tailing TailingEvent where
  init s := s.client = .starting ∧ s.replayed = none ∧ s.unread = [] ∧ s.events = []
  step := TailingStep args capacity

end AgentProcs
