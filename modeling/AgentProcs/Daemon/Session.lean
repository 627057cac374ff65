import AgentProcs.Machinery.Files
import AgentProcs.Machinery.Runs
import Mathlib.Algebra.Order.Ring.Int
import Mathlib.Data.List.DropRight

/-!
# Daemon/Session — clients that find or spawn the daemon of a session

    client   read pid file ──dead──▸ unlink socket ──▸ spawn ──▸ poll ──▸ connect
                   └──────────────alive──────────────────────────────────▸──┘
    daemon   create pid file ──▸ write pid ──▸ bind ──▸ serve ──▸ unlink socket ──▸ unlink pid file

Each arrow is a step of its own, and any client and any daemon may take steps between two of
another's.  What ties them together is the two names: whoever unlinks one does not ask whose file it
is.  A daemon may also be killed, and then leaves its files behind.
-/

namespace AgentProcs

inductive SessionFile where
  | pid
  | socket
  deriving DecidableEq, Repr

inductive SessionContent where
  | text (t : List Char)
  /-- A socket this daemon has bound. -/
  | socket (daemon : ℕ)
  /-- Left by something else. -/
  | other
  deriving DecidableEq, Repr

/-- What is in a file after a line has been written at its start. -/
def SessionContent.overwrite (line : List Char) : SessionContent → SessionContent
  | .text t => .text (line ++ t.drop line.length)
  | c => c

/-- What `writeln!` writes for a process id. -/
def pidLine (pid : ℕ) : List Char := (toString pid).toList ++ ['\n']

/-- `i32::from_str` -/
def parseI32 (s : List Char) : Option ℤ :=
  let (sign, digits) : ℤ × List Char := match s with
    | '-' :: ds => (-1, ds)
    | '+' :: ds => (1, ds)
    | ds => (1, ds)
  if digits ≠ [] ∧ digits.all Char.isDigit then
    let n := sign * (digits.foldl (fun n c => 10 * n + (c.toNat - '0'.toNat)) 0 : ℕ)
    if -2 ^ 31 ≤ n ∧ n < 2 ^ 31 then some n else none
  else none

/-- `char::is_whitespace`, the `White_Space` of Unicode -/
def isWhiteSpace (c : Char) : Bool :=
  let n := c.toNat
  (9 ≤ n && n ≤ 13) || (0x2000 ≤ n && n ≤ 0x200a) ||
    [0x20, 0x85, 0xa0, 0x1680, 0x2028, 0x2029, 0x202f, 0x205f, 0x3000].contains n

/-- `content.trim().parse()` -/
def parsePid (t : List Char) : Option ℤ :=
  parseI32 ((t.dropWhile isWhiteSpace).rdropWhile isWhiteSpace)

/-- Where a daemon stands in `run_daemon`. -/
inductive DaemonPhase where
  | unborn
  | starting
  /-- It has created its pid file, this inode, and not written it. -/
  | created (file : ℕ)
  | binding
  | serving
  | cleaning
  /-- The socket is removed, the pid file is next. -/
  | unbound
  | leaving
  | gone
  deriving DecidableEq, Repr

/-- The process exists. -/
def DaemonPhase.Live (ph : DaemonPhase) : Prop := ph ≠ .unborn ∧ ph ≠ .gone

instance (ph : DaemonPhase) : Decidable ph.Live := inferInstanceAs (Decidable (_ ∧ _))

/-- What a poll of `wait_for_daemon_ready` looks at next. -/
inductive PollStage where
  | child
  | pidFile
  | socketFile
  | connect
  deriving DecidableEq, Repr

/-- Where a client stands in `connect`. -/
inductive ClientPhase where
  | idle
  /-- It has found no daemon alive. -/
  | spawning
  /-- It has removed the socket, and not spawned its daemon. -/
  | unlinked
  | waiting (daemon polls : ℕ) (stage : PollStage)
  | connecting
  | connected (daemon : ℕ)
  | failed
  deriving DecidableEq, Repr

/-- A poll goes on. -/
def ClientPhase.passed (daemon polls : ℕ) : PollStage → ClientPhase
  | .child => .waiting daemon polls .pidFile
  | .pidFile => .waiting daemon polls .socketFile
  | .socketFile => .waiting daemon polls .connect
  | .connect => .connecting

/-- A poll fails: the child has exited, or it is time for the next of a hundred polls. -/
def ClientPhase.missed (daemon polls : ℕ) : PollStage → ClientPhase
  | .child => .failed
  | _ => if polls + 1 < 100 then .waiting daemon (polls + 1) .child else .failed

structure Session where
  fs : FileSystem SessionFile SessionContent
  /-- The daemons are numbered as they are spawned. -/
  spawned : ℕ
  daemons : ℕ → DaemonPhase
  pid : ℕ → ℕ
  clients : ℕ → ClientPhase

namespace Session

/-- No daemon, and no client has done anything yet. -/
def new (fs : FileSystem SessionFile SessionContent) : Session where
  fs := fs
  spawned := 0
  daemons _ := .unborn
  pid _ := 0
  clients _ := .idle

def setClient (c : ℕ) (ph : ClientPhase) (s : Session) : Session :=
  { s with clients := Function.update s.clients c ph }

def setDaemon (d : ℕ) (ph : DaemonPhase) (s : Session) : Session :=
  { s with daemons := Function.update s.daemons d ph }

def spawn (pid : ℕ) (s : Session) : Session :=
  { s with
    spawned := s.spawned + 1
    daemons := Function.update s.daemons s.spawned .starting
    pid := Function.update s.pid s.spawned pid }

section Fields

variable {s : Session} {b c d e pid : ℕ} {ph : ClientPhase} {dph : DaemonPhase}

theorem clients_setClient :
    (s.setClient c ph).clients b = if b = c then ph else s.clients b := Function.update_apply ..

theorem daemons_setDaemon :
    (s.setDaemon d dph).daemons e = if e = d then dph else s.daemons e := Function.update_apply ..

theorem daemons_spawn :
    (s.spawn pid).daemons d = if d = s.spawned then .starting else s.daemons d :=
  Function.update_apply ..

end Fields

/-- `File::create` on the pid file. -/
def createPidFile (s : Session) : ℕ × FileSystem SessionFile SessionContent :=
  s.fs.create .pid (.text [])

/-- The process id in the pid file. -/
def filedPid (s : Session) : Option ℤ :=
  match s.fs.read .pid with
  | some (.text t) => parsePid t
  | _ => none

/-- `is_daemon_alive`: the process in the pid file can be signalled; `foreign` are those that are no
daemons of this session. -/
def DaemonAlive (foreign : ℤ → Prop) (s : Session) : Prop :=
  ∃ n, s.filedPid = some n ∧ ((∃ d, (s.daemons d).Live ∧ (s.pid d : ℤ) = n) ∨ foreign n)

/-- A connection to the socket's path reaches this daemon. -/
def Answers (d : ℕ) (s : Session) : Prop :=
  s.fs.read .socket = some (.socket d) ∧ s.daemons d = .serving

/-- What a poll looks at is there. -/
def Passes (d : ℕ) (s : Session) : PollStage → Prop
  | .child => s.daemons d ≠ .gone
  | .pidFile => (s.fs.dir .pid).isSome
  | .socketFile => (s.fs.dir .socket).isSome
  | .connect => ∃ e, s.Answers e

end Session

inductive SessionEvent where
  | check (c : ℕ) (foreign : ℤ → Prop)
  | unlink (c : ℕ)
  | spawn (c pid : ℕ)
  | giveUp (c : ℕ)
  | poll (c : ℕ)
  | connect (c : ℕ)
  | refuse (d : ℕ)
  | createPid (d : ℕ)
  | writePid (d : ℕ)
  | skipPid (d : ℕ)
  | bind (d : ℕ)
  | bindFails (d : ℕ)
  | shutdown (d : ℕ)
  | unlinkSocket (d : ℕ)
  | unlinkPid (d : ℕ)
  | exit (d : ℕ)
  | crash (d : ℕ)

/-- One step of one client or of one daemon. -/
inductive SessionStep : Session → SessionEvent → Session → Prop
  | alive {s : Session} {c : ℕ} {foreign : ℤ → Prop} (hphase : s.clients c = .idle)
      (halive : s.DaemonAlive foreign) :
      SessionStep s (.check c foreign) (s.setClient c .connecting)
  | dead {s : Session} {c : ℕ} {foreign : ℤ → Prop} (hphase : s.clients c = .idle)
      (hdead : ¬s.DaemonAlive foreign) :
      SessionStep s (.check c foreign) (s.setClient c .spawning)
  /-- "Remove stale socket if present" -/
  | unlink {s : Session} {c : ℕ} (hphase : s.clients c = .spawning) :
      SessionStep s (.unlink c) ({ s with fs := s.fs.remove .socket }.setClient c .unlinked)
  | spawn {s : Session} {c pid : ℕ} (hphase : s.clients c = .unlinked) (hpos : 0 < pid)
      (hpid : ∀ d, (s.daemons d).Live → s.pid d ≠ pid) :
      SessionStep s (.spawn c pid) ((s.spawn pid).setClient c (.waiting s.spawned 0 .child))
  /-- Any error on the way to the daemon. -/
  | giveUp {s : Session} {c : ℕ}
      (hphase : s.clients c = .idle ∨ s.clients c = .spawning ∨ s.clients c = .unlinked) :
      SessionStep s (.giveUp c) (s.setClient c .failed)
  | pollPasses {s : Session} {c d polls : ℕ} {stage : PollStage}
      (hphase : s.clients c = .waiting d polls stage) (hpass : s.Passes d stage) :
      SessionStep s (.poll c) (s.setClient c (.passed d polls stage))
  | pollMisses {s : Session} {c d polls : ℕ} {stage : PollStage}
      (hphase : s.clients c = .waiting d polls stage) (hmiss : ¬s.Passes d stage) :
      SessionStep s (.poll c) (s.setClient c (.missed d polls stage))
  | connected {s : Session} {c d : ℕ} (hphase : s.clients c = .connecting) (hd : s.Answers d) :
      SessionStep s (.connect c) (s.setClient c (.connected d))
  | refused {s : Session} {c : ℕ} (hphase : s.clients c = .connecting)
      (hnone : ∀ d, ¬s.Answers d) : SessionStep s (.connect c) (s.setClient c .failed)
  /-- The runtime directory is not safe to use. -/
  | refuse {s : Session} {d : ℕ} (hphase : s.daemons d = .starting) :
      SessionStep s (.refuse d) (s.setDaemon d .gone)
  | createPid {s : Session} {d : ℕ} (hphase : s.daemons d = .starting) :
      SessionStep s (.createPid d)
        ({ s with fs := s.createPidFile.2 }.setDaemon d (.created s.createPidFile.1))
  | writePid {s : Session} {d file : ℕ} (hphase : s.daemons d = .created file) :
      SessionStep s (.writePid d) ({ s with
        fs := s.fs.modify file (SessionContent.overwrite (pidLine (s.pid d))) }.setDaemon d .binding)
  /-- Creating or writing the pid file fails, and nobody asks. -/
  | skipPid {s : Session} {d : ℕ}
      (hphase : s.daemons d = .starting ∨ ∃ file, s.daemons d = .created file) :
      SessionStep s (.skipPid d) (s.setDaemon d .binding)
  | bind {s : Session} {d : ℕ} (hphase : s.daemons d = .binding) (hfree : s.fs.dir .socket = none) :
      SessionStep s (.bind d)
        ({ s with fs := s.fs.link .socket (.socket d) }.setDaemon d .serving)
  /-- The name is in use, or binding fails otherwise. -/
  | bindFails {s : Session} {d : ℕ} (hphase : s.daemons d = .binding) :
      SessionStep s (.bindFails d) (s.setDaemon d .cleaning)
  | shutdown {s : Session} {d : ℕ} (hphase : s.daemons d = .serving) :
      SessionStep s (.shutdown d) (s.setDaemon d .cleaning)
  | unlinkSocket {s : Session} {d : ℕ} (hphase : s.daemons d = .cleaning) :
      SessionStep s (.unlinkSocket d) ({ s with fs := s.fs.remove .socket }.setDaemon d .unbound)
  | unlinkPid {s : Session} {d : ℕ} (hphase : s.daemons d = .unbound) :
      SessionStep s (.unlinkPid d) ({ s with fs := s.fs.remove .pid }.setDaemon d .leaving)
  | exit {s : Session} {d : ℕ} (hphase : s.daemons d = .leaving) :
      SessionStep s (.exit d) (s.setDaemon d .gone)
  | crash {s : Session} {d : ℕ} (hlive : (s.daemons d).Live) :
      SessionStep s (.crash d) (s.setDaemon d .gone)

/-- **The clients and daemons of a session**, over whatever files earlier ones have left. -/
def session : Machine Session SessionEvent where
  init s := ∃ fs, (∀ f d, fs.read f ≠ some (.socket d)) ∧ s = .new fs
  step := SessionStep

end AgentProcs
