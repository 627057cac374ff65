import AgentProcs.Machinery.Runs
import AgentProcs.Tui.App

/-!
# Tui/EventLoop — events, and what the terminal interface does with them

    keys, mouse   ┐
    output lines  ├──▸ handle ──▸ draw ──▸ handle ──▸ ⋯        while running
    status polls  ┘         disk changes at any time

The interface starts from what the log directory holds.  Between two steps the captures write to the
logs as they like.  Maps have an order of their own: where the code goes through one, the step takes
the names in some order.
-/

namespace AgentProcs

/-! ## Keys -/

inductive KeyCode where
  | char (c : Char)
  | up
  | down
  | pageUp
  | pageDown
  | home
  | «end»
  | esc
  | enter
  | backspace
  | other
  deriving DecidableEq, Repr

structure KeyEvent where
  code : KeyCode
  control : Bool
  deriving DecidableEq, Repr

inductive Action where
  | selectNext
  | selectPrev
  | restart
  | stop
  | stopAll
  | cycleStream
  | togglePause
  | scrollUp
  | scrollDown
  | scrollToTop
  | scrollToBottom
  | startFilter
  | clearFilter
  | quit
  | quitAndStop
  | none
  deriving DecidableEq, Repr

/-- Actions available when the filter input prompt is active. -/
inductive FilterAction where
  | char (c : Char)
  | backspace
  | confirm
  | cancel
  deriving DecidableEq, Repr

def handleKey (key : KeyEvent) : Action :=
  match key.code with
  | .down | .char 'j' => .selectNext
  | .up | .char 'k' => .selectPrev
  | .char 'r' => .restart
  | .char 'x' => .stop
  | .char 'X' => .stopAll
  | .char 'e' => .cycleStream
  | .char ' ' => .togglePause
  | .pageUp | .char 'u' => .scrollUp
  | .pageDown | .char 'd' => .scrollDown
  | .home | .char 'g' => .scrollToTop
  | .end | .char 'G' => .scrollToBottom
  | .char '/' => .startFilter
  | .esc => .clearFilter
  | .char 'q' => .quit
  | .char 'Q' => .quitAndStop
  | .char 'c' => if key.control then .quit else .none
  | _ => .none

def handleFilterKey (key : KeyEvent) : FilterAction :=
  match key.code with
  | .enter => .confirm
  | .backspace => .backspace
  | .char c => .char c
  | _ => .cancel

/-! ## Events -/

inductive MouseKind where
  | scrollUp
  | scrollDown
  | downLeft
  | other
  deriving DecidableEq, Repr

structure MouseEvent where
  kind : MouseKind
  column : ℕ
  row : ℕ
  deriving DecidableEq, Repr

inductive AppEvent where
  | key (key : KeyEvent)
  | mouse (mouse : MouseEvent)
  | outputLine (process : String) (stream : Stream) (line : String)
  | statusUpdate (processes : List ProcessInfo)
  | outputStreamClosed
  deriving DecidableEq, Repr

namespace App

section Handle

variable (disk : Disk) (names : List String) (clocks : String → Clock)

/-- The clock for what is asked about the selected process. -/
def selectedClock (app : App) : Clock := clocks (app.selectedName.getD "(none)")

/-- What the filter prompt does. -/
def handleFilterAction (action : FilterAction) (app : App) : App :=
  match action with
  | .char c => { app with filterBuf := app.filterBuf.push c }
  | .backspace => { app with filterBuf := String.ofList app.filterBuf.toList.dropLast }
  | .confirm => app.confirmFilter disk names clocks
  | .cancel => app.cancelFilter

/-- What an action does, and what it asks of the daemon. -/
def handleAction (action : Action) (app : App) : App × Option Request :=
  match action with
  | .selectNext => (app.selectNext, .none)
  | .selectPrev => (app.selectPrev, .none)
  | .cycleStream => (app.cycleStreamMode disk names clocks, .none)
  | .togglePause => (app.togglePause, .none)
  | .scrollUp => (app.scrollUp disk (app.selectedClock clocks), .none)
  | .scrollDown => (app.scrollDown, .none)
  | .scrollToTop => (app.scrollToTop disk (app.selectedClock clocks), .none)
  | .scrollToBottom => (app.scrollToBottom, .none)
  | .startFilter => (app.startFilter, .none)
  | .clearFilter => (app.clearFilter, .none)
  | .quit => (app.quit, .none)
  | .quitAndStop => (app.quitAndStop, .none)
  | .stop => (app, app.selectedName.map .stop)
  | .stopAll => (app, some .stopAll)
  | .restart => (app, app.selectedName.map .restart)
  | .none => (app, .none)

def handleKey (key : KeyEvent) (app : App) : App × Option Request :=
  match app.inputMode with
  | .filterInput => (app.handleFilterAction disk names clocks (handleFilterKey key), none)
  | .normal => app.handleAction disk names clocks (AgentProcs.handleKey key)

def MOUSE_SCROLL_LINES : ℕ := 3

def handleMouse (mouse : MouseEvent) (app : App) : App :=
  match mouse.kind with
  | .scrollUp => app.scrollUpBy disk MOUSE_SCROLL_LINES (app.selectedClock clocks)
  | .scrollDown => app.scrollDownBy MOUSE_SCROLL_LINES
  | .downLeft =>
    if mouse.column < 22 ∧ mouse.row - 1 < app.processes.length then
      { app with selected := mouse.row - 1 }
    else app
  | .other => app

/-- Create disk readers for new processes. -/
def addReaders (processes : List ProcessInfo) (app : App) : App :=
  { app with
    diskReaders := processes.foldl (fun readers p =>
      if (readers p.name).isSome then readers
      else Function.update readers p.name (some (.new p.name))) app.diskReaders }

/-- **One turn of the loop**: handle an event. -/
def handle (event : AppEvent) (app : App) : App × Option Request :=
  match event with
  | .key key => app.handleKey disk names clocks key
  | .mouse mouse => (app.handleMouse disk clocks mouse, none)
  | .outputLine process stream line =>
    (app.pushOutput disk process stream line (clocks process), none)
  | .statusUpdate processes => ((app.addReaders processes).updateProcesses processes, none)
  | .outputStreamClosed => (app, none)

end Handle

/-- Draw the output pane at this height. -/
def draw (disk : Disk) (height : ℕ) (clock : Clock) (app : App) :
    Except ReadError (List (LineSource × String) × App) := do
  let name := app.selectedName.getD "(none)"
  let (window, app, _) ←
    { app with visibleHeight := height }.visibleLines disk name height clock
  return (window, app)

end App

/-! ## Starting up -/

/-- The process and stream of a current log file, by its name. -/
def currentLog (name : FileName) : Option (String × Stream) :=
  let stem (stream : Stream) : Option String :=
    let suffix := '.' :: stream.extension
    if suffix <:+ name then some (String.ofList (name.take (name.length - suffix.length))) else none
  match stem .stdout, stem .stderr with
  | some p, _ => some (p, .stdout)
  | none, some p => some (p, .stderr)
  | none, none => none

/-- The last `n` lines of a file, if all of it is text.  The buffer for them is allocated before a
line is read: where there is no memory for `n` the program ends here. -/
def tailFile (path : FileName) (n : ℕ) (disk : Disk) : Option (List String) :=
  if n = 0 then some []
  else do
    let content ← disk.read path
    let lines ← (splitLines NEWLINE content.bytes).mapM decodeLine
    return lines.drop (lines.length - n)

/-- How many lines of a log are loaded at the start. -/
def PRELOAD_LINES : ℕ := 1000

namespace App

/-- Load the end of a log file into the hot buffer. -/
def preload (disk : Disk) (file : (String × Stream) × FileName) (app : App) : App :=
  ((tailFile file.2 PRELOAD_LINES disk).getD []).foldl
    (fun app line => app.pushOutput disk file.1.1 file.1.2 line fun _ => 0) app

/-- Initialize disk readers and pre-populate the hot buffer with recent lines.  `files` is what the
directory lists, in its order. -/
def initDiskReaders (files : List FileName) (disk : Disk) (app : App) : App :=
  let entries := files.filterMap fun name => (currentLog name).map (·, name)
  let app := { app with
    diskReaders := entries.foldl (fun readers e =>
      Function.update readers e.1.1 (some (.new e.1.1))) app.diskReaders }
  entries.foldl (fun app e => app.preload disk e) app

end App

/-! ## Runs -/

/-- The interface and the disk it reads. -/
structure Tui where
  app : App
  disk : Disk

/-- What happens, with the order a map is gone through and the times of the looks. -/
inductive TuiEvent where
  | handle (event : AppEvent) (names : List String) (clocks : String → Clock)
  | draw (height : ℕ) (clock : Clock)
  | write (disk : Disk)

/-- The names a map holds, in some order. -/
def Enumerates {α : Type} (names : List String) (map : String → Option α) : Prop :=
  names.Nodup ∧ ∀ name, name ∈ names ↔ (map name).isSome

inductive TuiStep : Tui → TuiEvent → Tui → Prop
  | handle {t : Tui} {event : AppEvent} {names : List String} {clocks : String → Clock}
      (hrunning : t.app.running) (hnames : Enumerates names t.app.diskReaders) :
      TuiStep t (.handle event names clocks)
        { t with app := (t.app.handle t.disk names clocks event).1 }
  | draw {t : Tui} {height : ℕ} {clock : Clock} {window : List (LineSource × String)} {app : App}
      (hrunning : t.app.running) (hdrawn : t.app.draw t.disk height clock = .ok (window, app)) :
      TuiStep t (.draw height clock) { t with app }
  | write {t : Tui} {disk : Disk} : TuiStep t (.write disk) { t with disk }

/-- The directory lists these files. -/
def Lists (files : List FileName) (disk : Disk) : Prop :=
  files.Nodup ∧ ∀ name, name ∈ files ↔ (disk.dir name).isSome

/-- **The terminal interface**, started on some log directory. -/
def tui : Machine Tui TuiEvent where
  init t := ∃ files, Lists files t.disk ∧ t.app = App.new.initDiskReaders files t.disk
  step := TuiStep

end AgentProcs
