import AgentProcs.Logs.Scan

/-!
# Tui/App — the state of the terminal interface

    push_output ──▸ OutputBuffer (last 10 000 lines)      ┐
    capture     ──▸ logs on disk ──DiskLogReader──▸       ├──visible_lines──▸ output pane
                         └──scan──▸ FilteredIndex         ┘

The pane shows a window of the disk history stitched to the hot buffer, or, under a filter, of the
lines an index of matches points to.  Every method that asks a reader takes the times of its looks.
-/

namespace AgentProcs

def MAX_BUFFER_LINES : ℕ := 10000

def Stream.source : Stream → LineSource
  | stdout => .stdout
  | stderr => .stderr

/-! ## The hot buffer -/

/-- Single ring buffer storing all output with source tags. -/
structure OutputBuffer where
  lines : List (LineSource × String)
  maxLines : ℕ
  stdoutCount : ℕ
  stderrCount : ℕ
  deriving DecidableEq, Repr

namespace OutputBuffer

/-- An empty buffer.  The source reserves room for `maxLines` lines at once, and so panics for a
size no memory holds; `App` only asks for `MAX_BUFFER_LINES`. -/
def new (maxLines : ℕ) : OutputBuffer := ⟨[], maxLines, 0, 0⟩

/-- Drop the oldest line, if there is one. -/
def evict (b : OutputBuffer) : OutputBuffer :=
  match b.lines with
  | [] => b
  | (.stdout, _) :: lines => { b with lines, stdoutCount := b.stdoutCount - 1 }
  | (.stderr, _) :: lines => { b with lines, stderrCount := b.stderrCount - 1 }

def push (source : LineSource) (line : String) (b : OutputBuffer) : OutputBuffer :=
  let kept := if b.lines.length = b.maxLines then b.evict else b
  match source with
  | .stdout =>
    { kept with lines := kept.lines ++ [(.stdout, line)], stdoutCount := kept.stdoutCount + 1 }
  | .stderr =>
    { kept with lines := kept.lines ++ [(.stderr, line)], stderrCount := kept.stderrCount + 1 }

def len (b : OutputBuffer) : ℕ := b.lines.length

def stdoutLines (b : OutputBuffer) : List String :=
  (b.lines.filter (·.1 = .stdout)).map (·.2)

def stderrLines (b : OutputBuffer) : List String :=
  (b.lines.filter (·.1 = .stderr)).map (·.2)

def allLines (b : OutputBuffer) : List (LineSource × String) := b.lines

end OutputBuffer

/-! ## The state -/

/-- Cached index of matching line numbers for filtered disk scrollback. -/
structure FilteredIndex where
  filter : String
  streamMode : StreamMode
  matchingLines : List ℕ
  /-- Number of disk lines scanned so far. -/
  scannedUpTo : ℕ
  deriving DecidableEq, Repr

inductive InputMode where
  | normal
  | filterInput
  deriving DecidableEq, Repr

structure App where
  processes : List ProcessInfo
  selected : ℕ
  buffers : String → Option OutputBuffer
  streamMode : StreamMode
  paused : Bool
  scrollOffsets : String → Option ℕ
  running : Bool
  stopAllOnQuit : Bool
  inputMode : InputMode
  /-- The filter text while the user is typing. -/
  filterBuf : String
  filter : Option String
  /-- Visible height of the output pane, set during render. -/
  visibleHeight : ℕ
  diskReaders : String → Option DiskLogReader
  filteredIndices : String → Option FilteredIndex

/-- What the clock says at each of the next looks. -/
abbrev Clock := ℕ → ℕ

/-- `a - b` on `usize`, which panics below zero; where the code saturates, `-` stands. -/
def checkedSub (a b : ℕ) : Except ReadError ℕ := if b ≤ a then .ok (a - b) else .error .panic

theorem checkedSub_of_le {a b : ℕ} (h : b ≤ a) : checkedSub a b = .ok (a - b) := if_pos h

namespace App

def new : App where
  processes := []
  selected := 0
  buffers _ := none
  streamMode := .stdout
  paused := false
  scrollOffsets _ := none
  running := true
  stopAllOnQuit := false
  inputMode := .normal
  filterBuf := ""
  filter := none
  visibleHeight := 20
  diskReaders _ := none
  filteredIndices _ := none

/-! ## The process list -/

def updateProcesses (processes : List ProcessInfo) (app : App) : App :=
  if processes.length ≤ app.selected ∧ processes ≠ [] then
    { app with processes, selected := processes.length - 1 }
  else { app with processes }

def selectedName (app : App) : Option String := app.processes[app.selected]?.map (·.name)

def selectNext (app : App) : App :=
  if app.processes = [] then app
  else { app with selected := (app.selected + 1) % app.processes.length }

def selectPrev (app : App) : App :=
  if app.processes = [] then app
  else if app.selected = 0 then { app with selected := app.processes.length - 1 }
  else { app with selected := app.selected - 1 }

/-! ## Counting lines -/

/-- Ask the reader of a process, if it has one. -/
def withReader {α : Type} (name : String) (absent : α) (ask : ClockedReader → α × ClockedReader)
    (clock : Clock) (app : App) : α × App × Clock :=
  match app.diskReaders name with
  | none => (absent, app, clock)
  | some reader =>
    let answer := ask ⟨reader, clock⟩
    (answer.1,
      { app with diskReaders := Function.update app.diskReaders name (some answer.2.reader) },
      answer.2.clock)

section Read

variable (disk : Disk) (name : String)

/-- Disk line count for the current stream mode. -/
def diskLineCount (clock : Clock) (app : App) : ℕ × App × Clock :=
  app.withReader name 0 (·.total disk app.streamMode) clock

/-- Hot buffer line count, optionally filtered by a substring pattern. -/
def hotLineCount (filter : Option String) (app : App) : ℕ :=
  match app.buffers name with
  | none => 0
  | some buf =>
    match filter, app.streamMode with
    | some pat, .stdout => (buf.stdoutLines.filter (contains · pat)).length
    | some pat, .stderr => (buf.stderrLines.filter (contains · pat)).length
    | some pat, .both => (buf.allLines.filter (contains ·.2 pat)).length
    | none, .stdout => buf.stdoutCount
    | none, .stderr => buf.stderrCount
    | none, .both => buf.len

/-- Total line count combining disk history and hot buffer. -/
def totalLineCount (clock : Clock) (app : App) : ℕ × App × Clock :=
  let hot := app.hotLineCount name none
  let counted := app.diskLineCount disk name clock
  (max counted.1 hot, counted.2)

/-- The matches an index of the process holds. -/
def matchCount (app : App) : ℕ := (app.filteredIndices name).elim 0 (·.matchingLines.length)

/-- Count visible lines for a process: the matches under a filter, else all lines. -/
def lineCountFor (clock : Clock) (app : App) : ℕ × App × Clock :=
  if app.filter.isSome then (app.matchCount name, app, clock)
  else app.totalLineCount disk name clock

/-! ## The visible window -/

/-- The scroll offset in effect: none unless paused. -/
def scrollOffset (app : App) : ℕ := if app.paused then (app.scrollOffsets name).getD 0 else 0

/-- Read a range from the hot buffer (no filter). -/
def hotBufferRange (start count : ℕ) (app : App) : List (LineSource × String) :=
  match app.buffers name with
  | none => []
  | some buf =>
    match app.streamMode with
    | .stdout => ((buf.stdoutLines.drop start).take count).map (LineSource.stdout, ·)
    | .stderr => ((buf.stderrLines.drop start).take count).map (LineSource.stderr, ·)
    | .both => (buf.allLines.drop start).take count

/-- Read a range from the disk reader; nothing if it cannot be read. -/
def diskReadRange (start count : ℕ) (clock : Clock) (app : App) :
    List (LineSource × String) × App × Clock :=
  app.withReader name [] (fun r =>
    let read := r.readRange disk app.streamMode start count
    (read.1.toOption.getD [], read.2)) clock

/-- Render the visible window of filtered lines. -/
def filteredVisibleLines (visibleHeight : ℕ) (clock : Clock) (app : App) :
    Except ReadError (List (LineSource × String) × App × Clock) := do
  let total := app.matchCount name
  if total = 0 then return ([], app, clock)
  let windowEnd := total - app.scrollOffset name
  let windowStart := windowEnd - visibleHeight
  let count ← checkedSub windowEnd windowStart
  if count = 0 then return ([], app, clock)
  let lineNumbers := (app.filteredIndices name).elim []
    fun fi => (fi.matchingLines.take windowEnd).drop windowStart
  return app.withReader name [] (·.readScatteredLines disk app.streamMode lineNumbers) clock

/-- Fetch exactly the visible window of lines for rendering. -/
def visibleLines (visibleHeight : ℕ) (clock : Clock) (app : App) :
    Except ReadError (List (LineSource × String) × App × Clock) := do
  if app.filter.isSome then
    app.filteredVisibleLines disk name visibleHeight clock
  else
    let (total, app, clock) := app.totalLineCount disk name clock
    let windowEnd := total - app.scrollOffset name
    let windowStart := windowEnd - visibleHeight
    let count ← checkedSub windowEnd windowStart
    if count = 0 then return ([], app, clock)
    let hotLen := app.hotLineCount name none
    let (diskCount, app, clock) := app.diskLineCount disk name clock
    -- lines before this come from disk, at or after from the hot buffer
    let diskBoundary := diskCount - hotLen
    if diskBoundary ≤ windowStart then
      let hotStart ← checkedSub windowStart diskBoundary
      return (app.hotBufferRange name hotStart count, app, clock)
    else if windowEnd ≤ diskBoundary then
      return app.diskReadRange disk name windowStart count clock
    else
      let diskPart ← checkedSub diskBoundary windowStart
      let hotPart ← checkedSub windowEnd diskBoundary
      let (lines, app, clock) := app.diskReadRange disk name windowStart diskPart clock
      return (lines ++ app.hotBufferRange name 0 hotPart, app, clock)

end Read

/-! ## Scrolling -/

def togglePause (app : App) : App :=
  let toggled := { app with paused := !app.paused }
  if toggled.paused then toggled
  else match app.selectedName with
    | none => toggled
    | some name => { toggled with scrollOffsets := Function.update app.scrollOffsets name none }

section Scroll

variable (disk : Disk)

/-- Scroll up by the given number of lines, at most to the top. -/
def scrollUpBy (lines : ℕ) (clock : Clock) (app : App) : App :=
  let paused := { app with paused := true }
  match paused.selectedName with
  | none => paused
  | some name =>
    let (count, app, _) := paused.lineCountFor disk name clock
    let maxOffset := count - app.visibleHeight
    let offset := min ((app.scrollOffsets name).getD 0 + lines) USIZE_MAX
    { app with scrollOffsets := Function.update app.scrollOffsets name (some (min offset maxOffset)) }

/-- Half a page. -/
def halfPage (app : App) : ℕ := max (app.visibleHeight / 2) 1

def scrollUp (clock : Clock) (app : App) : App := app.scrollUpBy disk app.halfPage clock

/-- Scroll down by the given number of lines; at the bottom, unpause. -/
def scrollDownBy (lines : ℕ) (app : App) : App :=
  match app.selectedName with
  | none => app
  | some name =>
    let offset := (app.scrollOffsets name).getD 0 - lines
    { app with
      scrollOffsets := Function.update app.scrollOffsets name (some offset)
      paused := if offset = 0 then false else app.paused }

def scrollDown (app : App) : App := app.scrollDownBy app.halfPage

def scrollToTop (clock : Clock) (app : App) : App :=
  let paused := { app with paused := true }
  match paused.selectedName with
  | none => paused
  | some name =>
    let (total, app, _) := paused.lineCountFor disk name clock
    { app with scrollOffsets := Function.update app.scrollOffsets name (some total) }

def scrollToBottom (app : App) : App :=
  match app.selectedName with
  | none => app
  | some name =>
    { app with scrollOffsets := Function.update app.scrollOffsets name none, paused := false }

end Scroll

/-! ## The filter -/

section Filter

variable (disk : Disk)

/-- Build or rebuild the filtered index for a process: scan, then count. -/
def buildFilteredIndex (name : String) (clock : Clock) (app : App) : App :=
  match app.filter with
  | none => app
  | some filter =>
    let mode := app.streamMode
    let (matchingLines, app, clock) :=
      app.withReader name [] (·.scanMatchingLines disk filter mode) clock
    let (scannedUpTo, app, _) := app.withReader name 0 (·.total disk mode) clock
    { app with
      filteredIndices := Function.update app.filteredIndices name
        (some ⟨filter, mode, matchingLines, scannedUpTo⟩) }

/-- Rebuild the indices of these processes, in this order. -/
def buildFilteredIndices (names : List String) (clocks : String → Clock) (app : App) : App :=
  names.foldl (fun app name => app.buildFilteredIndex disk name (clocks name)) app

/-- `names` are those with a disk reader, in the map's own order. -/
def cycleStreamMode (names : List String) (clocks : String → Clock) (app : App) : App :=
  let streamMode := match app.streamMode with
    | .stdout => StreamMode.stderr
    | .stderr => .both
    | .both => .stdout
  let app := { app with streamMode }
  if app.filter.isSome then app.buildFilteredIndices disk names clocks else app

def startFilter (app : App) : App :=
  { app with inputMode := .filterInput, filterBuf := app.filter.getD "" }

def confirmFilter (names : List String) (clocks : String → Clock) (app : App) : App :=
  if app.filterBuf = "" then
    { app with inputMode := .normal, filter := none, filteredIndices := fun _ => none }
  else
    let app := { app with inputMode := .normal, filter := some app.filterBuf }
    app.buildFilteredIndices disk names clocks

def cancelFilter (app : App) : App := { app with inputMode := .normal, filterBuf := "" }

def clearFilter (app : App) : App :=
  { app with filter := none, filterBuf := "", filteredIndices := fun _ => none }

/-- Scan new disk lines since the last scan and append the matches to the index. -/
def updateFilteredIndex (process : String) (clock : Clock) (app : App) : App :=
  match app.filteredIndices process, app.diskReaders process with
  | none, _ => app
  | _, none => app
  | some fi, some _ =>
    let (currentTotal, app, clock) := app.withReader process 0 (·.total disk fi.streamMode) clock
    if currentTotal ≤ fi.scannedUpTo then app
    else
      let (newMatches, app, _) := app.withReader process []
        (·.scanMatchingLinesFrom disk fi.filter fi.streamMode fi.scannedUpTo) clock
      { app with
        filteredIndices := Function.update app.filteredIndices process
          (some { fi with matchingLines := fi.matchingLines ++ newMatches, scannedUpTo := currentTotal }) }

/-- Push a line into the hot buffer of its process. -/
def bufferOutput (process : String) (stream : Stream) (line : String) (app : App) : App :=
  let buf := (app.buffers process).getD (.new MAX_BUFFER_LINES)
  { app with buffers := Function.update app.buffers process (some (buf.push stream.source line)) }

def pushOutput (process : String) (stream : Stream) (line : String) (clock : Clock) (app : App) :
    App :=
  let app := app.bufferOutput process stream line
  if app.filter.isSome then app.updateFilteredIndex disk process clock else app

end Filter

def quit (app : App) : App := { app with running := false }

def quitAndStop (app : App) : App := { app with stopAllOnQuit := true, running := false }

end App

end AgentProcs
