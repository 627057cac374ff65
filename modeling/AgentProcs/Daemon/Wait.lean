import AgentProcs.Logs.LogWriter

/-!
# Daemon/Wait — a `Wait` request, from the log on disk to the live output

    has_process ──▸ subscribe ──▸ scan <target>.stdout ──match──▸ WaitMatch
                                          └──none──▸ wait_for ──▸ the lines that arrive

The handler looks into one file, then at what the subscription delivers.  Each of the two looks
compiles the pattern on its own.  The regex library is third-party code: a parameter.
-/

namespace AgentProcs

/-- A regex library. -/
structure RegexEngine where
  Regex : Type
  new : String → Except String Regex
  isMatch : Regex → String → Bool

/-! ## Text -/

/-- `str::contains` -/
def contains (line pattern : String) : Bool := decide (pattern.toList <:+: line.toList)

/-- A line without its end, `\n` or `\r\n`. -/
def chompText (raw : List Char) : List Char :=
  match raw.reverse with
  | '\n' :: '\r' :: l => l.reverse
  | '\n' :: l => l.reverse
  | _ => raw

/-- `str::lines` -/
def textLines (content : String) : List String :=
  (splitLines '\n' content.toList).map fun raw => String.ofList (chompText raw)

/-- `read_to_string` -/
def Disk.readToString (path : FileName) (disk : Disk) : Option String :=
  (disk.read path).bind fun c => utf8? c.bytes

/-! ## The two scans -/

variable (E : RegexEngine)

/-- The compiled pattern decides if there is one. -/
def matched (compiled : Option E.Regex) (pattern line : String) : Bool :=
  match compiled with
  | some re => E.isMatch re line
  | none => contains line pattern

/-- The historical scan: a pattern that does not compile is looked for as it stands. -/
def scanLog (pattern : String) (regex : Bool) (content : String) : Option String :=
  let compiledRe := if regex then (E.new pattern).toOption else none
  (textLines content).find? fun line => matched E compiledRe pattern line

/-- What `wait_for` sees; its list of events ends with the timeout. -/
inductive WaitEvent where
  | recv (line : OutputLine)
  | lagged
  /-- The channel is closed; whether the process has exited is asked once more. -/
  | closed (exited : Option (Option ℤ))
  | exitPoll (exited : Option (Option ℤ))
  deriving DecidableEq, Repr

def waitLoop (target : String) (pattern : Option String) (compiledRegex : Option E.Regex)
    (waitExit : Bool) : List WaitEvent → Response
  | [] => .waitTimeout
  | .recv line :: events =>
    if line.process ≠ target then waitLoop target pattern compiledRegex waitExit events
    else match pattern with
      | some pat =>
        if matched E compiledRegex pat line.line then .waitMatch line.line
        else waitLoop target pattern compiledRegex waitExit events
      | none => waitLoop target pattern compiledRegex waitExit events
  | .lagged :: events => waitLoop target pattern compiledRegex waitExit events
  | .closed exited :: _ =>
    match waitExit, exited with
    | true, some exitCode => .waitExited exitCode
    | _, _ => .error .general "output channel closed"
  | .exitPoll exited :: events =>
    match waitExit, exited with
    | true, some exitCode => .waitExited exitCode
    | _, _ => waitLoop target pattern compiledRegex waitExit events

/-- Wait for a condition on a process's output; `exited` is the answer to the question put before the
loop. -/
def waitFor (target : String) (pattern : Option String) (useRegex waitExit : Bool)
    (exited : Option (Option ℤ)) (events : List WaitEvent) : Response :=
  let compiledRegex : Except String (Option E.Regex) :=
    match useRegex, pattern with
    | true, some p => (E.new p).map some
    | _, _ => .ok none
  match compiledRegex with
  | .error e => .error .general s!"invalid regex: {e}"
  | .ok compiledRegex =>
    match waitExit, exited with
    | true, some exitCode => .waitExited exitCode
    | _, _ => waitLoop E target pattern compiledRegex waitExit events

/-- What one request meets. -/
structure WaitScene where
  hasProcess : Bool
  /-- The log file, if it can be read. -/
  content : Option String
  exited : Option (Option ℤ)
  events : List WaitEvent

/-- The `Wait` arm of `handle_request`. -/
def handleWait (target : String) (untilPattern : Option String) (regex exit : Bool)
    (w : WaitScene) : Response :=
  if w.hasProcess = false then .error .notFound s!"process not found: {target}"
  else
    match untilPattern.bind fun pattern => w.content.bind fun content =>
        scanLog E pattern regex content with
    | some line => .waitMatch line
    | none => waitFor E target untilPattern regex exit w.exited w.events

/-- What kind of answer a client gets. -/
inductive AnswerKind where
  | found
  | exited
  | timedOut
  | failed
  | other
  deriving DecidableEq, Repr

def Response.kind : Response → AnswerKind
  | .waitMatch _ => .found
  | .waitExited _ => .exited
  | .waitTimeout => .timedOut
  | .error _ _ => .failed
  | _ => .other

end AgentProcs
