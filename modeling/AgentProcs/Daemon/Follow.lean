import AgentProcs.Protocol.Messages

/-!
# Daemon/Follow — a `Logs` request that follows the live output

    subscription ──line──▸ target? ──▸ stream? ──▸ LogLine ⋯ LogEnd

A follow request never looks at the process table or into a log file: it passes on those of the lines
it is subscribed to that carry its target as their process.
-/

namespace AgentProcs

/-- What the subscription delivers; the list ends with the timeout. -/
inductive FollowEvent where
  | recv (line : OutputLine)
  | lagged
  | closed
  deriving DecidableEq, Repr

/-- A follow request. -/
structure FollowRequest where
  target : Option String
  all : Bool
  stderrOnly : Bool
  maxLines : Option ℕ
  deriving DecidableEq, Repr

/-- The loop of `handle_follow_stream`: the responses to the events that come. -/
def streamLoop (req : FollowRequest) (lineCount : ℕ) : List FollowEvent → List Response
  | [] => []
  | .recv line :: events =>
    if !req.all && req.target.any (line.process != ·) then streamLoop req lineCount events
    else if req.stderrOnly && line.stream != .stderr then streamLoop req lineCount events
    else if !req.stderrOnly && (!req.all || req.target.isSome) && line.stream != .stdout then
      streamLoop req lineCount events
    else .logLine line.process line.stream line.line ::
      if req.maxLines.any (lineCount + 1 ≥ ·) then [] else streamLoop req (lineCount + 1) events
  | .lagged :: events => streamLoop req lineCount events
  | .closed :: _ => []

/-- Follow the live output until the timeout, the limit or the end of the channel. -/
def handleFollowStream (req : FollowRequest) (events : List FollowEvent) : List Response :=
  streamLoop req 0 events ++ [.logEnd]

end AgentProcs
