import AgentProcs.Machinery.BufferedLines
import AgentProcs.Protocol.Messages

/-!
# Daemon/Connection — the loop that reads the requests of one client

    socket ──▸ take(MAX_MESSAGE_SIZE) ──▸ BufReader ──read_line──▸ from_str ──▸ handler

Each turn reads one line through the limited reader, and leaves the loop when there is none, when it
is not text, or when it is too long.  Any other line is handed to the parser; the limit is set anew,
and the loop goes on unless the request is a `Shutdown`.  The reader is third-party code, and so is
the parser: both are parameters.
-/

namespace AgentProcs

/-- Maximum allowed size (in bytes) for a single JSON message line. -/
def MAX_MESSAGE_SIZE : ℕ := 1024 * 1024

/-- The JSON of requests, as the serializer writes and reads it. -/
structure RequestJson where
  encode : Request → String
  fromStr : String → Except String Request

/-- Serialize a request and write it to the socket. -/
def RequestJson.sendRequest (json : RequestJson) (req : Request) : List UInt8 :=
  utf8 (json.encode req ++ "\n")

/-- What a turn of the loop makes of the line it has read. -/
inductive LineTurn where
  /-- The line went to the parser, with this result. -/
  | handed (line : List UInt8) (request : Except String Request)
  | tooLarge (line : List UInt8)
  /-- End of the stream, or not text. -/
  | closed (line : List UInt8)

namespace LineTurn

/-- The line buffer at the end of the turn. -/
def line : LineTurn → List UInt8
  | handed line _ => line
  | tooLarge line => line
  | closed line => line

/-- The line the parser was given. -/
def handedLine? : LineTurn → Option (List UInt8)
  | handed line _ => some line
  | _ => none

/-- What the loop itself answers; requests are answered by their handlers. -/
def response? : LineTurn → Option Response
  | handed _ (.error e) => some (.error .general s!"invalid request: {e}")
  | tooLarge line => some (.error .general
      s!"message too large: {line.length} bytes (max {MAX_MESSAGE_SIZE})")
  | _ => none

end LineTurn

namespace RequestJson

variable (json : RequestJson)

/-- The turn that reads this line. -/
def turn (line : List UInt8) : LineTurn :=
  if line = [] then .closed line
  else match utf8? line with
    | none => .closed line
    | some text =>
      if MAX_MESSAGE_SIZE ≤ line.length then .tooLarge line
      else .handed line (json.fromStr text)

end RequestJson

/-- Whether there is a turn after this one.  A request that is not a `Shutdown` may still hold the
loop forever: `comesBack n` tells of which requests, handed over as number `n`, the handler returns. -/
def LineTurn.goesOn (comesBack : ℕ → Request → Bool) (n : ℕ) : LineTurn → Bool
  | handed _ (.ok .shutdown) => false
  | handed _ (.ok req) => comesBack n req
  | handed _ (.error _) => true
  | tooLarge _ => false
  | closed _ => false

section Loop

variable {ρ : Type*} (R : LimitedReader UInt8 ρ) (json : RequestJson)
  (comesBack : ℕ → Request → Bool)

/-- A turn that goes on has read something. -/
theorem readLine_ne_nil_of_goesOn {n : ℕ} {r : ρ}
    (h : (json.turn (R.readLine NEWLINE r).1).goesOn comesBack n = true) :
    (R.readLine NEWLINE r).1 ≠ [] := by
  intro hnil
  simp [hnil, RequestJson.turn, LineTurn.goesOn] at h

/-- The turns of the connection loop from its `n`-th on, up to the one that leaves it. -/
def connection (n : ℕ) (r : ρ) : List LineTurn :=
  let turn := json.turn (R.readLine NEWLINE r).1
  if turn.goesOn comesBack n then
    turn :: connection (n + 1) (R.setLimit (R.readLine NEWLINE r).2 MAX_MESSAGE_SIZE)
  else [turn]
termination_by (R.pending r).length
decreasing_by
  have hne := readLine_ne_nil_of_goesOn R json comesBack ‹_›
  rw [R.pending_setLimit, ← R.readLine_pending NEWLINE r, List.length_append]
  exact Nat.lt_add_of_pos_left (List.length_pos_iff.mpr hne)

/-- The lines the parser was given, in order. -/
def handedLines (turns : List LineTurn) : List (List UInt8) := turns.filterMap LineTurn.handedLine?

end Loop

end AgentProcs
