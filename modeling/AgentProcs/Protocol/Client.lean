import AgentProcs.Daemon.FollowLimit
import AgentProcs.Machinery.Lines
import AgentProcs.Protocol.Wire

/-!
# Protocol/Client — what a client makes of the bytes it gets back

    {"type":"LogLine", …}⏎ {"type":"LogLine", …}⏎ {"type":"LogEnd"}⏎     printed, printed, exit 0
    {"type":"LogLine", …}⏎ {"type":"LogL ✂                               printed, exit 1
    {"type":"LogLine", …}⏎ {"type":"LogL{"type":"LogEnd"}⏎               printed, exit 1

A client of a follow request reads the answer a line at a time, up to the first that is no log line.
The connection may break at any byte, and the timeout may come in the middle of a message, behind
which the end is then written.  How the text of a message is written and parsed is the serializer's
affair, and a parameter.
-/

namespace AgentProcs

/-- Errors from the CLI client communicating with the daemon. -/
inductive ClientError where
  | noDaemon
  | spawnFailed (source : String)
  | connectionFailed (source : String)
  | serialize (source : String)
  | write (source : String)
  | flush (source : String)
  | read (source : String)
  | parseResponse (source : String)
  deriving DecidableEq, Repr

/-- What a request comes back with. -/
abbrev ClientResult := Except ClientError Response

def ErrorCode.exitCode (code : ErrorCode) : ℤ := code.toI32

/-- The JSON of responses, as the serializer writes and reads it. -/
structure ResponseJson where
  encode : Response → String
  fromStr : String → Except String Response

/-- What `read_line` says of bytes that are no text. -/
def notUtf8 : String := "stream did not contain valid UTF-8"

namespace ResponseJson

variable (json : ResponseJson)

/-- Serialize a response and write it to the socket. -/
def sendResponse (resp : Response) : List UInt8 := utf8 (json.encode resp ++ "\n")

/-- A line that was read, as a response. -/
def parseLine (line : List UInt8) : ClientResult :=
  match utf8? line with
  | none => .error (.read notUtf8)
  | some text => (json.fromStr text).mapError .parseResponse

theorem length_takeLine_snd_lt {bytes : List UInt8} (h : bytes ≠ []) :
    (takeLine NEWLINE bytes).2.length < bytes.length := by
  have hlen := congrArg List.length (takeLine_append NEWLINE bytes)
  have hpos : 0 < (takeLine NEWLINE bytes).1.length := by
    cases bytes with
    | nil => exact absurd rfl h
    | cons b bytes =>
      rw [takeLine]
      split_ifs <;> simp
  rw [List.length_append] at hlen
  omega

/-- Read streaming responses until one that is no log line: the lines `on_line` was called with, and
the terminal response. -/
def streamResponses (bytes : List UInt8) : List OutputLine × ClientResult :=
  if _ : bytes = [] then ([], .ok .logEnd)
  else match json.parseLine (takeLine NEWLINE bytes).1 with
    | .ok (.logLine process stream line) =>
      (⟨process, stream, line⟩ :: (streamResponses (takeLine NEWLINE bytes).2).1,
        (streamResponses (takeLine NEWLINE bytes).2).2)
    | .ok resp => ([], .ok resp)
    | .error e => ([], .error e)
termination_by bytes.length
decreasing_by
  all_goals exact length_takeLine_snd_lt ‹_›

/-- The terminal interface's reader: what it makes nothing of it passes over. -/
def outputStreamReader (bytes : List UInt8) : List OutputLine :=
  if _ : bytes = [] then []
  else match json.parseLine (takeLine NEWLINE bytes).1 with
    | .ok (.logLine process stream line) =>
      ⟨process, stream, line⟩ :: outputStreamReader (takeLine NEWLINE bytes).2
    | .ok .logEnd => []
    | .error (.read _) => []
    | _ => outputStreamReader (takeLine NEWLINE bytes).2
termination_by bytes.length
decreasing_by
  all_goals exact length_takeLine_snd_lt ‹_›

/-- What a follow request writes to its connection.  The timeout comes when so many bytes of log
lines are written, if there are more of them. -/
def followBytes (req : FollowRequest) (written : ℕ) (events : List FollowEvent) : List UInt8 :=
  ((streamLoop req 0 events).flatMap json.sendResponse).take written ++ json.sendResponse .logEnd

end ResponseJson

/-- The exit code of `logs --follow`, from the terminal response. -/
def followExit : ClientResult → ℤ
  | .ok (.error code _) => code.exitCode
  | .ok _ => 0
  | .error _ => 1

/-! ## What the clients read -/

/-- The line a response carries. -/
def Response.asLine : Response → Option OutputLine
  | .logLine process stream line => some ⟨process, stream, line⟩
  | _ => none

/-- `streamResponses`, of what the lines are read as. -/
def readStream : List ClientResult → List OutputLine × ClientResult
  | [] => ([], .ok .logEnd)
  | .ok (.logLine process stream line) :: rest =>
    (⟨process, stream, line⟩ :: (readStream rest).1, (readStream rest).2)
  | .ok resp :: _ => ([], .ok resp)
  | .error e :: _ => ([], .error e)

/-- `outputStreamReader`, of what the lines are read as. -/
def readOutput : List ClientResult → List OutputLine
  | [] => []
  | .ok (.logLine process stream line) :: rest => ⟨process, stream, line⟩ :: readOutput rest
  | .ok .logEnd :: _ => []
  | .error (.read _) :: _ => []
  | _ :: rest => readOutput rest

namespace ResponseJson

variable (json : ResponseJson)

/-- What the lines of these bytes are read as. -/
def parses (bytes : List UInt8) : List ClientResult := (splitLines NEWLINE bytes).map json.parseLine

theorem parses_cons {bytes : List UInt8} (h : bytes ≠ []) : json.parses bytes =
    json.parseLine (takeLine NEWLINE bytes).1 :: json.parses (takeLine NEWLINE bytes).2 := by
  rw [parses, splitLines_takeLine h, List.map_cons, parses]

theorem streamResponses_eq (bytes : List UInt8) :
    json.streamResponses bytes = readStream (json.parses bytes) := by
  fun_induction streamResponses json bytes with
  | case1 => rfl
  | case2 bytes hne process stream line hline ih₁ =>
    rw [parses_cons json hne, hline, readStream, ih₁]
  | case3 bytes hne resp hresp hline =>
    rw [parses_cons json hne, hline]
    cases resp with
    | logLine process stream line => exact absurd rfl (hresp process stream line)
    | _ => rfl
  | case4 bytes hne e hline => rw [parses_cons json hne, hline, readStream]

theorem outputStreamReader_eq (bytes : List UInt8) :
    json.outputStreamReader bytes = readOutput (json.parses bytes) := by
  fun_induction outputStreamReader json bytes with
  | case1 => rfl
  | case2 bytes hne process stream line hline ih₁ =>
    rw [parses_cons json hne, hline, readOutput, ih₁]
  | case3 bytes hne hline => rw [parses_cons json hne, hline, readOutput]
  | case4 bytes hne source hline => rw [parses_cons json hne, hline, readOutput]
  | case5 bytes hne hlogLine hlogEnd hread ih₁ =>
    rw [parses_cons json hne, ih₁, readOutput]
    · exact hlogLine
    · exact hlogEnd
    · exact hread

end ResponseJson

/-! ## A stream of messages, cut -/

/-- The message is one line of text, is read as what it was written for, with or without its end of
line, and a beginning of it is nothing at all, nor is one with the end of a stream behind it. -/
structure Delivers (json : ResponseJson) (resp : Response) : Prop where
  newlineFree : NEWLINE ∉ utf8 (json.encode resp)
  nonempty : utf8 (json.encode resp) ≠ []
  decodes : json.fromStr (json.encode resp ++ "\n") = .ok resp
  unterminated : json.fromStr (json.encode resp) = .ok resp
  torn : ∀ text part, utf8 text ++ part = utf8 (json.encode resp) → part ≠ [] →
    ∃ e, json.fromStr text = .error e
  glued : ∀ text part more, part <+: utf8 (json.encode resp) → part ≠ [] →
    more <+: json.sendResponse .logEnd → more ≠ [] → utf8 text = part ++ more →
      ∃ e, json.fromStr text = .error e

section Cut

variable {json : ResponseJson} {resp : Response} {resps : List Response} {eol k : ℕ}

/-- **Of messages of which `k` bytes are there**, those whose text is all there, with so many bytes
of its end of line, and whether the cut goes through one. -/
def intact (json : ResponseJson) (eol : ℕ) : ℕ → List Response → List Response × Bool
  | _, [] => ([], false)
  | k, resp :: resps =>
    if (utf8 (json.encode resp)).length + eol ≤ k then
      (resp :: (intact json eol (k - (utf8 (json.encode resp)).length - 1) resps).1,
        (intact json eol (k - (utf8 (json.encode resp)).length - 1) resps).2)
    else ([], decide (0 < k))

theorem intact_of_le (hle : (utf8 (json.encode resp)).length + eol ≤ k) :
    intact json eol k (resp :: resps) =
      (resp :: (intact json eol (k - (utf8 (json.encode resp)).length - 1) resps).1,
        (intact json eol (k - (utf8 (json.encode resp)).length - 1) resps).2) :=
  if_pos hle

theorem intact_of_lt (hlt : k < (utf8 (json.encode resp)).length + eol) :
    intact json eol k (resp :: resps) = ([], decide (0 < k)) :=
  if_neg (Nat.not_le_of_lt hlt)

/-- Nothing is intact of a stream cut at its start. -/
theorem intact_zero (h : ∀ r ∈ resps, Delivers json r) : intact json eol 0 resps = ([], false) := by
  cases resps with
  | nil => rfl
  | cons resp resps =>
    have hpos := List.length_pos_iff.mpr (h resp List.mem_cons_self).nonempty
    rw [intact_of_lt (by omega)]
    rfl

/-- What is intact is a beginning of what was sent. -/
theorem intact_beginning (json : ResponseJson) (eol k : ℕ) (resps : List Response) :
    (intact json eol k resps).1 <+: resps := by
  induction resps generalizing k with
  | nil => exact List.nil_prefix
  | cons resp resps ih =>
    rw [intact]
    split_ifs
    · exact (List.prefix_cons_inj resp).mpr (ih _)
    · exact List.nil_prefix

theorem sendResponse_eq (json : ResponseJson) (resp : Response) :
    json.sendResponse resp = utf8 (json.encode resp) ++ [NEWLINE] := by
  rw [ResponseJson.sendResponse, utf8_append]
  rfl

namespace ResponseJson

theorem parseLine_utf8 (text : String) :
    json.parseLine (utf8 text) = (json.fromStr text).mapError .parseResponse := by
  rw [parseLine, utf8?_utf8]

/-- The text of a message, at the end of the stream, is the message. -/
theorem parseLine_text (h : Delivers json resp) :
    json.parseLine (utf8 (json.encode resp)) = .ok resp := by
  rw [parseLine_utf8, h.unterminated]
  rfl

/-- … and so it is with its end of line. -/
theorem parseLine_line (h : Delivers json resp) :
    json.parseLine (utf8 (json.encode resp) ++ [NEWLINE]) = .ok resp := by
  rw [← sendResponse_eq, sendResponse, parseLine_utf8, h.decodes]
  rfl

/-- What is no text, or none that can be read, is an error. -/
theorem parseLine_error {bytes : List UInt8}
    (h : ∀ text, utf8 text = bytes → ∃ e, json.fromStr text = .error e) :
    ∃ e, json.parseLine bytes = .error e := by
  rw [parseLine]
  cases htext : utf8? bytes with
  | none => exact ⟨_, rfl⟩
  | some text =>
    obtain ⟨e, he⟩ := h text (utf8_of_utf8? htext)
    exact ⟨.parseResponse e, congrArg (Except.mapError ClientError.parseResponse) he⟩

/-- **A beginning of a message** is read as none. -/
theorem parseLine_torn (h : Delivers json resp) (hlt : k < (utf8 (json.encode resp)).length) :
    ∃ e, json.parseLine ((utf8 (json.encode resp)).take k) = .error e := by
  refine parseLine_error fun text htext => h.torn text ((utf8 (json.encode resp)).drop k) ?_ ?_
  · rw [htext, List.take_append_drop]
  · simpa using hlt

/-- **So is one with the end of a stream behind it.** -/
theorem parseLine_glued (h : Delivers json resp) {part more : List UInt8}
    (hpart : part <+: utf8 (json.encode resp)) (hne : part ≠ [])
    (hmore : more <+: json.sendResponse .logEnd) (hne' : more ≠ []) :
    ∃ e, json.parseLine (part ++ more) = .error e :=
  parseLine_error fun text htext => h.glued text part more hpart hne hmore hne' htext

/-! ## One message -/

theorem parses_nil (json : ResponseJson) : json.parses [] = [] := rfl

theorem parses_of_notMem {bytes : List UInt8} (h : NEWLINE ∉ bytes) (hne : bytes ≠ []) :
    json.parses bytes = [json.parseLine bytes] := by
  rw [parses, splitLines_of_notMem h hne]
  rfl

theorem length_sendResponse (json : ResponseJson) (resp : Response) :
    (json.sendResponse resp).length = (utf8 (json.encode resp)).length + 1 := by
  rw [sendResponse_eq, List.length_append, List.length_singleton]

/-- A message that is all there, and more. -/
theorem parses_sendResponse (h : Delivers json resp) (rest : List UInt8) :
    json.parses (json.sendResponse resp ++ rest) = .ok resp :: json.parses rest := by
  rw [parses, sendResponse_eq, List.append_assoc, List.singleton_append,
    splitLines_line h.newlineFree, List.map_cons, parseLine_line h, parses]

/-- A message whose end of line is not there. -/
theorem parses_text (h : Delivers json resp) (hle : k ≤ (utf8 (json.encode resp)).length)
    (hrest : ∀ r ∈ resps, Delivers json r) : ∃ e, json.parses ((utf8 (json.encode resp)).take k) =
      (intact json 0 k (resp :: resps)).1.map .ok ++
        if (intact json 0 k (resp :: resps)).2 then [.error e] else [] := by
  have hfree : NEWLINE ∉ (utf8 (json.encode resp)).take k :=
    fun hmem => h.newlineFree (List.mem_of_mem_take hmem)
  rcases Nat.eq_zero_or_pos k with rfl | hpos
  · rw [intact_zero (List.forall_mem_cons.mpr ⟨h, hrest⟩), List.take_zero]
    exact ⟨.noDaemon, rfl⟩
  have hne : (utf8 (json.encode resp)).take k ≠ [] :=
    List.ne_nil_of_length_pos (by rw [List.length_take]; omega)
  rw [parses_of_notMem hfree hne]
  rcases Nat.lt_or_eq_of_le hle with hlt | rfl
  · obtain ⟨e, he⟩ := parseLine_torn h hlt
    rw [he, intact_of_lt (by omega), decide_eq_true hpos]
    exact ⟨e, rfl⟩
  · have hnone : (utf8 (json.encode resp)).length - (utf8 (json.encode resp)).length - 1 = 0 := by
      omega
    rw [intact_of_le (by omega), hnone, intact_zero hrest, List.take_length, parseLine_text h]
    exact ⟨.noDaemon, rfl⟩

/-- The end of a stream, as far as it is there. -/
theorem parses_end (hend : Delivers json .logEnd) (k : ℕ) : ∃ e,
    json.parses ((json.sendResponse .logEnd).take k) =
      if (intact json 0 k [.logEnd]).2 then [.error e]
      else if k = 0 then [] else [.ok .logEnd] := by
  by_cases hle : k ≤ (utf8 (json.encode .logEnd)).length
  · have hrest : ∀ r ∈ ([] : List Response), Delivers json r := by simp
    obtain ⟨e, he⟩ := parses_text hend hle hrest
    refine ⟨e, ?_⟩
    rw [sendResponse_eq, List.take_append_of_le_length hle, he]
    rcases Nat.lt_or_eq_of_le hle with hlt | rfl
    · rw [intact_of_lt (by omega)]
      by_cases hzero : k = 0 <;> simp [hzero, Nat.pos_iff_ne_zero]
    · have hpos := List.length_pos_iff.mpr hend.nonempty
      rw [intact_of_le (by omega), if_neg (by omega : ¬ (utf8 (json.encode .logEnd)).length = 0)]
      rfl
  · have hlen := length_sendResponse json .logEnd
    have hwhole := parses_sendResponse hend []
    rw [List.append_nil] at hwhole
    rw [List.take_of_length_le (by omega), hwhole, intact_of_le (by omega), parses_nil,
      if_neg (by omega : ¬ k = 0)]
    exact ⟨.noDaemon, rfl⟩

/-- A beginning of a message and a beginning of the end are one line, and no message. -/
theorem parses_glued (h : Delivers json resp) (hend : Delivers json .logEnd) {b j : ℕ} (hb : 0 < b)
    (hle : b ≤ (utf8 (json.encode resp)).length) (hj : 0 < j) : ∃ e,
    json.parses ((utf8 (json.encode resp)).take b ++ (json.sendResponse .logEnd).take j) =
      [.error e] := by
  have hpart : (utf8 (json.encode resp)).take b ≠ [] :=
    List.ne_nil_of_length_pos (by rw [List.length_take]; omega)
  have hmore : (json.sendResponse .logEnd).take j ≠ [] :=
    List.ne_nil_of_length_pos (by rw [List.length_take, length_sendResponse]; omega)
  obtain ⟨e, he⟩ := parseLine_glued h (List.take_prefix ..) hpart (List.take_prefix ..) hmore
  have hfree : NEWLINE ∉ (utf8 (json.encode resp)).take b :=
    fun hmem => h.newlineFree (List.mem_of_mem_take hmem)
  by_cases hwhole : j ≤ (utf8 (json.encode .logEnd)).length
  · refine ⟨e, ?_⟩
    rw [parses_of_notMem _ (List.append_ne_nil_of_left_ne_nil hpart _), he]
    rw [sendResponse_eq, List.take_append_of_le_length hwhole, List.mem_append, not_or]
    exact ⟨hfree, fun hmem => hend.newlineFree (List.mem_of_mem_take hmem)⟩
  · have hlen := length_sendResponse json .logEnd
    rw [List.take_of_length_le (l := json.sendResponse .logEnd) (by omega)] at he ⊢
    refine ⟨e, ?_⟩
    rw [sendResponse_eq] at he ⊢
    have hfree' : NEWLINE ∉ (utf8 (json.encode resp)).take b ++ utf8 (json.encode .logEnd) := by
      rw [List.mem_append, not_or]
      exact ⟨hfree, hend.newlineFree⟩
    rw [← List.append_assoc, parses, splitLines_line (r := []) hfree', List.append_assoc,
      splitLines_nil, List.map_singleton, he]

/-! ## The whole stream -/

/-- A stream that is given up after `b` bytes, ended, and cut within its first message. -/
theorem take_within {b k : ℕ} (hkb : k ≤ b) (hk : k ≤ (utf8 (json.encode resp)).length)
    (rest ending : List UInt8) : ((json.sendResponse resp ++ rest).take b ++ ending).take k =
      (utf8 (json.encode resp)).take k := by
  have hshort : k ≤ ((json.sendResponse resp ++ rest).take b).length := by
    rw [List.length_take, List.length_append, length_sendResponse]
    omega
  rw [List.take_append_of_le_length hshort, List.take_take, Nat.min_eq_left hkb, sendResponse_eq,
    List.append_assoc, List.take_append_of_le_length hk]

/-- One that is cut after it. -/
theorem take_after (json : ResponseJson) (resp : Response) (b k : ℕ) (rest ending : List UInt8) :
    ((json.sendResponse resp ++ rest).take ((json.sendResponse resp).length + b) ++ ending).take
      ((json.sendResponse resp).length + k) =
        json.sendResponse resp ++ (rest.take b ++ ending).take k := by
  rw [List.take_length_add_append, List.append_assoc, List.take_length_add_append]

/-- One that is given up within it. -/
theorem take_givenUp {b k : ℕ} (hb : b ≤ (utf8 (json.encode resp)).length) (hbk : b ≤ k)
    (rest ending : List UInt8) : ((json.sendResponse resp ++ rest).take b ++ ending).take k =
      (utf8 (json.encode resp)).take b ++ ending.take (k - b) := by
  have hlength : ((utf8 (json.encode resp)).take b).length = b := by
    rw [List.length_take]
    omega
  rw [sendResponse_eq, List.append_assoc, List.take_append_of_le_length hb, List.take_append,
    List.take_of_length_le (by omega), hlength]

/-- **What a client reads of a stream** that is given up after `b` bytes of messages, ended, and cut
after `k` bytes. -/
theorem parses_cut (h : ∀ r ∈ resps, Delivers json r) (hend : Delivers json .logEnd) {b k kept : ℕ}
    (hkept : kept = min b (resps.flatMap json.sendResponse).length)
    (heol : eol = if k ≤ kept then 0 else 1) : ∃ e,
    json.parses (((resps.flatMap json.sendResponse).take b ++ json.sendResponse .logEnd).take k) =
      (intact json eol (min k b) resps).1.map .ok ++
        if (intact json eol (min k b) resps).2 ∨ (intact json 0 (k - kept) [.logEnd]).2
          then [.error e]
        else if k ≤ kept then [] else [.ok .logEnd] := by
  induction resps generalizing b k kept eol with
  | nil =>
    obtain ⟨e, he⟩ := parses_end hend k
    refine ⟨e, ?_⟩
    have hzero : kept = 0 := by simpa using hkept
    subst hzero
    simpa [intact] using he
  | cons resp resps ih =>
    have hfirst : Delivers json resp := h _ List.mem_cons_self
    have hrest : ∀ r ∈ resps, Delivers json r := fun r hr => h r (List.mem_cons_of_mem _ hr)
    have hlen := length_sendResponse json resp
    have hpos := List.length_pos_iff.mpr hfirst.nonempty
    have hnone : intact json 0 0 [.logEnd] = ([], false) := intact_zero (by simpa using hend)
    rw [List.flatMap_cons, List.length_append, hlen] at hkept
    rw [List.flatMap_cons]
    by_cases hk : k ≤ b ∧ k ≤ (utf8 (json.encode resp)).length
    · -- The cut is in the message, or before its end of line.
      obtain ⟨hkb, hktext⟩ := hk
      have hle : k ≤ kept := by omega
      obtain ⟨e, he⟩ := parses_text hfirst hktext hrest
      refine ⟨e, ?_⟩
      rw [take_within hkb hktext, he, heol, if_pos hle, if_pos hle, Nat.min_eq_left hkb,
        Nat.sub_eq_zero_of_le hle, hnone]
      simp
    by_cases hb : (utf8 (json.encode resp)).length + 1 ≤ b
    · -- The message is all there, and the rest is a stream that is given up and cut earlier.
      obtain ⟨b, rfl⟩ := Nat.exists_eq_add_of_le hb
      obtain ⟨k, rfl⟩ := Nat.exists_eq_add_of_le
        (show (utf8 (json.encode resp)).length + 1 ≤ k by omega)
      have hle : (utf8 (json.encode resp)).length + 1 + k ≤ kept ↔
          k ≤ min b (resps.flatMap json.sendResponse).length := by omega
      obtain ⟨e, he⟩ := ih hrest rfl (heol.trans (if_congr hle rfl rfl))
      have heol' : eol ≤ 1 := by
        rw [heol]
        split_ifs <;> omega
      have hmin : min ((utf8 (json.encode resp)).length + 1 + k)
          ((utf8 (json.encode resp)).length + 1 + b) - (utf8 (json.encode resp)).length - 1 =
            min k b := by omega
      have hsub : (utf8 (json.encode resp)).length + 1 + k - kept =
          k - min b (resps.flatMap json.sendResponse).length := by omega
      refine ⟨e, ?_⟩
      rw [intact_of_le (by omega), hmin, hsub, if_congr hle rfl rfl, ← hlen, take_after,
        parses_sendResponse hfirst, he]
      rfl
    · -- The message is given up, and the end is behind it.
      have hkept' : kept = b := by omega
      have hgt : ¬ k ≤ b := by omega
      rw [take_givenUp (by omega) (by omega), heol, hkept', if_neg hgt, Nat.min_eq_right (by omega)]
      rcases Nat.eq_zero_or_pos b with rfl | hbpos
      · obtain ⟨e, he⟩ := parses_end hend k
        refine ⟨e, ?_⟩
        rw [intact_zero h, Nat.sub_zero, List.take_zero, List.nil_append, he]
        simp [show k ≠ 0 by omega]
      · obtain ⟨e, he⟩ := parses_glued hfirst hend hbpos (by omega) (show 0 < k - b by omega)
        refine ⟨e, ?_⟩
        rw [he, intact_of_lt (by omega), decide_eq_true hbpos]
        simp

end ResponseJson

end Cut

/-! ## A follow request -/

section Follow

variable {json : ResponseJson} {req : FollowRequest} {events : List FollowEvent}

/-- What a follow request passes on, as messages. -/
theorem streamLoop_eq (req : FollowRequest) (events : List FollowEvent) :
    streamLoop req 0 events = (allowed req 0 (req.selected events)).map OutputLine.toResponse := by
  rw [← streamLoopUntil_none, streamLoopUntil_eq (by simp)]
  rfl

theorem filterMap_asLine (lines : List OutputLine) :
    (lines.map OutputLine.toResponse).filterMap Response.asLine = lines := by
  rw [List.filterMap_map]
  exact List.filterMap_some ..

/-- Lines that are read, whatever comes after them. -/
theorem readStream_lines (lines : List OutputLine) (rest : List ClientResult) :
    readStream ((lines.map OutputLine.toResponse).map .ok ++ rest) =
      (lines ++ (readStream rest).1, (readStream rest).2) := by
  induction lines with
  | nil => rfl
  | cons line lines ih =>
    rw [List.map_cons, List.map_cons, List.cons_append, OutputLine.toResponse, readStream, ih]
    rfl

theorem readOutput_lines (lines : List OutputLine) (rest : List ClientResult) :
    readOutput ((lines.map OutputLine.toResponse).map .ok ++ rest) = lines ++ readOutput rest := by
  induction lines with
  | nil => rfl
  | cons line lines ih =>
    rw [List.map_cons, List.map_cons, List.cons_append, OutputLine.toResponse, readOutput, ih]
    rfl

/-- **A follow request whose timeout may come in the middle of a message, over a connection that may
break at any byte.**  What the command prints, and what the terminal interface is given, are the
lines whose messages came through, in order, a beginning of those the daemon passes on; and the
command fails exactly if a message was given up in the middle, or the break goes through one. -/
theorem follow_received (h : ∀ r ∈ streamLoop req 0 events, Delivers json r)
    (hend : Delivers json .logEnd) (written k : ℕ) :
    let received := (json.followBytes req written events).take k
    let kept := min written ((streamLoop req 0 events).flatMap json.sendResponse).length
    let came := intact json (if k ≤ kept then 0 else 1) (min k written) (streamLoop req 0 events)
    (json.streamResponses received).1 = came.1.filterMap Response.asLine ∧
    (json.streamResponses received).1 <+: allowed req 0 (req.selected events) ∧
    json.outputStreamReader received = (json.streamResponses received).1 ∧
    (followExit (json.streamResponses received).2 = 0 ↔
      came.2 = false ∧ (intact json 0 (k - kept) [.logEnd]).2 = false) := by
  intro received kept came
  obtain ⟨e, hparses⟩ := ResponseJson.parses_cut h hend (b := written) (k := k) rfl rfl
  obtain ⟨lines, hprefix, hlines⟩ : ∃ lines, lines <+: allowed req 0 (req.selected events) ∧
      came.1 = lines.map OutputLine.toResponse := by
    have hbeginning := intact_beginning json (if k ≤ kept then 0 else 1) (min k written)
      (streamLoop req 0 events)
    rw [List.prefix_iff_eq_take, streamLoop_eq, ← List.map_take, ← streamLoop_eq] at hbeginning
    exact ⟨_, List.take_prefix .., hbeginning⟩
  obtain ⟨ending, hending⟩ : ∃ ending : List ClientResult,
      ending = if came.2 ∨ (intact json 0 (k - kept) [.logEnd]).2 then [.error e]
        else if k ≤ kept then [] else [.ok .logEnd] := ⟨_, rfl⟩
  have hreceived : json.parses received = (lines.map OutputLine.toResponse).map .ok ++ ending := by
    rw [← hlines, hending]
    exact hparses
  have hterminal : (readStream ending).1 = [] ∧ readOutput ending = [] ∧
      (followExit (readStream ending).2 = 0 ↔
        came.2 = false ∧ (intact json 0 (k - kept) [.logEnd]).2 = false) := by
    rw [hending]
    split_ifs with hcut hall
    · refine ⟨rfl, by cases e <;> rfl, iff_of_false (by simp [readStream, followExit]) ?_⟩
      simpa [or_iff_not_imp_left] using hcut
    · refine ⟨rfl, rfl, iff_of_true rfl ?_⟩
      simpa using hcut
    · refine ⟨rfl, rfl, iff_of_true rfl ?_⟩
      simpa using hcut
  obtain ⟨hprinted, hgiven, hexit⟩ := hterminal
  rw [ResponseJson.streamResponses_eq, ResponseJson.outputStreamReader_eq, hreceived,
    readStream_lines, readOutput_lines, hprinted, hgiven, List.append_nil, hlines, filterMap_asLine]
  exact ⟨rfl, hprefix, rfl, hexit⟩

/-- **The messages written whole** are what a follow request gets through whose timeout comes in the
middle of a line. -/
theorem handleFollowStreamUntil_of_written (json : ResponseJson) (req : FollowRequest)
    (events : List FollowEvent) (written : ℕ) :
    let whole := (intact json 1 written (streamLoop req 0 events)).1
    handleFollowStreamUntil req (some (whole.length, .timeout)) events = whole ++ [.logEnd] := by
  intro whole
  have hwhole : whole = (streamLoop req 0 events).take whole.length :=
    List.prefix_iff_eq_take.mp (intact_beginning ..)
  rw [handleFollowStreamUntil_eq]
  simp only [uninterrupted, Option.elim_some, Nat.sub_zero, Option.some_inj, Prod.mk.injEq,
    reduceCtorEq, and_false, if_false]
  rw [List.map_take, ← streamLoop_eq, ← hwhole]

/-- The JSON of one line of output. -/
def greetingLine : String :=
  "\x7b\"type\":\"LogLine\",\"process\":\"web\",\"stream\":\"stdout\",\"line\":\"hi\"\x7d"

/-- … and of the end of the stream. -/
def greetingEnd : String := "\x7b\"type\":\"LogEnd\"\x7d"

def greetingJson : ResponseJson where
  encode
    | .logLine .. => greetingLine
    | _ => greetingEnd
  fromStr text :=
    if text = greetingLine ∨ text = greetingLine ++ "\n" then .ok (.logLine "web" .stdout "hi")
    else if text = greetingEnd ∨ text = greetingEnd ++ "\n" then .ok .logEnd
    else .error "expected value"

theorem greetingJson_torn (resp : Response) (text : String) (part : List UInt8)
    (h : utf8 text ++ part = utf8 (greetingJson.encode resp)) (hpart : part ≠ []) :
    ∃ e, greetingJson.fromStr text = .error e := by
  have hsent : greetingJson.encode resp ∈ [greetingLine, greetingEnd] := by
    cases resp <;> simp [greetingJson]
  have hwhole : ∀ c ∈ [greetingLine, greetingLine ++ "\n", greetingEnd, greetingEnd ++ "\n"],
      ∀ x ∈ [greetingLine, greetingEnd], utf8 c <+: utf8 x → c = x := by
    decide
  have hne : text ∉ [greetingLine, greetingLine ++ "\n", greetingEnd, greetingEnd ++ "\n"] :=
    fun hmem => hpart (by
      rw [← hwhole text hmem _ hsent ⟨part, h⟩] at h
      exact List.append_right_eq_self.mp h)
  simp only [List.mem_cons, List.not_mem_nil, or_false, not_or] at hne
  exact ⟨"expected value", by simp [greetingJson, hne]⟩

/-- The bytes of the two messages have one brace that opens, and it is the first. -/
theorem greetingJson_glued (resp : Response) (text : String) (part more : List UInt8)
    (_ : part <+: utf8 (greetingJson.encode resp)) (hne : part ≠ [])
    (hmore : more <+: greetingJson.sendResponse .logEnd) (hne' : more ≠ [])
    (h : utf8 text = part ++ more) : ∃ e, greetingJson.fromStr text = .error e := by
  have hbrace : ∀ c ∈ [greetingLine, greetingLine ++ "\n", greetingEnd, greetingEnd ++ "\n"],
      (123 : UInt8) ∉ (utf8 c).tail := by
    decide
  have hfirst : (greetingJson.sendResponse .logEnd).head? = some 123 := by decide
  have hmem : (123 : UInt8) ∈ (utf8 text).tail := by
    obtain ⟨rest, hrest⟩ := hmore
    obtain ⟨b, more, rfl⟩ := List.exists_cons_of_ne_nil hne'
    rw [← hrest, List.cons_append, List.head?_cons, Option.some_inj] at hfirst
    rw [h, List.tail_append_of_ne_nil hne, hfirst]
    exact List.mem_append_right _ List.mem_cons_self
  have hnot : text ∉ [greetingLine, greetingLine ++ "\n", greetingEnd, greetingEnd ++ "\n"] :=
    fun hin => hbrace text hin hmem
  simp only [List.mem_cons, List.not_mem_nil, or_false, not_or] at hnot
  exact ⟨"expected value", by simp [greetingJson, hnot]⟩

theorem delivers_greeting : Delivers greetingJson (.logLine "web" .stdout "hi") ∧
    Delivers greetingJson .logEnd :=
  ⟨⟨by decide, by decide, by decide, by decide, greetingJson_torn _, greetingJson_glued _⟩,
    ⟨by decide, by decide, by decide, by decide, greetingJson_torn _, greetingJson_glued _⟩⟩

set_option maxRecDepth 4000 in
/-- A follow request for two lines whose timeout comes in the middle of the second. -/
theorem greeting_received :
    let received := (greetingJson.followBytes ⟨some "web", false, false, none⟩ 80
      [.recv ⟨"web", .stdout, "hi"⟩, .recv ⟨"db", .stdout, "ho"⟩,
        .recv ⟨"web", .stdout, "hi"⟩]).take 1000
    (greetingJson.streamResponses received).1 = [⟨"web", .stdout, "hi"⟩] ∧
      followExit (greetingJson.streamResponses received).2 ≠ 0 := by
  have h : ∀ r ∈ streamLoop ⟨some "web", false, false, none⟩ 0
      [.recv ⟨"web", .stdout, "hi"⟩, .recv ⟨"db", .stdout, "ho"⟩, .recv ⟨"web", .stdout, "hi"⟩],
      Delivers greetingJson r := by
    intro r hr
    obtain rfl : r = .logLine "web" .stdout "hi" := by simpa [streamLoop] using hr
    exact delivers_greeting.1
  obtain ⟨hlines, -, -, hexit⟩ := follow_received h delivers_greeting.2 80 1000
  exact ⟨hlines.trans (by decide), fun hzero => absurd (hexit.mp hzero) (by decide)⟩

end Follow

end AgentProcs
