import AgentProcs.Daemon.Connection
import Mathlib.Data.List.TakeWhile

/-!
# Protocol/Framing — which lines reach the parser

    line ⏎ line ⏎ line…⏎ line ⏎        the parser gets the lines that fit,
      ✓       ✓      ✗                 up to the first that does not

However the bytes arrive, a turn of the loop reads one whole line of the stream or at least
`MAX_MESSAGE_SIZE` bytes of one, and the second kind never goes further.  What is handed over is
therefore cut out of the stream by its lines alone.  Two lines end it early by design: a `Shutdown`,
after which the connection returns, and a line that is not text.
-/

namespace AgentProcs

/-- Up to the first element that `p` stops at, and with it; `n` numbers the elements. -/
def upTo {α : Type*} (p : ℕ → α → Bool) : ℕ → List α → List α
  | _, [] => []
  | n, a :: l => a :: if p n a then [] else upTo p (n + 1) l

/-- Text, and shorter than a message may be. -/
def fits (line : List UInt8) : Bool :=
  (utf8? line).isSome && decide (line.length < MAX_MESSAGE_SIZE)

theorem fits_iff {line : List UInt8} :
    fits line = true ↔ (∃ text, utf8? line = some text) ∧ line.length < MAX_MESSAGE_SIZE := by
  rw [fits, Bool.and_eq_true, decide_eq_true_iff, Option.isSome_iff_exists]

section Turns

variable (json : RequestJson) (comesBack : ℕ → Request → Bool)

/-- The connection is not read after this line. -/
def stopsAt (n : ℕ) (line : List UInt8) : Bool := !(json.turn line).goesOn comesBack n

theorem handedLine?_turn {line : List UInt8} (hne : line ≠ []) (hfits : fits line = true) :
    (json.turn line).handedLine? = some line := by
  obtain ⟨⟨text, htext⟩, hlt⟩ := fits_iff.mp hfits
  simp [RequestJson.turn, hne, htext, Nat.not_le.mpr hlt, LineTurn.handedLine?]

/-- A line that does not fit leaves the loop unread. -/
theorem turn_of_not_fits {line : List UInt8} (h : fits line = false) (n : ℕ) :
    (json.turn line).handedLine? = none ∧ (json.turn line).goesOn comesBack n = false := by
  by_cases hnil : line = []
  · simp [RequestJson.turn, hnil, LineTurn.handedLine?, LineTurn.goesOn]
  · cases htext : utf8? line with
    | none => simp [RequestJson.turn, hnil, htext, LineTurn.handedLine?, LineTurn.goesOn]
    | some text =>
      have hlong : MAX_MESSAGE_SIZE ≤ line.length := by
        by_contra hlt
        exact absurd (fits_iff.mpr ⟨⟨text, htext⟩, Nat.lt_of_not_le hlt⟩) (by simp [h])
      simp [RequestJson.turn, hnil, htext, hlong, LineTurn.handedLine?, LineTurn.goesOn]

@[simp] theorem turn_line (line : List UInt8) : (json.turn line).line = line := by
  by_cases hnil : line = []
  · simp [RequestJson.turn, hnil, LineTurn.line]
  · cases htext : utf8? line with
    | none => simp [RequestJson.turn, hnil, htext, LineTurn.line]
    | some text =>
      rw [RequestJson.turn, if_neg hnil, htext]
      dsimp only
      split_ifs <;> rfl

end Turns

section Reads

variable {ρ : Type*} (R : LimitedReader UInt8 ρ) {r : ρ}

/-- The limit has been set, and the buffer holds what it can. -/
structure Fresh (R : LimitedReader UInt8 ρ) (r : ρ) : Prop where
  limit : R.limit r = MAX_MESSAGE_SIZE
  buffered : (R.buffered r).length ≤ R.capacity

/-- The first line of what is pending. -/
def pendingLine (r : ρ) : List UInt8 := (takeLine NEWLINE (R.pending r)).1

/-- The reader of the next turn. -/
def nextReader (r : ρ) : ρ := R.setLimit (R.readLine NEWLINE r).2 MAX_MESSAGE_SIZE

variable {R}

theorem Fresh.nextReader (hr : Fresh R r) : Fresh R (nextReader R r) where
  limit := R.limit_setLimit _ _
  buffered := by
    rw [AgentProcs.nextReader, R.buffered_setLimit]
    exact R.readLine_buffered_le hr.buffered

/-- **A line read** is the next line, cut where the buffer and the limit end. -/
theorem Fresh.readLine (hr : Fresh R r) : (R.readLine NEWLINE r).1
    = (pendingLine R r).take ((R.buffered r).length + MAX_MESSAGE_SIZE) := by
  rw [R.readLine_window, R.window_eq_take, takeLine_take, hr.limit, pendingLine]

/-- A line shorter than the limit is read as it is. -/
theorem Fresh.readLine_of_short (hr : Fresh R r) (h : (pendingLine R r).length < MAX_MESSAGE_SIZE) :
    (R.readLine NEWLINE r).1 = pendingLine R r := by
  rw [hr.readLine]
  exact List.take_of_length_le (h.le.trans (Nat.le_add_left _ _))

/-- Of a longer one, at least the limit is read. -/
theorem Fresh.readLine_of_long (hr : Fresh R r) (h : MAX_MESSAGE_SIZE ≤ (pendingLine R r).length) :
    MAX_MESSAGE_SIZE ≤ (R.readLine NEWLINE r).1.length := by
  rw [hr.readLine, List.length_take]
  exact Nat.le_min.mpr ⟨Nat.le_add_left _ _, h⟩

theorem Fresh.length_readLine (hr : Fresh R r) :
    (R.readLine NEWLINE r).1.length ≤ MAX_MESSAGE_SIZE + R.capacity := by
  rw [hr.readLine, Nat.add_comm MAX_MESSAGE_SIZE]
  exact (List.length_take_le _ _).trans (Nat.add_le_add_right hr.buffered _)

theorem nextReader_pending (h : (R.readLine NEWLINE r).1 = pendingLine R r) :
    R.pending (nextReader R r) = (takeLine NEWLINE (R.pending r)).2 := by
  have hall := (R.readLine_pending NEWLINE r).trans (takeLine_append NEWLINE (R.pending r)).symm
  rw [nextReader, R.pending_setLimit]
  rw [h] at hall
  exact List.append_cancel_left hall

/-- What fits of the next line fits of the line read. -/
theorem Fresh.fits_readLine (hr : Fresh R r) (h : fits (pendingLine R r) = false) :
    fits (R.readLine NEWLINE r).1 = false := by
  by_cases hlt : (pendingLine R r).length < MAX_MESSAGE_SIZE
  · rwa [hr.readLine_of_short hlt]
  · have hlong := hr.readLine_of_long (Nat.not_lt.mp hlt)
    simp [fits, Nat.not_lt.mpr hlong]

theorem pendingLine_of_lines {line : List UInt8} {lines : List (List UInt8)}
    (h : splitLines NEWLINE (R.pending r) = line :: lines) :
    pendingLine R r = line ∧ splitLines NEWLINE (takeLine NEWLINE (R.pending r)).2 = lines := by
  have hne : R.pending r ≠ [] := by
    intro hnil
    rw [hnil, splitLines_nil] at h
    exact absurd h.symm (List.cons_ne_nil _ _)
  exact List.cons_eq_cons.mp ((splitLines_takeLine hne).symm.trans h)

end Reads

/-! ## Turn by turn -/

section Connection

variable {ρ : Type*} {R : LimitedReader UInt8 ρ} (json : RequestJson)
  (comesBack : ℕ → Request → Bool) (n : ℕ) {r : ρ} {line : List UInt8} {lines : List (List UInt8)}

theorem connection_step (r : ρ) :
    connection R json comesBack n r = json.turn (R.readLine NEWLINE r).1 ::
      if stopsAt json comesBack n (R.readLine NEWLINE r).1 then []
      else connection R json comesBack (n + 1) (nextReader R r) := by
  rw [connection, stopsAt]
  cases (json.turn (R.readLine NEWLINE r).1).goesOn comesBack n <;> rfl

/-- **A line that fits** is handed over whole, and the next turn begins behind it. -/
theorem connection_cons (hr : Fresh R r) (hlines : splitLines NEWLINE (R.pending r) = line :: lines)
    (hfits : fits line = true) :
    connection R json comesBack n r = json.turn line ::
      (if stopsAt json comesBack n line then []
        else connection R json comesBack (n + 1) (nextReader R r)) ∧
      splitLines NEWLINE (R.pending (nextReader R r)) = lines := by
  obtain ⟨hline, hrest⟩ := pendingLine_of_lines hlines
  have hread : (R.readLine NEWLINE r).1 = pendingLine R r :=
    hr.readLine_of_short (hline ▸ (fits_iff.mp hfits).2)
  refine ⟨?_, (nextReader_pending hread).symm ▸ hrest⟩
  rw [connection_step, hread, hline]

/-- **A line that does not fit** is the last that is read, and not handed over. -/
theorem connection_of_not_fits (hr : Fresh R r)
    (hlines : splitLines NEWLINE (R.pending r) = line :: lines) (hfits : fits line = false) :
    ∃ piece, piece <+: line ∧ (MAX_MESSAGE_SIZE ≤ line.length → MAX_MESSAGE_SIZE ≤ piece.length) ∧
      connection R json comesBack n r = [json.turn piece] ∧
      (json.turn piece).handedLine? = none := by
  have hline : pendingLine R r = line := (pendingLine_of_lines hlines).1
  obtain ⟨hnone, hstop⟩ := turn_of_not_fits json comesBack (hr.fits_readLine (hline ▸ hfits)) n
  refine ⟨(R.readLine NEWLINE r).1, ?_, fun h => hr.readLine_of_long (hline ▸ h), ?_, hnone⟩
  · rw [hr.readLine, hline]
    exact List.take_prefix _ _
  · rw [connection_step, stopsAt, hstop]
    rfl

theorem connection_nil (hr : Fresh R r) (hlines : splitLines NEWLINE (R.pending r) = []) :
    connection R json comesBack n r = [.closed []] := by
  have hpending : R.pending r = [] := by
    by_contra hne
    exact absurd hlines (splitLines_ne_nil hne)
  have hread : (R.readLine NEWLINE r).1 = [] := by
    rw [hr.readLine, pendingLine, hpending, takeLine_nil, List.take_nil]
  have hclosed : json.turn [] = .closed [] := if_pos rfl
  rw [connection_step, hread, stopsAt, hclosed]
  rfl

/-- **What the parser gets**: the lines of the stream that fit, up to the first that does not, and
up to the first after which the connection is not read. -/
theorem handedLines_connection (hr : Fresh R r)
    (hlines : splitLines NEWLINE (R.pending r) = lines) :
    handedLines (connection R json comesBack n r)
      = upTo (stopsAt json comesBack) n (lines.takeWhile fits) := by
  induction lines generalizing r n with
  | nil =>
    rw [connection_nil json comesBack n hr hlines]
    rfl
  | cons line lines ih =>
    cases hfits : fits line with
    | true =>
      obtain ⟨hstep, hrest⟩ := connection_cons json comesBack n hr hlines hfits
      have hne : line ≠ [] := fun h => ne_nil_of_mem_splitLines (hlines ▸ List.mem_cons_self) h
      rw [hstep, handedLines, List.filterMap_cons_some (handedLine?_turn json hne hfits),
        List.takeWhile_cons_of_pos hfits, upTo]
      split_ifs
      · rfl
      · exact congrArg (line :: ·) (ih (n + 1) hr.nextReader hrest)
    | false =>
      obtain ⟨piece, -, -, hstep, hnone⟩ := connection_of_not_fits json comesBack n hr
        hlines hfits
      rw [hstep, handedLines, List.filterMap_cons_none hnone,
        List.takeWhile_cons_of_neg (by simp [hfits])]
      rfl

/-- **A line too long ends the connection**: the turns are those of the lines before it, and one
that reads at least `MAX_MESSAGE_SIZE` bytes of it and hands over nothing. -/
theorem connection_of_long {pre post : List (List UInt8)} {long : List UInt8} (hr : Fresh R r)
    (hlines : splitLines NEWLINE (R.pending r) = pre ++ long :: post)
    (hlong : MAX_MESSAGE_SIZE ≤ long.length) (hpre : ∀ l ∈ pre, fits l = true)
    (hon : ∀ i l, pre[i]? = some l → stopsAt json comesBack (n + i) l = false) :
    ∃ piece, connection R json comesBack n r = pre.map json.turn ++ [json.turn piece] ∧
      piece <+: long ∧ MAX_MESSAGE_SIZE ≤ piece.length ∧
      (json.turn piece).handedLine? = none := by
  induction pre generalizing r n with
  | nil =>
    have hfits : fits long = false := by simp [fits, Nat.not_lt.mpr hlong]
    obtain ⟨piece, hprefix, hlen, hstep, hnone⟩ := connection_of_not_fits json comesBack n hr
      hlines hfits
    exact ⟨piece, hstep, hprefix, hlen hlong, hnone⟩
  | cons line pre ih =>
    obtain ⟨hline, hpre⟩ := List.forall_mem_cons.mp hpre
    obtain ⟨hstep, hrest⟩ := connection_cons json comesBack n hr hlines hline
    have hgo : stopsAt json comesBack n line = false := hon 0 line rfl
    have honrest : ∀ i l, pre[i]? = some l → stopsAt json comesBack (n + 1 + i) l = false := by
      intro i l hl
      have := hon (i + 1) l hl
      rwa [Nat.add_assoc, Nat.add_comm 1 i]
    obtain ⟨piece, hturns, hpiece⟩ := ih (n + 1) hr.nextReader hrest hpre honrest
    refine ⟨piece, ?_, hpiece⟩
    rw [hstep, hgo, hturns]
    rfl

/-- **No line buffer** outgrows the limit and the read-ahead. -/
theorem length_line_of_mem_connection (hr : Fresh R r) :
    ∀ turn ∈ connection R json comesBack n r,
      turn.line.length ≤ MAX_MESSAGE_SIZE + R.capacity := by
  fun_induction connection R json comesBack n r with
  | case1 n r turn hgo ih =>
    intro t ht
    obtain rfl | ht := List.mem_cons.mp ht
    · exact (turn_line json _).symm ▸ hr.length_readLine
    · exact ih hr.nextReader t ht
  | case2 n r turn hgo =>
    intro t ht
    obtain rfl := List.mem_singleton.mp ht
    exact (turn_line json _).symm ▸ hr.length_readLine

end Connection

/-! ## A client's requests -/

section Requests

variable {ρ : Type*} {R : LimitedReader UInt8 ρ} {json : RequestJson}
  {comesBack : ℕ → Request → Bool} {r : ρ} {bytes : List UInt8} {reqs : List Request}

/-- A connection whose client sends these bytes, before its first turn. -/
structure Opened (R : LimitedReader UInt8 ρ) (bytes : List UInt8) (r : ρ) : Prop where
  buffered : R.buffered r = []
  incoming : R.incoming r = bytes
  limit : R.limit r = MAX_MESSAGE_SIZE

theorem Opened.fresh (h : Opened R bytes r) : Fresh R r where
  limit := h.limit
  buffered := h.buffered ▸ Nat.zero_le _

theorem Opened.pending (h : Opened R bytes r) : R.pending r = bytes := by
  rw [LimitedReader.pending, h.buffered, h.incoming, List.nil_append]

/-- The encoding is one line, is decoded to what it encodes, and is shorter than the limit. -/
structure Sendable (json : RequestJson) (req : Request) : Prop where
  newlineFree : NEWLINE ∉ utf8 (json.encode req)
  decodes : json.fromStr (json.encode req ++ "\n") = .ok req
  short : (json.sendRequest req).length < MAX_MESSAGE_SIZE

/-- The connection is not read after this request. -/
def lastRequest (comesBack : ℕ → Request → Bool) (n : ℕ) (req : Request) : Bool :=
  decide (req = .shutdown) || !comesBack n req

theorem sendRequest_eq (json : RequestJson) (req : Request) :
    json.sendRequest req = utf8 (json.encode req) ++ [NEWLINE] := by
  rw [RequestJson.sendRequest, utf8_append]
  rfl

theorem Sendable.fits {req : Request} (h : Sendable json req) :
    fits (json.sendRequest req) = true :=
  fits_iff.mpr ⟨⟨_, utf8?_utf8 _⟩, h.short⟩

theorem Sendable.stopsAt {req : Request} (h : Sendable json req) (n : ℕ) :
    stopsAt json comesBack n (json.sendRequest req) = lastRequest comesBack n req := by
  have hne : json.sendRequest req ≠ [] := by simp [sendRequest_eq]
  have hturn : json.turn (json.sendRequest req) = .handed (json.sendRequest req) (.ok req) := by
    rw [RequestJson.turn, if_neg hne, RequestJson.sendRequest, utf8?_utf8]
    exact (if_neg (Nat.not_le.mpr h.short)).trans (congrArg (LineTurn.handed _) h.decodes)
  rw [AgentProcs.stopsAt, hturn]
  cases req <;> simp [LineTurn.goesOn, lastRequest]

theorem splitLines_requests (h : ∀ req ∈ reqs, Sendable json req) :
    splitLines NEWLINE (reqs.flatMap json.sendRequest) = reqs.map json.sendRequest := by
  have hfree : ∀ l ∈ reqs.map (utf8 ∘ json.encode), NEWLINE ∉ l := by
    intro l hl
    obtain ⟨req, hreq, rfl⟩ := List.mem_map.mp hl
    exact (h req hreq).newlineFree
  have hcut := splitLines_flatMap hfree
  simpa [List.flatMap_map, List.map_map, Function.comp_def, ← sendRequest_eq] using hcut

theorem upTo_map {α β : Type*} {f : α → β} {p : ℕ → β → Bool} {q : ℕ → α → Bool} {l : List α}
    (h : ∀ a ∈ l, ∀ n, p n (f a) = q n a) (n : ℕ) : upTo p n (l.map f) = (upTo q n l).map f := by
  induction l generalizing n with
  | nil => rfl
  | cons a l ih =>
    obtain ⟨ha, hl⟩ := List.forall_mem_cons.mp h
    rw [List.map_cons, upTo, upTo, ha n, ih hl]
    split_ifs <;> rfl

/-- **A client's requests** reach the parser one by one, up to the first the loop does not come
back from. -/
theorem handedLines_requests (hr : Opened R (reqs.flatMap json.sendRequest) r)
    (h : ∀ req ∈ reqs, Sendable json req) :
    handedLines (connection R json comesBack 0 r)
      = (upTo (lastRequest comesBack) 0 reqs).map json.sendRequest := by
  have hfit : (reqs.map json.sendRequest).takeWhile fits = reqs.map json.sendRequest := by
    refine List.takeWhile_eq_self_iff.mpr fun l hl => ?_
    obtain ⟨req, hreq, rfl⟩ := List.mem_map.mp hl
    exact (h req hreq).fits
  rw [handedLines_connection json comesBack 0 hr.fresh (hr.pending ▸ splitLines_requests h), hfit]
  exact upTo_map (fun req hreq n => (h req hreq).stopsAt n) 0

end Requests

/-! ## The claimed framing -/

section Main

variable {ρ : Type*} (R : LimitedReader UInt8 ρ) (json : RequestJson)
  (comesBack : ℕ → Request → Bool)

/-- **Message framing**: a client's requests reach the parser in order and unmodified, up to the
first the loop does not come back from; of any stream, the parser gets whole lines only, those that
fit up to the first that does not; a line too long ends the connection, and no line buffer outgrows
the limit and the read-ahead. -/
theorem connection_frames {r : ρ} {bytes : List UInt8} (hr : Opened R bytes r) :
    (∀ reqs : List Request, bytes = reqs.flatMap json.sendRequest →
      (∀ req ∈ reqs, Sendable json req) →
      handedLines (connection R json comesBack 0 r)
        = (upTo (lastRequest comesBack) 0 reqs).map json.sendRequest) ∧
    handedLines (connection R json comesBack 0 r)
      = upTo (stopsAt json comesBack) 0 ((splitLines NEWLINE bytes).takeWhile fits) ∧
    (∀ pre long post, splitLines NEWLINE bytes = pre ++ long :: post →
      MAX_MESSAGE_SIZE ≤ long.length → (∀ l ∈ pre, fits l = true) →
      (∀ i l, pre[i]? = some l → stopsAt json comesBack i l = false) →
      ∃ piece, connection R json comesBack 0 r = pre.map json.turn ++ [json.turn piece] ∧
        piece <+: long ∧ MAX_MESSAGE_SIZE ≤ piece.length ∧
        (json.turn piece).handedLine? = none) ∧
    ∀ turn ∈ connection R json comesBack 0 r,
      turn.line.length ≤ MAX_MESSAGE_SIZE + R.capacity := by
  refine ⟨?_, ?_, ?_, length_line_of_mem_connection json comesBack 0 hr.fresh⟩
  · rintro reqs rfl hreqs
    exact handedLines_requests hr hreqs
  · exact handedLines_connection json comesBack 0 hr.fresh (by rw [hr.pending])
  · intro pre long post hlines hlong hpre hon
    refine connection_of_long json comesBack 0 hr.fresh (hr.pending.symm ▸ hlines) hlong hpre ?_
    simpa using hon

end Main

/-! ## A stream that ends early -/

/-- The JSON of the two requests without data, `shutdown` and `status`. -/
def plainJson : RequestJson where
  encode
    | .shutdown => "\x7b\"type\":\"Shutdown\"\x7d"
    | .status => "\x7b\"type\":\"Status\"\x7d"
    | _ => ""
  fromStr text :=
    if text = "\x7b\"type\":\"Shutdown\"\x7d\n" then .ok .shutdown
    else if text = "\x7b\"type\":\"Status\"\x7d\n" then .ok .status
    else .error "expected value"

/-- The reader of a connection, 8 KiB of read-ahead. -/
abbrev bufReader : LimitedReader UInt8 (EagerReader UInt8) := .eager UInt8 8192 (by decide)

theorem opened_bufReader (bytes : List UInt8) :
    Opened bufReader bytes ⟨[], bytes, MAX_MESSAGE_SIZE⟩ := ⟨rfl, rfl, rfl⟩

theorem sendable_shutdown : Sendable plainJson .shutdown := ⟨by decide, rfl, by decide⟩

theorem sendable_status : Sendable plainJson .status := ⟨by decide, rfl, by decide⟩

theorem connection_frames_example :
    Opened bufReader ([Request.status, .status].flatMap plainJson.sendRequest)
      ⟨[], [Request.status, .status].flatMap plainJson.sendRequest, MAX_MESSAGE_SIZE⟩ ∧
    handedLines (connection bufReader plainJson (fun _ _ => true) 0
      ⟨[], [Request.status, .status].flatMap plainJson.sendRequest, MAX_MESSAGE_SIZE⟩)
      = [plainJson.sendRequest .status, plainJson.sendRequest .status] := by
  have hsend : ∀ req ∈ [Request.status, .status], Sendable plainJson req := by
    intro req hreq
    obtain rfl : req = .status := by simpa using hreq
    exact sendable_status
  exact ⟨opened_bufReader _, (connection_frames bufReader plainJson (fun _ _ => true)
    (opened_bufReader _)).1 _ rfl hsend⟩

/-- Two kinds of short lines are lost behind others by design: a request behind a `Shutdown`, and
every line from one on that is not text. -/
theorem not_connection_frames :
    (¬ ∀ reqs : List Request, (∀ req ∈ reqs, Sendable plainJson req) →
      handedLines (connection bufReader plainJson (fun _ _ => true) 0
        ⟨[], reqs.flatMap plainJson.sendRequest, MAX_MESSAGE_SIZE⟩)
        = reqs.map plainJson.sendRequest) ∧
    ¬ ∀ bytes pre long post, splitLines NEWLINE bytes = pre ++ long :: post →
      MAX_MESSAGE_SIZE ≤ long.length → (∀ l ∈ pre, l.length < MAX_MESSAGE_SIZE) →
      handedLines (connection bufReader plainJson (fun _ _ => true) 0
        ⟨[], bytes, MAX_MESSAGE_SIZE⟩) = pre := by
  constructor
  · intro h
    have hsend : ∀ req ∈ [Request.shutdown, .status], Sendable plainJson req := by
      intro req hreq
      obtain rfl | rfl : req = .shutdown ∨ req = .status := by simpa using hreq
      · exact sendable_shutdown
      · exact sendable_status
    have hlen := congrArg List.length ((handedLines_requests (opened_bufReader _) hsend).symm.trans
      (h _ hsend))
    exact absurd hlen (by decide)
  · intro h
    obtain ⟨long, hfree, hlen⟩ : ∃ long, NEWLINE ∉ long ∧ long.length = MAX_MESSAGE_SIZE :=
      ⟨List.replicate _ 0, fun hmem => absurd (List.eq_of_mem_replicate hmem) (by decide),
        List.length_replicate⟩
    have hne : long ≠ [] := by
      rintro rfl
      exact absurd hlen (by decide)
    have hlines : splitLines NEWLINE ([255] ++ NEWLINE :: long) = [[255, NEWLINE]] ++ [long] := by
      rw [splitLines_line (by decide), splitLines_of_notMem hfree hne]
      rfl
    have hpre := h _ _ _ _ hlines hlen.ge (by decide)
    have hr := opened_bufReader ([255] ++ NEWLINE :: long)
    rw [handedLines_connection plainJson _ 0 hr.fresh (hr.pending.symm ▸ hlines),
      List.singleton_append, List.takeWhile_cons_of_neg (by decide)] at hpre
    exact absurd hpre (by decide)

end AgentProcs
