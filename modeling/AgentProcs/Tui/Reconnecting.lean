import AgentProcs.Tui.EventLoop

/-!
# Tui/Reconnecting — who reads the output

    reader ──report──▸ closed in the channel ──handle──▸ reconnect scheduled ──wake──▸ reader
      │
      └── request not sent ──▸ nothing

A reader that has come to its end tells the event loop, which then schedules the next one.  One thing
at a time stands for the output: a reader, a reconnect, or a report.  A reader that cannot send its
request ends without a report.
-/

namespace AgentProcs

inductive ReconnectState where
  | connected
  | reconnecting (attempt : ℕ)
  | failed
  deriving DecidableEq, Repr

def MAX_RECONNECT_ATTEMPTS : ℕ := 10

/-- What the channel of the event loop holds. -/
def EVENT_CAPACITY : ℕ := 256

/-- What a reader is at. -/
inductive ReaderPhase where
  | connecting
  | serializing
  | writing
  | flushing
  | reading
  /-- It waits for room in the channel. -/
  | sending (process : String) (stream : Stream) (line : String)
  | closing
  deriving DecidableEq, Repr

/-- What becomes of what it is at. -/
inductive ReaderEvent where
  | succeeds
  /-- An error, or the end of the stream. -/
  | fails
  /-- A line, and the response it is. -/
  | reads (response : Option Response)
  deriving DecidableEq, Repr

/-- Where a reader goes on; it may also return. -/
def ReaderPhase.react : ReaderPhase → ReaderEvent → Option (Option ReaderPhase)
  | connecting, .succeeds => some (some serializing)
  | connecting, .fails => some (some closing)
  | serializing, .succeeds => some (some writing)
  | serializing, .fails => some none
  | writing, .succeeds => some (some flushing)
  | writing, .fails => some none
  | flushing, .succeeds => some (some reading)
  | flushing, .fails => some none
  | reading, .fails => some (some closing)
  | reading, .reads (some (.logLine process stream line)) => some (some (sending process stream line))
  | reading, .reads (some .logEnd) => some (some closing)
  | reading, .reads _ => some (some reading)
  | _, _ => none

/-- The readers of the output stream, and the event loop as far as it concerns them. -/
structure OutputFeed where
  readers : List ReaderPhase
  /-- The reconnects that are asleep, with their delays in seconds. -/
  scheduled : List ℕ
  queue : List AppEvent
  reconnect : ReconnectState
  deriving DecidableEq, Repr

namespace OutputFeed

/-- Just after the background tasks have been spawned. -/
def start : OutputFeed := ⟨[.connecting], [], [], .connected⟩

/-- Schedule a reconnect, unless there have been enough. -/
def tryAgain (attempt : ℕ) (f : OutputFeed) : OutputFeed :=
  if MAX_RECONNECT_ATTEMPTS ≤ attempt then { f with reconnect := .failed }
  else { f with
    reconnect := .reconnecting (attempt + 1)
    scheduled := f.scheduled ++ [min (2 ^ attempt) 30] }

def handleReconnect (f : OutputFeed) : OutputFeed :=
  match f.reconnect with
  | .connected => f.tryAgain 0
  | .reconnecting attempt => f.tryAgain attempt
  | .failed => f

/-- What an event of the loop means for the output. -/
def handle (event : AppEvent) (f : OutputFeed) : OutputFeed :=
  match event with
  | .outputLine _ _ _ => { f with reconnect := .connected }
  | .outputStreamClosed => f.handleReconnect
  | _ => f

/-- Readers, reconnects and reports. -/
def count (f : OutputFeed) : ℕ :=
  f.readers.length + f.scheduled.length + f.queue.count .outputStreamClosed

end OutputFeed

/-- A line of the output. -/
def AppEvent.IsLine : AppEvent → Prop
  | .outputLine _ _ _ => True
  | _ => False

instance (event : AppEvent) : Decidable event.IsLine := by
  cases event <;> unfold AppEvent.IsLine <;> infer_instance

inductive FeedEvent where
  | react (phase : ReaderPhase) (event : ReaderEvent)
  | deliver
  | report
  | wake
  /-- Another task sends a key, a click or the status. -/
  | other (event : AppEvent)
  | handle (event : AppEvent)
  deriving DecidableEq, Repr

/-- A reader fails between connecting and reading. -/
def FeedEvent.Silent (e : FeedEvent) : Prop :=
  e = .react .serializing .fails ∨ e = .react .writing .fails ∨ e = .react .flushing .fails

instance (e : FeedEvent) : Decidable e.Silent := inferInstanceAs (Decidable (_ ∨ _))

/-- **Then it returns without a report**, and only then. -/
theorem ReaderPhase.react_eq_some_none_iff {phase : ReaderPhase} {event : ReaderEvent} :
    phase.react event = some none ↔ (FeedEvent.react phase event).Silent := by
  constructor
  · intro h
    unfold ReaderPhase.react at h
    split at h <;> simp_all [FeedEvent.Silent]
  · rintro (h | h | h) <;> obtain ⟨rfl, rfl⟩ := FeedEvent.react.inj h <;> rfl

inductive FeedStep : OutputFeed → FeedEvent → OutputFeed → Prop
  | react {f : OutputFeed} {before after : List ReaderPhase} {phase : ReaderPhase}
      {event : ReaderEvent} {next : Option ReaderPhase}
      (hreaders : f.readers = before ++ phase :: after) (hreact : phase.react event = some next) :
      FeedStep f (.react phase event) { f with readers := before ++ next.toList ++ after }
  | deliver {f : OutputFeed} {before after : List ReaderPhase} {process line : String}
      {stream : Stream} (hreaders : f.readers = before ++ .sending process stream line :: after)
      (hroom : f.queue.length < EVENT_CAPACITY) :
      FeedStep f .deliver { f with
        readers := before ++ .reading :: after
        queue := f.queue ++ [.outputLine process stream line] }
  | report {f : OutputFeed} {before after : List ReaderPhase}
      (hreaders : f.readers = before ++ .closing :: after)
      (hroom : f.queue.length < EVENT_CAPACITY) :
      FeedStep f .report
        { f with readers := before ++ after, queue := f.queue ++ [.outputStreamClosed] }
  | wake {f : OutputFeed} {before after : List ℕ} {delay : ℕ}
      (hscheduled : f.scheduled = before ++ delay :: after) :
      FeedStep f .wake
        { f with scheduled := before ++ after, readers := f.readers ++ [.connecting] }
  | other {f : OutputFeed} {event : AppEvent} (hline : ¬event.IsLine)
      (hclosed : event ≠ .outputStreamClosed) (hroom : f.queue.length < EVENT_CAPACITY) :
      FeedStep f (.other event) { f with queue := f.queue ++ [event] }
  | handle {f : OutputFeed} {event : AppEvent} {rest : List AppEvent}
      (hqueue : f.queue = event :: rest) :
      FeedStep f (.handle event) ({ f with queue := rest }.handle event)

/-- **The feed of the terminal interface**, while its event loop runs. -/
def outputFeed : Machine OutputFeed FeedEvent where
  init f := f = .start
  step := FeedStep

/-! ## One at a time -/

section Count

variable {f f' : OutputFeed} {e : FeedEvent}

/-- With `gone` readers that returned without a report: until the loop gives up, they and all that
stands for the output are one.  Behind a report there is no line. -/
structure OutputFeed.Fed (gone : ℕ) (f : OutputFeed) : Prop where
  one : f.reconnect ≠ .failed → f.count + gone = 1
  none : f.reconnect = .failed → f.count = 0 ∧ ∀ e ∈ f.queue, ¬e.IsLine
  behind : f.queue.Pairwise fun a b => a = .outputStreamClosed → ¬b.IsLine

namespace OutputFeed

variable {gone : ℕ}

theorem fed_start : start.Fed 0 where
  one _ := rfl
  none h := nomatch h
  behind := .nil

/-- What there is of the output keeps the loop from having given up. -/
theorem Fed.connected (h : f.Fed gone) (hpos : 0 < f.count) :
    f.reconnect ≠ .failed ∧ f.count = 1 ∧ gone = 0 := by
  have hne : f.reconnect ≠ .failed := fun hfailed => by
    have := (h.none hfailed).1
    omega
  have := h.one hne
  exact ⟨hne, by omega, by omega⟩

/-- The queue grows, or stays, while the count stays. -/
theorem Fed.of_append (h : f.Fed gone) {sent : List AppEvent} (hqueue : f'.queue = f.queue ++ sent)
    (hreconnect : f'.reconnect = f.reconnect) (hcount : f'.count = f.count)
    (hsent : sent.Pairwise fun a b => a = .outputStreamClosed → ¬b.IsLine)
    (hline : ∀ e ∈ sent, e.IsLine → f.reconnect ≠ .failed ∧ .outputStreamClosed ∉ f.queue) :
    f'.Fed gone where
  one hne := by rw [hcount, h.one (hreconnect ▸ hne)]
  none hfailed := by
    have hfailed' : f.reconnect = .failed := hreconnect ▸ hfailed
    refine ⟨hcount.trans (h.none hfailed').1, fun e he => ?_⟩
    rw [hqueue] at he
    exact (List.mem_append.mp he).elim ((h.none hfailed').2 e) fun hsent hline' =>
      (hline e hsent hline').1 hfailed'
  behind := by
    rw [hqueue]
    refine List.pairwise_append.mpr ⟨h.behind, hsent, fun a ha b hb heq hb' => ?_⟩
    exact (hline b hb hb').2 (heq ▸ ha)

/-- A report is dealt with. -/
theorem Fed.handleReconnect {rest : List AppEvent} (h : f.Fed gone)
    (hqueue : f.queue = .outputStreamClosed :: rest) :
    ({ f with queue := rest }.handleReconnect).Fed gone := by
  have hsplit : f.count = f.readers.length + f.scheduled.length +
      (rest.count .outputStreamClosed + 1) := by rw [count, hqueue, List.count_cons_self]
  obtain ⟨hne, hone, rfl⟩ := h.connected (by omega)
  have hbehind := List.pairwise_cons.mp (hqueue ▸ h.behind)
  have htry : ∀ attempt, ({ f with queue := rest }.tryAgain attempt).Fed 0 := fun attempt => by
    rw [tryAgain]
    split_ifs
    · refine ⟨fun hno => absurd rfl hno, fun _ => ⟨?_, fun e he => hbehind.1 e he rfl⟩, hbehind.2⟩
      simp only [count]
      omega
    · refine ⟨fun _ => ?_, nofun, hbehind.2⟩
      simp only [count, List.length_append, List.length_singleton]
      omega
  cases hstate : f.reconnect with
  | failed => exact absurd hstate hne
  | connected => exact htry 0
  | reconnecting attempt => exact htry attempt

/-- **An event is handled.** -/
theorem Fed.handle {event : AppEvent} {rest : List AppEvent} (h : f.Fed gone)
    (hqueue : f.queue = event :: rest) : ({ f with queue := rest }.handle event).Fed gone := by
  have hbehind := List.pairwise_cons.mp (hqueue ▸ h.behind)
  have hcount : event ≠ .outputStreamClosed → ({ f with queue := rest } : OutputFeed).count = f.count :=
    fun hne => by simp only [count, hqueue, List.count_cons_of_ne hne]
  have hmem : ∀ e ∈ rest, e ∈ f.queue := fun e he => hqueue ▸ List.mem_cons_of_mem _ he
  cases event with
  | outputLine process stream line =>
    have hline : AppEvent.outputLine process stream line ∈ f.queue := hqueue ▸ List.mem_cons_self
    have hne : f.reconnect ≠ .failed := fun hfailed => (h.none hfailed).2 _ hline trivial
    exact ⟨fun _ => (congrArg (· + gone) (hcount nofun)).trans (h.one hne), nofun, hbehind.2⟩
  | outputStreamClosed => exact h.handleReconnect hqueue
  | key | mouse | statusUpdate =>
    refine ⟨fun hne => (congrArg (· + gone) (hcount nofun)).trans (h.one hne), fun hfailed => ?_,
      hbehind.2⟩
    exact ⟨(hcount nofun).trans (h.none hfailed).1, fun e he => (h.none hfailed).2 e (hmem e he)⟩

/-- **What a step does to the count**: it is one less after a silent return, and the same else. -/
theorem Fed.step (h : f.Fed gone) (hstep : FeedStep f e f') :
    f'.Fed (gone + if e.Silent then 1 else 0) := by
  cases hstep with
  | @react before after phase event next hreaders hreact =>
    have hlength : f.readers.length = before.length + after.length + 1 := by
      rw [hreaders, List.length_append, List.length_cons, Nat.add_assoc]
    cases next with
    | none =>
      have hcount : f.count = _ + f.queue.count .outputStreamClosed := rfl
      obtain ⟨hne, hone, rfl⟩ := h.connected (by rw [hcount]; omega)
      have hsilent := ReaderPhase.react_eq_some_none_iff.mp hreact
      rw [if_pos hsilent]
      refine ⟨fun _ => ?_, fun hfailed => absurd hfailed hne, h.behind⟩
      simp only [count, Option.toList_none, List.append_nil, List.length_append] at hone ⊢
      omega
    | some next =>
      have hsilent : ¬(FeedEvent.react phase event).Silent := fun hsilent =>
        nomatch hreact.symm.trans (ReaderPhase.react_eq_some_none_iff.mpr hsilent)
      rw [if_neg hsilent, Nat.add_zero]
      refine h.of_append (List.append_nil _).symm rfl ?_ .nil (by simp)
      simp only [count, hlength, Option.toList_some, List.length_append, List.length_singleton]
      omega
  | @deliver before after process line stream hreaders hroom =>
    have hlength : f.readers.length = before.length + after.length + 1 := by
      rw [hreaders, List.length_append, List.length_cons, Nat.add_assoc]
    have hcount : f.count = _ + f.queue.count .outputStreamClosed := rfl
    obtain ⟨hne, hone, rfl⟩ := h.connected (by rw [hcount]; omega)
    have hnot : AppEvent.outputStreamClosed ∉ f.queue :=
      List.count_eq_zero.mp (by rw [hcount] at hone; omega)
    rw [if_neg (by simp [FeedEvent.Silent]), Nat.add_zero]
    refine h.of_append rfl rfl ?_ (List.pairwise_singleton _ _) fun _ _ _ => ⟨hne, hnot⟩
    have hline : List.count .outputStreamClosed [AppEvent.outputLine process stream line] = 0 := rfl
    simp only [count, hlength, List.count_append, hline, List.length_append, List.length_cons]
    omega
  | @report before after hreaders hroom =>
    rw [if_neg (by simp [FeedEvent.Silent]), Nat.add_zero]
    refine h.of_append rfl rfl ?_ (List.pairwise_singleton _ _) fun e he hline => ?_
    · simp only [count, hreaders, List.count_append, List.count_singleton_self, List.length_append,
        List.length_cons]
      omega
    · obtain rfl := List.mem_singleton.mp he
      exact hline.elim
  | @wake before after delay hscheduled =>
    rw [if_neg (by simp [FeedEvent.Silent]), Nat.add_zero]
    refine h.of_append (List.append_nil _).symm rfl ?_ .nil (by simp)
    simp only [count, hscheduled, List.length_append, List.length_cons, List.length_nil]
    omega
  | @other event hline hclosed hroom =>
    rw [if_neg (by simp [FeedEvent.Silent]), Nat.add_zero]
    refine h.of_append rfl rfl ?_ (List.pairwise_singleton _ _) fun e he hline' => ?_
    · have hnone : List.count .outputStreamClosed [event] = 0 :=
        List.count_eq_zero.mpr fun hmem => hclosed (List.mem_singleton.mp hmem).symm
      simp only [count, List.count_append, hnone, Nat.add_zero]
    · obtain rfl := List.mem_singleton.mp he
      exact absurd hline' hline
  | handle hqueue =>
    rw [if_neg (by simp [FeedEvent.Silent]), Nat.add_zero]
    exact h.handle hqueue

end OutputFeed

end Count

/-! ## Reconnects in a row -/

/-- A line of the output is handled. -/
def FeedEvent.HandlesLine : FeedEvent → Prop
  | .handle event => event.IsLine
  | _ => False

/-- A reconnect is scheduled. -/
def Reconnects (τ : Transition OutputFeed FeedEvent) : Prop :=
  τ.src.scheduled.length < τ.dst.scheduled.length

instance (τ : Transition OutputFeed FeedEvent) : Decidable (Reconnects τ) :=
  inferInstanceAs (Decidable (_ < _))

section Row

variable {f f' : OutputFeed} {e : FeedEvent}

/-- The reconnects there have been since the last line, as the loop counts them. -/
def ReconnectState.attempts : ReconnectState → ℕ
  | .connected => 0
  | .reconnecting attempt => attempt
  | .failed => MAX_RECONNECT_ATTEMPTS

theorem attempts_tryAgain {attempt : ℕ} (hle : attempt ≤ MAX_RECONNECT_ATTEMPTS)
    (f : OutputFeed) : attempt + ((f.tryAgain attempt).scheduled.length - f.scheduled.length) ≤
      (f.tryAgain attempt).reconnect.attempts ∧
    (f.tryAgain attempt).reconnect.attempts ≤ MAX_RECONNECT_ATTEMPTS := by
  rw [OutputFeed.tryAgain]
  split_ifs with hmax
  · exact ⟨by simpa [ReconnectState.attempts] using hle, le_rfl⟩
  · refine ⟨?_, ?_⟩
    · simp only [ReconnectState.attempts, List.length_append, List.length_singleton]
      omega
    · exact Nat.lt_of_not_le hmax

/-- **A step that handles no line** counts its reconnect, and schedules none too many. -/
theorem attempts_step (hle : f.reconnect.attempts ≤ MAX_RECONNECT_ATTEMPTS) (hstep : FeedStep f e f') :
    (¬e.HandlesLine → f.reconnect.attempts + (f'.scheduled.length - f.scheduled.length) ≤
      f'.reconnect.attempts) ∧ f'.reconnect.attempts ≤ MAX_RECONNECT_ATTEMPTS := by
  cases hstep with
  | react | deliver | report | other => exact ⟨fun _ => by simp, hle⟩
  | @wake before after delay hscheduled =>
    refine ⟨fun _ => ?_, hle⟩
    simp only [hscheduled, List.length_append, List.length_cons]
    omega
  | @handle event rest hqueue =>
    cases event with
    | outputLine process stream line => exact ⟨fun hno => absurd trivial hno, Nat.zero_le _⟩
    | outputStreamClosed =>
      obtain ⟨readers, scheduled, queue, reconnect⟩ := f
      cases reconnect with
      | failed => exact ⟨fun _ => by simp [OutputFeed.handle, OutputFeed.handleReconnect], le_rfl⟩
      | connected =>
        have htry := attempts_tryAgain (Nat.zero_le _) ⟨readers, scheduled, rest, .connected⟩
        exact ⟨fun _ => htry.1, htry.2⟩
      | reconnecting attempt =>
        have htry := attempts_tryAgain hle ⟨readers, scheduled, rest, .reconnecting attempt⟩
        exact ⟨fun _ => htry.1, htry.2⟩
    | key | mouse | statusUpdate => exact ⟨fun _ => by simp [OutputFeed.handle], hle⟩

/-- **Without a line handled in between** there are no more reconnects than the loop allows. -/
theorem countP_reconnects {us : List (Transition OutputFeed FeedEvent)}
    (hle : f.reconnect.attempts ≤ MAX_RECONNECT_ATTEMPTS) (h : outputFeed.Run f us f')
    (hline : ∀ τ ∈ us, ¬τ.ev.HandlesLine) :
    f.reconnect.attempts + us.countP (fun τ => Reconnects τ) ≤ f'.reconnect.attempts ∧
      f'.reconnect.attempts ≤ MAX_RECONNECT_ATTEMPTS := by
  induction h with
  | refl => exact ⟨le_rfl, hle⟩
  | @snoc us t u e hrun hstep ih =>
    obtain ⟨hcount, ht⟩ := ih fun τ hτ => hline τ (List.mem_append_left _ hτ)
    have hlast := hline ⟨t, e, u⟩ (List.mem_append_right _ (List.mem_singleton_self _))
    obtain ⟨hgrows, hu⟩ := attempts_step ht hstep
    refine ⟨?_, hu⟩
    have hsingle : List.countP (fun τ => decide (Reconnects τ)) [⟨t, e, u⟩] ≤
        u.scheduled.length - t.scheduled.length := by
      rw [List.countP_singleton]
      split_ifs with hmore
      · have hmore : t.scheduled.length < u.scheduled.length := of_decide_eq_true hmore
        omega
      · exact Nat.zero_le _
    rw [List.countP_append]
    have := hgrows hlast
    omega

end Row

/-! ## Along a run -/

section Run

variable {f₀ f f' : OutputFeed} {ts us : List (Transition OutputFeed FeedEvent)}

theorem fed_of_run (h₀ : outputFeed.init f₀) (h : outputFeed.Run f₀ ts f) :
    f.Fed (ts.countP fun τ => τ.ev.Silent) ∧ f.reconnect.attempts ≤ MAX_RECONNECT_ATTEMPTS := by
  obtain rfl : f₀ = .start := h₀
  induction h with
  | refl => exact ⟨OutputFeed.fed_start, Nat.zero_le _⟩
  | @snoc ts t u e hrun hstep ih =>
    refine ⟨?_, (attempts_step ih.2 hstep).2⟩
    have hfed := ih.1.step hstep
    rw [List.countP_append, List.countP_singleton]
    simpa using hfed

/-- **The output is read or about to be, exactly as long as** no reader returns without a report;
and in no run are there more reconnects in a row than the loop allows. -/
theorem count_eq_one_iff (h₀ : outputFeed.init f₀) (h : outputFeed.Run f₀ ts f) :
    (f.reconnect ≠ .failed → (f.count = 1 ↔ ∀ τ ∈ ts, ¬τ.ev.Silent)) ∧
      ∀ us f', outputFeed.Run f us f' → (∀ τ ∈ us, ¬τ.ev.HandlesLine) →
        us.countP (fun τ => Reconnects τ) ≤ MAX_RECONNECT_ATTEMPTS := by
  obtain ⟨hfed, hle⟩ := fed_of_run h₀ h
  refine ⟨fun hne => ?_, fun us f' hrun hline => ?_⟩
  · have hone := hfed.one hne
    have hnone : (ts.countP fun τ => τ.ev.Silent) = 0 ↔ ∀ τ ∈ ts, ¬τ.ev.Silent := by
      rw [List.countP_eq_zero]
      exact forall₂_congr fun τ _ => by rw [decide_eq_true_iff]
    rw [← hnone]
    omega
  · obtain ⟨hcount, hmax⟩ := countP_reconnects hle hrun hline
    omega

end Run

/-! ## A write that fails -/

/-- A reader that has connected, and cannot send its request. -/
theorem not_count_one : ∃ ts f, outputFeed.Run .start ts f ∧ f.reconnect ≠ .failed ∧ f.count = 0 := by
  have hconnect : outputFeed.Run .start _ _ := Machine.Run.refl.snoc
    (@FeedStep.react .start [] [] .connecting .succeeds _ rfl rfl)
  have hserialize := hconnect.snoc (@FeedStep.react _ [] [] .serializing .succeeds _ rfl rfl)
  have hwrite := hserialize.snoc (@FeedStep.react _ [] [] .writing .fails _ rfl rfl)
  exact ⟨_, _, hwrite, by decide, by decide⟩

/-- A daemon that is not there yet: the report is handled, and a reconnect is due in a second. -/
theorem count_eq_one_refused : ∃ ts f, outputFeed.Run .start ts f ∧ f.scheduled = [1] ∧ f.count = 1 := by
  have hconnect : outputFeed.Run .start _ _ := Machine.Run.refl.snoc
    (@FeedStep.react .start [] [] .connecting .fails _ rfl rfl)
  have hreport := hconnect.snoc (@FeedStep.report _ [] [] rfl (by decide))
  have hhandle := hreport.snoc (@FeedStep.handle _ .outputStreamClosed [] rfl)
  refine ⟨_, _, hhandle, rfl, ((count_eq_one_iff rfl hhandle).1 (by decide)).mpr ?_⟩
  simp [FeedEvent.Silent]

end AgentProcs
