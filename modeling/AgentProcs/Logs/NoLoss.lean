import AgentProcs.Logs.Capture

/-!
# Logs/NoLoss — what a capture loses

    ok⏎ ok⏎ ok⏎ EOF            every line logged, indexed and sent once, in order
    ok⏎ ⟨no text⟩⏎ ok⏎ …       the loop ends at the second line; the third is never read

Up to the first line that is not valid UTF-8 a capture keeps everything.  There it stops reading, so
it is lossless exactly on streams all of whose lines are text.
-/

namespace AgentProcs

variable {ctx : LogContext} {older : List Segment} {c c' : Capture} {k : ℕ} {cur : Segment}
  {old : List Segment} {new : List Entry}

/-! ## Opening the log -/

/-- **A freshly opened log** holds the older segments and an empty one. -/
theorem Older.openAt {disk : Disk} (hx : Rotatable ctx.logPath) (h : Older ctx.logPath disk older)
    (hroom : older.length ≤ ctx.maxRotatedFiles) (seq : ℕ) :
    Writing ctx (.start (LogSink.openAt ctx.logPath seq disk).1)
      (LogSink.openAt ctx.logPath seq disk).2 0 ⟨seq, []⟩ older := by
  refine (Head.created _ disk seq).writing ⟨?_, ?_⟩ hroom
  · rw [FileSystem.read_create, FileSystem.read_create, update_idx_comp_logName _ _ hx,
      update_log_comp_logName _ _ hx]
    ext1 i
    cases i with
    | zero => rfl
    | succ i => exact h.logs i
  · rw [FileSystem.read_create, FileSystem.read_create, update_idx_comp_idxName _ _ hx,
      update_log_comp_idxName _ _ hx]
    ext1 i
    cases i with
    | zero => rfl
    | succ i => exact h.indexes i

/-! ## The log along a run -/

theorem Elsewhere.kept {sh sh' : Shared} (h : Elsewhere ctx sh sh') :
    Kept ctx.logPath sh.disk sh'.disk :=
  { h with }

namespace Logged

/-- Only the writer's side of a capture matters. -/
theorem congr (h : Logged ctx older c k cur old new) (hstate : c'.state = c.state)
    (hshared : c'.shared = c.shared) (hwritten : c'.written = c.written)
    (hrotations : c'.rotations = c.rotations) (hphase : c'.phase = .ended → c.phase = .ended) :
    Logged ctx older c' k cur old new where
  writing := by rw [hstate, hshared]; exact h.writing
  lines := by rw [Capture.lines, hwritten]; exact h.lines
  kept := h.kept
  all := by rw [hrotations]; exact h.all
  bounded := h.bounded
  sent := by rw [Capture.lines, hwritten, hshared]; exact h.sent
  flushed hend := h.flushed (hphase hend)

theorem opened {disk : Disk} (hx : Rotatable ctx.logPath) (h : Older ctx.logPath disk older)
    (hroom : older.length ≤ ctx.maxRotatedFiles) (seq : ℕ) :
    Logged ctx older (.opened ctx disk seq) 0 ⟨seq, []⟩ older [] where
  writing := h.openAt hx hroom seq
  lines := rfl
  kept := by rw [entriesOf_cons]
  all _ := ⟨by rw [entriesOf_cons], by simp [Capture.opened]⟩
  bounded hold := List.forall_mem_cons.mpr ⟨fun _ => .inl (Nat.zero_le _), hold⟩
  sent := rfl
  flushed hend := by simp [Capture.opened] at hend

/-- **A line written** is the log's next. -/
theorem write (hx : Rotatable ctx.logPath) (h : Logged ctx older c k cur old new)
    (hphase : c.phase ≠ .ended) (o : Origin) (line : String) :
    ∃ k' cur' old', Logged ctx older (c.write ctx o line) k' cur' old'
      (new ++ [⟨line, c.shared.seq⟩]) := by
  obtain ⟨k', cur', old', hstep, hw, -, hsent, -⟩ := h.writing.writeLine hx line
  have hover : c.state.Overflows ctx line ↔ Overflows ctx line cur := by
    rw [LogWriteState.Overflows, Overflows, h.writing.bytes]
  have hlines : (c.write ctx o line).lines = c.lines ++ [line] := by
    simp [Capture.lines, Capture.write]
  refine ⟨k', cur', old', hw, ?_, ?_, fun hroom => ?_, fun hold => ?_, ?_, fun hend =>
    absurd hend hphase⟩
  · rw [List.map_append, h.lines, hlines]
    rfl
  · rw [hstep, ← List.append_assoc]
    obtain ⟨gone, hgone⟩ := h.kept
    refine entriesOf_logStep_suffix.trans ⟨gone, ?_⟩
    rw [← List.append_assoc, hgone]
  · -- while there is room for every rotation, the one this line may need has room too
    have hcount : (c.write ctx o line).rotations =
        if Overflows ctx line cur then c.rotations + 1 else c.rotations := by
      simp only [Capture.write, hover]
    rw [hcount] at hroom
    have hle : c.rotations + older.length ≤ ctx.maxRotatedFiles := by split_ifs at hroom <;> omega
    obtain ⟨hall, hlen⟩ := h.all hle
    have hfits : Overflows ctx line cur → old.length < ctx.maxRotatedFiles := fun hfull => by
      rw [if_pos hfull] at hroom
      omega
    have hlength := length_logStep (e := ⟨line, c.shared.seq⟩) hfits
    rw [← hstep, List.length_cons] at hlength
    rw [hstep, entriesOf_logStep hfits, hall, List.append_assoc, hcount]
    refine ⟨rfl, ?_⟩
    split_ifs at hlength ⊢ <;> omega
  · rw [hstep]
    exact bounded_logStep (h.bounded hold)
  · have hown : (c.write ctx o line).shared.sent =
        c.shared.sent ++ [⟨ctx.processName, ctx.stream, line⟩] := hsent
    rw [hown, List.filter_append, h.sent, hlines, List.map_append]
    simp

/-- The end of a capture leaves nothing unflushed. -/
theorem finish (hx : Rotatable ctx.logPath) (h : Logged ctx older c k cur old new) :
    Logged ctx older c.finish cur.entries.length cur old new where
  writing := h.writing.flushIdx hx
  lines := h.lines
  kept := h.kept
  all := h.all
  bounded := h.bounded
  sent := h.sent
  flushed _ := rfl

/-- Steps of others change nothing here. -/
theorem others {sh : Shared} (h : Logged ctx older c k cur old new)
    (ho : Elsewhere ctx c.shared sh) :
    Logged ctx older { c with shared := sh } k cur old new where
  writing := (ho.kept.current.head h.writing.head).writing (ho.kept.stored h.writing.stored)
    h.writing.room
  lines := h.lines
  kept := h.kept
  all := h.all
  bounded := h.bounded
  sent := by
    obtain ⟨more, hmore, hother⟩ := ho.sent
    have hnone : more.filter (fun o => o.process = ctx.processName ∧ o.stream = ctx.stream) = [] :=
      List.filter_eq_nil_iff.mpr fun o ho => by simpa using hother o ho
    rw [hmore, List.filter_append, hnone, List.append_nil]
    exact h.sent
  flushed := h.flushed

end Logged

/-- **What every capture keeps**, whatever it is fed and whatever happens around it. -/
theorem logged_of_reachable (hx : Rotatable ctx.logPath)
    (hroom : older.length ≤ ctx.maxRotatedFiles) (h : (captures ctx older).Reachable c) :
    ∃ k cur old new, Logged ctx older c k cur old new := by
  refine Machine.Reachable.invariant
    (P := fun c => ∃ k cur old new, Logged ctx older c k cur old new) h ?_ ?_
  · rintro c ⟨disk, seq, hold, rfl⟩
    exact ⟨_, _, _, _, .opened hx hold hroom seq⟩
  · rintro c ev c' - ⟨k, cur, old, new, hlog⟩ hstep
    cases hstep with
    | childWrites chunk => exact ⟨k, cur, old, new, hlog.congr rfl rfl rfl rfl id⟩
    | childCloses => exact ⟨k, cur, old, new, hlog.congr rfl rfl rfl rfl id⟩
    | supSends => exact ⟨k, cur, old, new, hlog.congr rfl rfl rfl rfl id⟩
    | supCloses => exact ⟨k, cur, old, new, hlog.congr rfl rfl rfl rfl id⟩
    | @line text rest hphase =>
      have hlog' : Logged ctx older { c with unread := rest } k cur old new :=
        hlog.congr rfl rfl rfl rfl id
      obtain ⟨k', cur', old', hnew⟩ := hlog'.write hx (by simp [hphase]) .pipe text
      exact ⟨k', cur', old', _, hnew⟩
    | stop hphase => exact ⟨k, cur, old, new, hlog.congr rfl rfl rfl rfl (nomatch ·)⟩
    | @recvSup message rest hphase =>
      have hlog' : Logged ctx older { c with supervisor := rest } k cur old new :=
        hlog.congr rfl rfl rfl rfl id
      obtain ⟨k', cur', old', hnew⟩ := hlog'.write hx hphase .supervisor message
      exact ⟨k', cur', old', _, hnew⟩
    | cancel => exact ⟨k, cur, old, new, hlog.congr rfl rfl rfl rfl (nomatch ·)⟩
    | finish => exact ⟨_, cur, old, new, hlog.finish hx⟩
    | others ho => exact ⟨k, cur, old, new, hlog.others ho⟩

/-! ## The pipe along a run -/

/-- The lines of the pipe so far, each decoded. -/
def decodedLines (bytes : List UInt8) : List (Option String) :=
  (splitLines NEWLINE bytes).map decodeLine

/-- **What has been read of the pipe**: whole lines, each logged; and once the loop has ended, either
all of it, or up to a line that is no text. -/
structure Piped (c : Capture) : Prop where
  reading : c.phase = .reading → ∃ read, c.stream = read ++ c.unread ∧
    (Terminated NEWLINE read ∨ c.closed = true ∧ c.unread = []) ∧
    (c.linesFrom .pipe).map some = decodedLines read
  stopped : c.phase ≠ .reading → c.cancelled = false →
    (c.closed = true ∧ c.unread = [] ∧ (c.linesFrom .pipe).map some = decodedLines c.stream) ∨
    ∃ read raw more, decodeLine raw = none ∧ c.stream = read ++ raw ++ more ∧
      (Terminated NEWLINE (read ++ raw) ∨ c.closed = true ∧ more = []) ∧
      splitLines NEWLINE (read ++ raw) = splitLines NEWLINE read ++ [raw] ∧
      (c.linesFrom .pipe).map some = decodedLines read

/-- What a line read is cut from. -/
theorem nextLine_cases {unread rest : List UInt8} {closed : Bool} {res : NextLine}
    (h : nextLine unread closed = some (res, rest)) :
    (unread = [] ∧ closed = true ∧ res = .eof ∧ rest = []) ∨
    ∃ raw, unread = raw ++ rest ∧ res = (decodeLine raw).elim .error .line ∧
      splitLines NEWLINE raw = [raw] ∧
      ((∃ l, raw = l ++ [NEWLINE]) ∨ closed = true ∧ rest = []) := by
  rw [nextLine] at h
  rcases line_or_more NEWLINE unread with hnone | ⟨l, r, hl, rfl⟩
  · by_cases hclosed : closed = true
    · rw [if_pos (.inr hclosed), takeLine_of_notMem hnone] at h
      obtain ⟨rfl, rfl⟩ := Prod.mk.inj (Option.some.inj h)
      by_cases hempty : unread = []
      · exact .inl ⟨hempty, hclosed, if_pos hempty, rfl⟩
      · exact .inr ⟨unread, (List.append_nil _).symm, if_neg hempty,
          splitLines_of_notMem hnone hempty, .inr ⟨hclosed, rfl⟩⟩
    · rw [if_neg (not_or.mpr ⟨hnone, hclosed⟩)] at h
      cases h
  · rw [if_pos (.inl (by simp)), takeLine_line hl] at h
    obtain ⟨rfl, rfl⟩ := Prod.mk.inj (Option.some.inj h)
    exact .inr ⟨l ++ [NEWLINE], by simp,
      if_neg (List.append_ne_nil_of_right_ne_nil l (List.cons_ne_nil _ _)),
      splitLines_line (r := []) hl, .inl ⟨l, rfl⟩⟩

namespace Piped

/-- Only the reader's side of a capture matters. -/
theorem congr (h : Piped c) (hstream : c'.stream = c.stream) (hunread : c'.unread = c.unread)
    (hclosed : c.closed = true → c'.closed = true)
    (hlines : c'.linesFrom .pipe = c.linesFrom .pipe)
    (hphase : c'.phase = .reading ↔ c.phase = .reading) (hcancelled : c'.cancelled = c.cancelled) :
    Piped c' where
  reading hread := by
    obtain ⟨read, hsplit, hend, hmap⟩ := h.reading (hphase.mp hread)
    exact ⟨read, by rw [hstream, hunread, hsplit],
      hend.imp_right fun ⟨hc, hu⟩ => ⟨hclosed hc, hunread.trans hu⟩, by rw [hlines, hmap]⟩
  stopped hstop hcancel := by
    rcases h.stopped (mt hphase.mpr hstop) (hcancelled ▸ hcancel) with
      ⟨hc, hu, hmap⟩ | ⟨read, raw, more, hraw, hsplit, hend, hcut, hmap⟩
    · exact .inl ⟨hclosed hc, hunread.trans hu, by rw [hlines, hstream, hmap]⟩
    · exact .inr ⟨read, raw, more, hraw, hstream.trans hsplit,
        hend.imp_right fun ⟨hc, hm⟩ => ⟨hclosed hc, hm⟩, hcut, by rw [hlines, hmap]⟩

/-- Bytes arrive behind what is read. -/
theorem childWrites (h : Piped c) (hopen : c.closed = false) (chunk : List UInt8) :
    Piped { c with stream := c.stream ++ chunk, unread := c.unread ++ chunk } where
  reading hread := by
    obtain ⟨read, hsplit, hend, hmap⟩ := h.reading hread
    refine ⟨read, ?_, .inl (hend.resolve_right fun ⟨hc, _⟩ => ?_), hmap⟩
    · rw [hsplit, List.append_assoc]
    · rw [hopen] at hc
      cases hc
  stopped hstop hcancel := by
    rcases h.stopped hstop hcancel with
      ⟨hc, -, -⟩ | ⟨read, raw, more, hraw, hsplit, hend, hcut, hmap⟩
    · rw [hopen] at hc
      cases hc
    · refine .inr ⟨read, raw, more ++ chunk, hraw, ?_, .inl (hend.resolve_right fun ⟨hc, _⟩ => ?_),
        hcut, hmap⟩
      · rw [hsplit, List.append_assoc]
      · rw [hopen] at hc
        cases hc

/-- **A line read** is logged before the next. -/
theorem line (h : Piped c) (hphase : c.phase = .reading) {text : String} {rest : List UInt8}
    (hnext : nextLine c.unread c.closed = some (.line text, rest)) :
    Piped (({ c with unread := rest } : Capture).write ctx .pipe text) where
  reading _ := by
    obtain ⟨read, hsplit, hend, hmap⟩ := h.reading hphase
    rcases nextLine_cases hnext with ⟨-, -, hres, -⟩ | ⟨raw, hraw, hres, hcut, hraws⟩
    · cases hres
    · have hdecode : decodeLine raw = some text := by
        cases hd : decodeLine raw with
        | none => rw [hd] at hres; cases hres
        | some t => rw [hd] at hres; exact congrArg some (NextLine.line.inj hres).symm
      have hterm : Terminated NEWLINE read := hend.resolve_right fun ⟨_, hu⟩ => by
        have hempty : raw = [] := (List.append_eq_nil_iff.mp (hraw.symm.trans hu)).1
        rw [hempty] at hcut
        cases hcut
      refine ⟨read ++ raw, ?_, ?_, ?_⟩
      · change c.stream = read ++ raw ++ rest
        rw [hsplit, hraw, List.append_assoc]
      · rcases hraws with ⟨l, rfl⟩ | ⟨hclosed, hrest⟩
        · exact .inl (.append_line l read)
        · exact .inr ⟨hclosed, hrest⟩
      · have hlines : (({ c with unread := rest } : Capture).write ctx .pipe text).linesFrom .pipe =
            c.linesFrom .pipe ++ [text] := by simp [Capture.linesFrom, Capture.write]
        rw [hlines, List.map_append, hmap, decodedLines, decodedLines, splitLines_append hterm, hcut,
          List.map_append]
        simp [hdecode]
  stopped hstop := absurd hphase hstop

/-- **The loop ends** at the end of the pipe, or at a line that is no text. -/
theorem stop (h : Piped c) (hphase : c.phase = .reading) {res : NextLine} {rest : List UInt8}
    (hnext : nextLine c.unread c.closed = some (res, rest)) (hres : ∀ text, res ≠ .line text) :
    Piped { c with unread := rest, phase := .draining } where
  reading hread := nomatch hread
  stopped _ _ := by
    obtain ⟨read, hsplit, hend, hmap⟩ := h.reading hphase
    rcases nextLine_cases hnext with ⟨hu, hclosed, -, rfl⟩ | ⟨raw, hraw, hres', hcut, hraws⟩
    · refine .inl ⟨hclosed, rfl, ?_⟩
      rw [hu, List.append_nil] at hsplit
      change (c.linesFrom .pipe).map some = decodedLines c.stream
      rw [hsplit, hmap]
    · have hdecode : decodeLine raw = none := by
        cases hd : decodeLine raw with
        | none => rfl
        | some t => rw [hd] at hres'; exact absurd hres' (hres t)
      have hterm : Terminated NEWLINE read := hend.resolve_right fun ⟨_, hu⟩ => by
        have hempty : raw = [] := (List.append_eq_nil_iff.mp (hraw.symm.trans hu)).1
        rw [hempty] at hcut
        cases hcut
      refine .inr ⟨read, raw, rest, hdecode, ?_, ?_, ?_, hmap⟩
      · change c.stream = read ++ raw ++ rest
        rw [hsplit, hraw, List.append_assoc]
      · rcases hraws with ⟨l, rfl⟩ | ⟨hclosed, hrest⟩
        · exact .inl (.append_line l read)
        · exact .inr ⟨hclosed, hrest⟩
      · rw [splitLines_append hterm, hcut]

end Piped

theorem piped_of_reachable (h : (captures ctx older).Reachable c) : Piped c := by
  refine h.invariant ?_ ?_
  · rintro c ⟨disk, seq, -, rfl⟩
    exact ⟨fun _ => ⟨[], rfl, .inl .nil, rfl⟩, fun hstop => absurd rfl hstop⟩
  · rintro c ev c' - hpiped hstep
    cases hstep with
    | childWrites chunk hopen => exact hpiped.childWrites hopen chunk
    | childCloses => exact hpiped.congr rfl rfl (fun _ => rfl) rfl .rfl rfl
    | supSends => exact hpiped.congr rfl rfl id rfl .rfl rfl
    | supCloses => exact hpiped.congr rfl rfl id rfl .rfl rfl
    | line hphase hnext => exact hpiped.line hphase hnext
    | stop hphase hnext hres => exact hpiped.stop hphase hnext hres
    | recvSup => exact hpiped.congr rfl rfl id (by simp [Capture.linesFrom, Capture.write]) .rfl rfl
    | cancel => exact ⟨nofun, nofun⟩
    | finish hphase => exact hpiped.congr rfl rfl id rfl (by simp [Capture.finish, hphase]) rfl
    | others => exact hpiped.congr rfl rfl id rfl .rfl rfl

/-! ## No line is lost -/

/-- What the bytes read so far are a copy of: a line that is text is logged as it is. -/
def Copies (raw : List UInt8) (line : String) : Prop := ∀ text, decodeLine raw = some text → line = text

/-- **Capture loses no output.** -/
structure Captured (ctx : LogContext) (older : List Segment) (c : Capture) : Prop where
  /-- It reads until the pipe ends. -/
  reads : c.phase ≠ .reading → c.closed = true ∧ c.unread = []
  /-- Each line read is written once, in order. -/
  copied : ∃ read, c.stream = read ++ c.unread ∧
    List.Forall₂ Copies (splitLines NEWLINE read) (c.linesFrom .pipe)
  /-- What is written, and the supervisor's lines between, is one entry of the log each, with one
  record; rotations only remove the oldest. -/
  logged : ∃ k cur old new, Stored ctx.logPath k c.shared.disk (cur :: old) ∧
    new.map Entry.line = c.lines ∧ entriesOf (cur :: old) <:+ entriesOf older ++ new ∧
    (c.rotations + older.length ≤ ctx.maxRotatedFiles →
      entriesOf (cur :: old) = entriesOf older ++ new) ∧
    (c.phase = .ended → k = cur.entries.length)
  /-- and one broadcast. -/
  sent : (c.shared.sent.filter fun o => o.process = ctx.processName ∧ o.stream = ctx.stream) =
    c.lines.map fun line => ⟨ctx.processName, ctx.stream, line⟩

theorem copies_of_decoded {raws : List (List UInt8)} {lines : List String}
    (h : lines.map some = raws.map decodeLine) : List.Forall₂ Copies raws lines := by
  induction raws generalizing lines with
  | nil =>
    obtain rfl := List.map_eq_nil_iff.mp h
    exact .nil
  | cons raw raws ih =>
    cases lines with
    | nil => exact absurd h.symm (List.cons_ne_nil _ _)
    | cons line lines =>
      obtain ⟨hline, hlines⟩ := List.cons_eq_cons.mp h
      exact .cons (fun text htext => Option.some.inj (hline.trans htext)) (ih hlines)

/-- **While it reads**, a capture has lost nothing; **once it has stopped**, it has lost nothing if and
only if every line of the stream is text. -/
theorem captured_iff_decodes (name : String) (hname : name ≠ ".") (stream : Stream)
    (maxBytes maxRotatedFiles : ℕ) (older : List Segment) (hroom : older.length ≤ maxRotatedFiles)
    (c : Capture)
    (h : (captures (.of name stream maxBytes maxRotatedFiles) older).Reachable c)
    (hcancel : c.cancelled = false) :
    (c.phase = .reading → Captured (.of name stream maxBytes maxRotatedFiles) older c) ∧
    (c.phase ≠ .reading → (Captured (.of name stream maxBytes maxRotatedFiles) older c ↔
      ∀ raw ∈ splitLines NEWLINE c.stream, (decodeLine raw).isSome)) := by
  obtain ⟨k, cur, old, new, hlog⟩ := logged_of_reachable (rotatable_logPathOf hname stream) hroom h
  have hpiped := piped_of_reachable h
  have hcaptured : ∀ read, c.stream = read ++ c.unread →
      (c.linesFrom .pipe).map some = decodedLines read →
      (c.phase ≠ .reading → c.closed = true ∧ c.unread = []) →
      Captured (.of name stream maxBytes maxRotatedFiles) older c := fun read hsplit hmap hreads =>
    { reads := hreads
      copied := ⟨read, hsplit, copies_of_decoded hmap⟩
      logged := ⟨k, cur, old, new, hlog.writing.stored, hlog.lines, hlog.kept,
        fun hroom => (hlog.all hroom).1, hlog.flushed⟩
      sent := hlog.sent }
  refine ⟨fun hphase => ?_, fun hphase => ⟨fun hcap => ?_, fun htext => ?_⟩⟩
  · obtain ⟨read, hsplit, -, hmap⟩ := hpiped.reading hphase
    exact hcaptured read hsplit hmap fun hstop => absurd hphase hstop
  · rcases hpiped.stopped hphase hcancel with
      ⟨-, -, hmap⟩ | ⟨read, raw, more, hraw, hsplit, hend, hcut, hmap⟩
    · intro raw hraw
      have hmem : decodeLine raw ∈ (c.linesFrom .pipe).map some := by
        rw [hmap]
        exact List.mem_map_of_mem hraw
      obtain ⟨line, -, hline⟩ := List.mem_map.mp hmem
      rw [← hline]
      rfl
    · -- the line that is no text was cut off the stream, but not logged
      exfalso
      obtain ⟨hclosed, hunread⟩ := hcap.reads hphase
      obtain ⟨all, hall, hcopies⟩ := hcap.copied
      rw [hunread, List.append_nil] at hall
      have hlen := hcopies.length_eq
      have hread : (c.linesFrom .pipe).length = (splitLines NEWLINE read).length := by
        have := congrArg List.length hmap
        rwa [List.length_map, decodedLines, List.length_map] at this
      have hmore : splitLines NEWLINE all = splitLines NEWLINE read ++ raw :: splitLines NEWLINE more := by
        rw [← hall, hsplit]
        rcases hend with hterm | ⟨-, rfl⟩
        · rw [splitLines_append hterm, hcut, List.append_assoc, List.singleton_append]
        · rw [List.append_nil, hcut, splitLines_nil]
      rw [hmore, List.length_append, List.length_cons] at hlen
      omega
  · rcases hpiped.stopped hphase hcancel with
      ⟨hclosed, hunread, hmap⟩ | ⟨read, raw, more, hraw, hsplit, hend, hcut, hmap⟩
    · exact hcaptured c.stream (by rw [hunread, List.append_nil]) hmap fun _ => ⟨hclosed, hunread⟩
    · exfalso
      have hmem : raw ∈ splitLines NEWLINE c.stream := by
        rw [hsplit]
        rcases hend with hterm | ⟨-, rfl⟩
        · rw [splitLines_append hterm, hcut]
          simp
        · rw [List.append_nil, hcut]
          simp
      have hsome := htext raw hmem
      rw [hraw] at hsome
      cases hsome

/-! ## Two streams -/

section Streams

/-- A capture of `web`'s standard output into an empty directory. -/
def opening : Capture := .opened (.of "web" .stdout 0 5) (.empty (.text [])) 0

theorem reachable_opening : (captures (.of "web" .stdout 0 5) []).Reachable opening :=
  .init ⟨_, _, ⟨fun _ => rfl, fun _ => rfl⟩, rfl⟩

/-- `a⏎`, and the end. -/
theorem captured_iff_decodes_text : ∃ c, (captures (.of "web" .stdout 0 5) []).Reachable c ∧
    c.phase = .ended ∧ c.linesFrom .pipe = ["a"] ∧
    Captured (.of "web" .stdout 0 5) [] c := by
  have hwrites := reachable_opening.step (.childWrites [97, 10] rfl)
  have hcloses := hwrites.step .childCloses
  have hline := hcloses.step (@CaptureStep.line _ _ "a" [] rfl (by decide +kernel))
  have hstop := hline.step (@CaptureStep.stop _ _ .eof [] rfl (by decide +kernel) nofun)
  have hend := (hstop.step .supCloses).step (.finish rfl rfl (.inr rfl))
  refine ⟨_, hend, rfl, rfl, ?_⟩
  exact ((captured_iff_decodes "web" (by decide) .stdout 0 5 [] (Nat.zero_le _) _ hend rfl).2
    nofun).mpr (by decide +kernel)

/-- **A byte that is no text** ends the capture: the line `a` behind it stays in the pipe. -/
theorem not_captured : ∃ c, (captures (.of "web" .stdout 0 5) []).Reachable c ∧
    c.cancelled = false ∧ c.phase = .ended ∧ c.stream = [255, 10, 97, 10] ∧ c.lines = [] ∧
    ¬Captured (.of "web" .stdout 0 5) [] c := by
  have hwrites := reachable_opening.step (.childWrites [255, 10, 97, 10] rfl)
  have hstop := hwrites.step (@CaptureStep.stop _ _ .error [97, 10] rfl (by decide +kernel) nofun)
  have hend := (hstop.step .supCloses).step (.finish rfl rfl (.inr rfl))
  refine ⟨_, hend, rfl, rfl, rfl, rfl, fun hcap => ?_⟩
  exact absurd (hcap.reads nofun).2 (List.cons_ne_nil _ _)

end Streams

end AgentProcs
