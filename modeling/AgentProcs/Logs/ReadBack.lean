import AgentProcs.Logs.Naming
import AgentProcs.Logs.NoLoss

/-!
# Logs/ReadBack — what is written is what is read

    segments on disk   ═ Stored k ═   cur :: old        ── visible k ──▸   what the index admits to
         │ discoverSegments                                                     ║
         ▾                                                                   Shows
    DiskSegments, oldest first   ═════════════════════════════════════════════════╝

A segment shows the lines whose records are in its index; the newest one may show fewer than its
file holds.  Every reading function of the reader is a window into the lines shown.
-/

namespace AgentProcs

/-- The line is one line of a file: it holds no newline. -/
def NewlineFree (line : String) : Prop := NEWLINE ∉ utf8 line

instance (line : String) : Decidable (NewlineFree line) := inferInstanceAs (Decidable (_ ∉ _))

/-- The lines of each segment that its index admits to, newest segment first. -/
def visible (k : ℕ) : List Segment → List (List Entry)
  | [] => []
  | cur :: old => cur.entries.take k :: old.map Segment.entries

/-- What a reader makes of one segment. -/
structure Shows (disk : Disk) (seg : DiskSegment) (es : List Entry) : Prop where
  count : seg.lineCount = es.length
  reader : ∃ b, ∃ rs, IndexReader.openAt seg.idxPath disk = some ⟨es.length, b, rs⟩ ∧
    rs = recordsFrom 0 es
  lines : ∀ start count, readLinesFromSegment seg start count disk =
    .ok (((es.map Entry.line).drop start).take count)

/-- Reading a segment is reading these one by one. -/
structure ReadsAs {α : Type} (disk : Disk) (read : α → Except ReadError String) (seg : DiskSegment)
    (xs : List α) : Prop where
  count : seg.lineCount = xs.length
  lines : ∀ start count, readLinesFromSegment seg start count disk =
    ((xs.drop start).take count).mapM read

theorem Shows.readsAs {disk : Disk} {seg : DiskSegment} {es : List Entry} (h : Shows disk seg es) :
    ReadsAs disk (fun e => .ok e.line) seg es where
  count := h.count
  lines start count := by
    rw [h.lines, ← List.map_drop, ← List.map_take]
    exact (List.mapM_pure (m := Except ReadError) (f := Entry.line)).symm

/-! ## Records and lines -/

theorem drop_recordsFrom (offset i : ℕ) (es : List Entry) : (recordsFrom offset es).drop i =
    recordsFrom (offset + ((es.take i).flatMap Entry.bytes).length) (es.drop i) := by
  induction es generalizing offset i with
  | nil => simp [recordsFrom]
  | cons e es ih =>
    cases i with
    | zero => simp
    | succ i => simp [recordsFrom, ih, Nat.add_assoc]

theorem take_recordsFrom (offset i : ℕ) (es : List Entry) :
    (recordsFrom offset es).take i = recordsFrom offset (es.take i) := by
  induction es generalizing offset i with
  | nil => simp [recordsFrom]
  | cons e es ih =>
    cases i with
    | zero => rfl
    | succ i => simp [recordsFrom, ih]

/-- The bytes of whole lines, cut where a line starts. -/
theorem drop_flatMap_bytes (i : ℕ) (es : List Entry) :
    (es.flatMap Entry.bytes).drop ((es.take i).flatMap Entry.bytes).length =
      (es.drop i).flatMap Entry.bytes := by
  have hsplit : es.flatMap Entry.bytes =
      (es.take i).flatMap Entry.bytes ++ (es.drop i).flatMap Entry.bytes := by
    rw [← List.flatMap_append, List.take_append_drop]
  rw [hsplit, List.drop_left]

/-- **Lines written are lines read.** -/
theorem readSequence_flatMap {es : List Entry} (h : ∀ e ∈ es, NewlineFree e.line) {n : ℕ}
    (hn : n ≤ es.length) : readSequence n (es.flatMap Entry.bytes) =
      .ok ((es.take n).map Entry.line) := by
  induction n generalizing es with
  | zero => rfl
  | succ n ih =>
    cases es with
    | nil => exact absurd hn (Nat.not_succ_le_zero n)
    | cons e es =>
      obtain ⟨he, hes⟩ := List.forall_mem_cons.mp h
      have hbytes : (e :: es).flatMap Entry.bytes =
          utf8 e.line ++ NEWLINE :: es.flatMap Entry.bytes := by simp [Entry.bytes]
      have hdrop : dropNewline (utf8 e.line ++ [NEWLINE]) = utf8 e.line := by simp [dropNewline]
      rw [hbytes, readSequence, takeLine_line he, hdrop, utf8?_utf8, ih hes (Nat.le_of_succ_le_succ hn)]
      rfl

section Segment

variable {disk : Disk} {log idx : FileName} {es : List Entry} {b k : ℕ}

/-- The line count of an index comes from its length. -/
theorem len_index (b : ℕ) (rs : List IndexRecord) :
    ((Content.index b rs).len - HEADER_SIZE) / RECORD_SIZE = rs.length := by
  rw [Content.len, Nat.add_sub_cancel_left]
  exact Nat.mul_div_cancel_left _ (by decide)

theorem openAt_index {rs : List IndexRecord} (h : disk.read idx = some (.index b rs)) :
    IndexReader.openAt idx disk = some ⟨rs.length, b, rs⟩ := by
  simp only [IndexReader.openAt, h, len_index]

theorem lineCountFromMetadata_index {rs : List IndexRecord}
    (h : disk.read idx = some (.index b rs)) :
    IndexReader.lineCountFromMetadata idx disk = some rs.length := by
  have hheader : ¬(Content.index b rs).len < HEADER_SIZE := Nat.not_lt.mpr (Nat.le_add_right _ _)
  rw [IndexReader.lineCountFromMetadata, h, Option.map_some, if_neg hheader, len_index]

/-- The clamped end of a window is where its records end. -/
theorem window_index {rs : List IndexRecord} (start count : ℕ) :
    IndexReader.readRange start count ⟨rs.length, b, rs⟩ = (rs.drop start).take count := by
  rw [IndexReader.readRange, List.take_eq_take_iff, List.length_drop]
  simp only
  omega

/-- **A log file and its index** show the lines that have records. -/
theorem shows_of_read (hlog : disk.read log = some (.text (es.flatMap Entry.bytes)))
    (hidx : disk.read idx = some (.index b ((recordsFrom 0 es).take k)))
    (hfree : ∀ e ∈ es, NewlineFree e.line) : Shows disk ⟨log, idx, (es.take k).length⟩ (es.take k) where
  count := rfl
  reader := by
    refine ⟨b, recordsFrom 0 (es.take k), ?_, rfl⟩
    rw [openAt_index hidx, take_recordsFrom, length_recordsFrom]
  lines start count := by
    rw [readLinesFromSegment]
    by_cases hzero : count = 0
    · simp [hzero]
    rw [if_neg hzero, openAt_index hidx, take_recordsFrom]
    set shown := es.take k with hshown
    have hrange : IndexReader.readRange start count ⟨(recordsFrom 0 shown).length, b,
        recordsFrom 0 shown⟩ = recordsFrom ((shown.take start).flatMap Entry.bytes).length
          ((shown.drop start).take count) := by
      rw [window_index, drop_recordsFrom, take_recordsFrom, Nat.zero_add]
    simp only [hrange, hlog]
    rw [← List.map_drop, ← List.map_take]
    cases hwindow : (shown.drop start).take count with
    | nil => rfl
    | cons e window =>
      -- the window is not empty, so the records start inside the segment
      have hstart : start < shown.length := by
        by_contra hge
        rw [List.drop_of_length_le (Nat.not_lt.mp hge), List.take_nil] at hwindow
        cases hwindow
      have htake : shown.take start = es.take start := by
        rw [hshown, List.take_take, Nat.min_eq_left]
        rw [hshown, List.length_take] at hstart
        omega
      have hcount : (window.length + 1) = ((shown.drop start).take count).length := by
        rw [hwindow, List.length_cons]
      have hsub : (es.drop start).take (window.length + 1) = e :: window := by
        rw [← hwindow, hcount, hshown, List.drop_take, List.take_take]
        rw [List.length_take, ← List.take_eq_take_min]
      change readSequence ((recordsFrom _ window).length + 1) _ = _
      rw [length_recordsFrom, Content.bytes, htake, drop_flatMap_bytes, readSequence_flatMap, hsub]
      · exact fun e he => hfree e (List.mem_of_mem_drop he)
      · have hlen := congrArg List.length hsub
        rw [List.length_take, List.length_cons] at hlen
        omega

end Segment

/-! ## The segments of a stored log -/

section Discover

variable {path : FileName} {disk : Disk} {segs : List Segment} {k : ℕ}

/-- Segment `i` as the reader describes it. -/
def describe (path : FileName) (i : ℕ) (es : List Entry) : DiskSegment :=
  ⟨logName path i, idxName path i, es.length⟩

theorem length_visible (k : ℕ) (segs : List Segment) : (visible k segs).length = segs.length := by
  cases segs <;> simp [visible]

/-- What a file and its index hold, segment by segment. -/
theorem Stored.read (h : Stored path k disk segs) {i : ℕ} {es : List Entry}
    (hi : (visible k segs)[i]? = some es) : ∃ s ∈ segs, ∃ j, es = s.entries.take j ∧
      disk.read (logName path i) = some (.text s.text) ∧
      disk.read (idxName path i) = some (.index s.seqBase (s.records.take j)) := by
  have hlog : disk.read (logName path i) = _ := congrFun h.logs i
  have hidx : disk.read (idxName path i) = _ := congrFun h.indexes i
  rw [hlog, hidx]
  cases segs with
  | nil => cases hi
  | cons cur old =>
    cases i with
    | zero => exact ⟨cur, List.mem_cons_self, k, (Option.some.inj hi).symm, rfl, rfl⟩
    | succ i =>
      obtain ⟨s, hs, rfl⟩ : ∃ s, old[i]? = some s ∧ s.entries = es := by
        simpa [visible] using hi
      refine ⟨s, List.mem_cons_of_mem _ (List.mem_of_getElem? hs), s.entries.length, ?_, ?_, ?_⟩
      · rw [List.take_length]
      · simp [Directory.stack, hs]
      · simp [Directory.stack, indexContents, hs, Segment.fullIndex]

/-- **The reader finds segment `i`** if there is one. -/
theorem Stored.segmentAt (h : Stored path k disk segs) (i : ℕ) :
    segmentAt (logName path i) disk = (visible k segs)[i]?.map (describe path i) := by
  rw [AgentProcs.segmentAt]
  cases hi : (visible k segs)[i]? with
  | none =>
    have hnone : disk.read (logName path i) = none := by
      have hlog : disk.read (logName path i) = _ := congrFun h.logs i
      rw [hlog, Directory.stack, List.getElem?_eq_none_iff, List.length_map, ← length_visible k]
      exact List.getElem?_eq_none_iff.mp hi
    rw [FileSystem.read, Option.map_eq_none_iff] at hnone
    rw [hnone]
    rfl
  | some es =>
    obtain ⟨s, -, j, rfl, hlog, hidx⟩ := h.read hi
    have hsome : (disk.dir (logName path i)).isSome := by
      rw [FileSystem.read] at hlog
      exact Option.isSome_map.symm.trans (congrArg Option.isSome hlog)
    have hcount : IndexReader.lineCountFromMetadata (idxName path i) disk =
        some (s.entries.take j).length := by
      rw [lineCountFromMetadata_index hidx, Segment.records, take_recordsFrom, length_recordsFrom]
    have hidxPath : idxPathFor (logName path i) = idxName path i := rfl
    rw [if_pos hsome, hidxPath, hcount]
    rfl

theorem Stored.shows (h : Stored path k disk segs)
    (hfree : ∀ s ∈ segs, ∀ e ∈ s.entries, NewlineFree e.line) {i : ℕ} {es : List Entry}
    (hi : (visible k segs)[i]? = some es) : Shows disk (describe path i es) es := by
  obtain ⟨s, hs, j, rfl, hlog, hidx⟩ := h.read hi
  exact shows_of_read hlog hidx (hfree s hs)

end Discover

section Discover

variable {name : String} {source : LineSource} {disk : Disk} {segs : List Segment} {k : ℕ}
  {R : DiskSegment → List Entry → Prop}

/-- Probing the names of the rotated segments. -/
theorem forall₂_rotatedSegments (hname : name ≠ "") (hdot : name ≠ ".")
    (h : Stored (logPathOf name source.stream) k disk segs)
    (hR : ∀ i es, (visible k segs)[i]? = some es →
      R (describe (logPathOf name source.stream) i es) es) :
    ∀ fuel n, segs.length ≤ fuel + (n + 1) → List.Forall₂ R
      (rotatedSegments (logPathOf name source.stream) source.stream.extension disk fuel (n + 1))
      ((visible k segs).drop (n + 1))
  | 0, n, hfuel => by
    rw [List.drop_of_length_le (by rw [length_visible]; omega)]
    exact .nil
  | fuel + 1, n, hfuel => by
    have hprobe : probedPath name source.stream (n + 1) =
        logName (logPathOf name source.stream) (n + 1) := by
      rw [logName, rotatedPath_logPathOf hdot, rotatedStem, if_neg hname, probedPath_eq hname hdot]
    rw [rotatedSegments_logPathOf, hprobe, h.segmentAt]
    cases hi : (visible k segs)[n + 1]? with
    | none =>
      rw [List.drop_of_length_le (List.getElem?_eq_none_iff.mp hi)]
      exact .nil
    | some es =>
      obtain ⟨hlt, heq⟩ := List.getElem?_eq_some_iff.mp hi
      rw [List.drop_eq_getElem_cons hlt, heq]
      exact .cons (hR _ _ hi) (forall₂_rotatedSegments hname hdot h hR fuel (n + 1) (by omega))

/-- **The reader finds every segment**, oldest first. -/
theorem forall₂_discoverSegments (hname : name ≠ "") (hdot : name ≠ ".")
    (h : Stored (logPathOf name source.stream) k disk segs)
    (hR : ∀ i es, (visible k segs)[i]? = some es →
      R (describe (logPathOf name source.stream) i es) es) :
    List.Forall₂ R (discoverSegments name source disk) (visible k segs).reverse := by
  have hrot := rotatable_logPathOf hdot source.stream
  have hnext : segs.length ≤ disk.next := FileSystem.le_next (logName_injective hrot) fun i hi => by
    have hlog : disk.read (logName (logPathOf name source.stream) i) = _ := congrFun h.logs i
    have hsome : (disk.read (logName (logPathOf name source.stream) i)).isSome := by
      rw [hlog]
      simp [Directory.stack, hi]
    rwa [FileSystem.read, Option.isSome_map] at hsome
  have hrotated := forall₂_rotatedSegments hname hdot h hR disk.next 0 (by omega)
  have hcurrent : segmentAt (logPathOf name source.stream) disk = _ := h.segmentAt 0
  rw [discoverSegments]
  cases hvis : visible k segs with
  | nil =>
    rw [hvis] at hrotated hcurrent
    rw [List.drop_nil, List.forall₂_nil_right_iff] at hrotated
    simp only [hrotated, hcurrent]
    exact .nil
  | cons es vis =>
    have hshow := hR 0 es (by rw [hvis]; rfl)
    rw [hvis] at hrotated hcurrent
    simp only [hcurrent, List.reverse_cons]
    exact List.rel_append (List.forall₂_reverse_iff.mpr hrotated) (.cons hshow .nil)

end Discover

/-! ## Windows -/

section Window

variable {disk : Disk} {segments : List DiskSegment} {parts : List (List Entry)}

/-- The line count is the number of lines shown. -/
theorem sum_lineCount (h : List.Forall₂ (Shows disk) segments parts) :
    (segments.map (·.lineCount)).sum = parts.flatten.length := by
  induction h with
  | nil => rfl
  | cons hseg _ ih => simp [hseg.count, ih]

/-- A window that starts behind the first part lies in the second. -/
theorem drop_append_behind {α : Type*} {p q : List α} {start skipped : ℕ} (h : skipped + p.length ≤ start) :
    (p ++ q).drop (start - skipped) = q.drop (start - (skipped + p.length)) := by
  rw [List.drop_append, List.drop_of_length_le (by omega), List.nil_append, Nat.sub_sub]

/-- A window that starts in the first part, cut at the boundary. -/
theorem window_append {α : Type*} {p q : List α} {start stop skipped : ℕ}
    (hstart : start < skipped + p.length) :
    ((p ++ q).drop (start - skipped)).take (stop - max start skipped) =
      (p.drop (max start skipped - skipped)).take
        (min stop (skipped + p.length) - skipped - (max start skipped - skipped)) ++
      (q.drop (start - (skipped + p.length))).take (stop - max start (skipped + p.length)) := by
  have hskip : max start skipped - skipped = start - skipped := by omega
  have hnone : start - (skipped + p.length) = 0 := by omega
  rw [List.drop_append_of_le_length (by omega), List.take_append, List.length_drop, hskip, hnone,
    List.drop_zero, List.take_eq_take_min, List.length_drop]
  congr 2 <;> omega

/-- **The loop over the segments reads a window of what they hold.** -/
theorem readWindow_readsAs {α : Type} {read : α → Except ReadError String} {parts : List (List α)}
    (h : List.Forall₂ (ReadsAs disk read) segments parts) {start count : ℕ}
    (hend : start + count ≤ USIZE_MAX) (cumulative : ℕ) :
    readWindow start count disk cumulative segments = ((parts.flatten.drop (start - cumulative)).take
      (start + count - max start cumulative)).mapM read := by
  induction h generalizing cumulative with
  | nil => simp [readWindow, pure, Except.pure]
  | @cons seg xs segments parts hseg _ ih =>
    have hstop : windowEnd start count = .ok (start + count) := if_pos hend
    rw [readWindow, hstop]
    simp only [Except.bind, bind, hseg.count, hseg.lines, ih]
    rw [List.flatten_cons]
    split_ifs with hskip
    · rcases hskip with hbefore | hafter
      · rw [drop_append_behind hbefore, Nat.max_eq_left hbefore, Nat.max_eq_left (by omega)]
      · have hzero : start + count - max start cumulative = 0 := by omega
        have hzero' : start + count - max start (cumulative + xs.length) = 0 := by omega
        rw [hzero, hzero', List.take_zero, List.take_zero]
    · rw [window_append (by omega), List.mapM_append]
      rfl

/-- **The window of the lines they show.** -/
theorem readWindow_eq (h : List.Forall₂ (Shows disk) segments parts) {start count : ℕ}
    (hend : start + count ≤ USIZE_MAX) (cumulative : ℕ) :
    readWindow start count disk cumulative segments =
      .ok (((parts.flatten.map Entry.line).drop (start - cumulative)).take
        (start + count - max start cumulative)) := by
  rw [readWindow_readsAs (h.imp fun _ _ => Shows.readsAs) hend, ← List.map_drop, ← List.map_take]
  exact List.mapM_pure (m := Except ReadError) (f := Entry.line)

theorem readLinesFromSegments_eq (h : List.Forall₂ (Shows disk) segments parts) {start count : ℕ}
    {room : ℕ} (hend : start + count ≤ USIZE_MAX)
    (hcap : count * STRING_SIZE ≤ min room ISIZE_MAX) :
    readLinesFromSegments segments start count disk room =
      .ok (((parts.flatten.map Entry.line).drop start).take count) := by
  rw [readLinesFromSegments, if_pos hcap, readWindow_eq h hend]
  simp

end Window

/-! ## Write, rotate, read -/

/-- The lines of a log file, each with its newline. -/
def fileLines (disk : Disk) (path : FileName) : List (List UInt8) :=
  splitLines NEWLINE ((disk.read path).elim [] Content.bytes)

/-- **The round trip**: the reader gets back `kept`, the end of what was captured, in any of these
windows; which they are depends on the room the allocator has. -/
structure RoundTrip (windows : ℕ → ℕ → ℕ → Prop) (name : String) (source : LineSource)
    (maxBytes maxRotatedFiles : ℕ) (c : Capture) (kept : List String) : Prop where
  suffix : kept <:+ c.lines
  all : c.rotations ≤ maxRotatedFiles → kept = c.lines
  ends : SearchEnds name source c.shared.disk
  segments : (discoverSegments name source c.shared.disk).flatMap
    (fun seg => fileLines c.shared.disk seg.logPath) = kept.map (utf8 · ++ [NEWLINE])
  lineCount : ∀ (r : DiskLogReader) (now : ℕ), r.process = name → r.Stale now →
    (r.refresh now c.shared.disk).lineCount source = kept.length
  readLines : ∀ (r : DiskLogReader) (now room start count : ℕ), r.process = name → r.Stale now →
    windows room start count →
      (r.refresh now c.shared.disk).readLines c.shared.disk source start count room =
        .ok ((kept.drop start).take count)
  bounded : 0 < maxBytes → ∀ i file,
    c.shared.disk.read (logName (logPathOf name source.stream) i) = some file →
      file.len ≤ maxBytes ∨
        (fileLines c.shared.disk (logName (logPathOf name source.stream) i)).length = 1

/-- Any two `usize` values. -/
def AnyWindow (start count : ℕ) : Prop := start ≤ USIZE_MAX ∧ count ≤ USIZE_MAX

/-- The end is a `usize`, and `count` strings can be allocated. -/
def FitsWindow (room start count : ℕ) : Prop :=
  start + count ≤ USIZE_MAX ∧ count * STRING_SIZE ≤ min room ISIZE_MAX

section RoundTrip

variable {name : String} {source : LineSource}

theorem DiskLogReader.segments_refresh {disk : Disk} {r : DiskLogReader} {now : ℕ}
    (hname : r.process = name) (hstale : r.Stale now) :
    (r.refresh now disk).segments source = discoverSegments name source disk := by
  rw [refresh, if_pos hstale, ← hname]
  cases source <;> rfl

theorem visible_full (cur : Segment) (old : List Segment) :
    visible cur.entries.length (cur :: old) = (cur :: old).map Segment.entries := by
  rw [visible, List.take_length, List.map_cons]

/-- The raw lines of a segment's file. -/
theorem splitLines_text {s : Segment} (hfree : ∀ e ∈ s.entries, NewlineFree e.line) :
    splitLines NEWLINE s.text = s.entries.map Entry.bytes := by
  have hlines : s.text = (s.entries.map fun e => utf8 e.line).flatMap (· ++ [NEWLINE]) := by
    rw [List.flatMap_map]
    rfl
  rw [hlines, splitLines_flatMap, List.map_map]
  · rfl
  · intro l hl
    obtain ⟨e, he, rfl⟩ := List.mem_map.mp hl
    exact hfree e he

/-- The files of the segments the reader finds. -/
theorem flatMap_fileLines {disk : Disk} {cur : Segment} {old : List Segment} (hname : name ≠ "")
    (hdot : name ≠ ".")
    (h : Stored (logPathOf name source.stream) cur.entries.length disk (cur :: old))
    (hfree : ∀ s ∈ cur :: old, ∀ e ∈ s.entries, NewlineFree e.line) :
    (discoverSegments name source disk).flatMap (fun seg => fileLines disk seg.logPath) =
      (entriesOf (cur :: old)).map Entry.bytes := by
  have hfiles : ∀ i es, (visible cur.entries.length (cur :: old))[i]? = some es →
      fileLines disk (logName (logPathOf name source.stream) i) = es.map Entry.bytes := by
    intro i es hi
    rw [visible_full, List.getElem?_map] at hi
    obtain ⟨s, hs, rfl⟩ := Option.map_eq_some_iff.mp hi
    have hlog : disk.read (logName (logPathOf name source.stream) i) = _ := congrFun h.logs i
    rw [Directory.stack, List.getElem?_map, hs] at hlog
    rw [fileLines, hlog]
    exact splitLines_text (hfree s (List.mem_of_getElem? hs))
  have hall := forall₂_discoverSegments
    (R := fun seg es => fileLines disk seg.logPath = es.map Entry.bytes) hname hdot h hfiles
  rw [entriesOf, Shelf.history, ← visible_full]
  generalize discoverSegments name source disk = found at hall ⊢
  generalize (visible cur.entries.length (cur :: old)).reverse = parts at hall ⊢
  induction hall with
  | nil => rfl
  | cons hseg _ ih => rw [List.flatMap_cons, hseg, ih, List.flatten_cons, List.map_append]

/-- **An ended capture's log**: segments of whole lines, each with its complete index. -/
theorem logged_of_ended {ctx : LogContext} {c : Capture} (hrot : Rotatable ctx.logPath)
    (h : (captures ctx []).Reachable c) (hend : c.phase = .ended)
    (hfree : ∀ line ∈ c.lines, NewlineFree line) :
    ∃ cur old new, Logged ctx [] c cur.entries.length cur old new ∧
      ∀ s ∈ cur :: old, ∀ e ∈ s.entries, NewlineFree e.line := by
  obtain ⟨k, cur, old, new, hlog⟩ := logged_of_reachable hrot (Nat.zero_le _) h
  have hkept : entriesOf (cur :: old) <:+ new := hlog.kept
  refine ⟨cur, old, new, hlog.flushed hend ▸ hlog, fun s hs e he => ?_⟩
  have hmem : e ∈ entriesOf (cur :: old) :=
    List.mem_flatten.mpr ⟨s.entries, List.mem_reverse.mpr (List.mem_map_of_mem hs), he⟩
  exact hfree e.line (hlog.lines ▸ List.mem_map_of_mem (hkept.subset hmem))

/-- **Write, rotate, read**: once a capture into a directory without earlier segments has ended, the
reader reads back the end of it, and all of it while the rotations had room. -/
theorem roundTrip_of_ended (name : String) (hname : name ≠ "") (hdot : name ≠ ".")
    (source : LineSource) (maxBytes maxRotatedFiles : ℕ) (c : Capture)
    (h : (captures (.of name source.stream maxBytes maxRotatedFiles) []).Reachable c)
    (hend : c.phase = .ended) (hfree : ∀ line ∈ c.lines, NewlineFree line) :
    ∃ kept, RoundTrip FitsWindow name source maxBytes maxRotatedFiles c kept := by
  have hrot := rotatable_logPathOf hdot source.stream
  obtain ⟨cur, old, new, hlog, hfree'⟩ := logged_of_ended hrot h hend hfree
  have hkept : entriesOf (cur :: old) <:+ new := hlog.kept
  have hstored : Stored (logPathOf name source.stream) cur.entries.length c.shared.disk
      (cur :: old) := hlog.writing.stored
  have hshows := forall₂_discoverSegments hname hdot hstored fun _ _ hi => hstored.shows hfree' hi
  rw [visible_full] at hshows
  refine ⟨(entriesOf (cur :: old)).map Entry.line, ?_, fun hroom => ?_, searchEnds hdot source _,
    ?_, ?_, ?_, ?_⟩
  · rw [← hlog.lines]
    exact hkept.map _
  · rw [← hlog.lines, (hlog.all hroom).1]
    rfl
  · rw [flatMap_fileLines hname hdot hstored hfree', List.map_map]
    rfl
  · intro r now hr hstale
    rw [DiskLogReader.lineCount, DiskLogReader.segments_refresh hr hstale, sum_lineCount hshows,
      List.length_map]
    rfl
  · rintro r now room start count hr hstale ⟨hwindow, hcap⟩
    rw [DiskLogReader.readLines, DiskLogReader.segments_refresh hr hstale,
      readLinesFromSegments_eq hshows hwindow hcap]
    rfl
  · intro hmax i file hfile
    have hlogs : c.shared.disk.read (logName (logPathOf name source.stream) i) = _ :=
      congrFun hstored.logs i
    rw [hfile] at hlogs
    obtain ⟨s, hs, rfl⟩ := List.mem_map.mp (List.mem_of_getElem? hlogs.symm)
    refine (hlog.bounded (by simp) s hs hmax).imp id fun hone => ?_
    rw [fileLines, hfile]
    exact (congrArg List.length (splitLines_text (hfree' s hs))).trans
      ((List.length_map _).trans hone)

/-- **No window of `usize::MAX` lines can be read**: the reader reserves room for them first. -/
theorem exists_not_roundTrip_anyWindow :
    ∃ c, (captures (.of "web" .stdout 0 5) []).Reachable c ∧ c.phase = .ended ∧ c.lines = [] ∧
      ∀ kept, ¬RoundTrip (fun _ => AnyWindow) "web" .stdout 0 5 c kept := by
  have hend := ((reachable_opening.step .childCloses).step
    (@CaptureStep.stop _ _ .eof [] rfl (by decide) nofun)).step .supCloses |>.step
      (.finish rfl rfl (.inr rfl))
  refine ⟨_, hend, rfl, rfl, fun kept hround => ?_⟩
  have hread := hround.readLines (.new "web") 0 ISIZE_MAX 0 USIZE_MAX rfl nofun
    ⟨Nat.zero_le _, le_rfl⟩
  rw [DiskLogReader.readLines, readLinesFromSegments, if_neg (by decide)] at hread
  cases hread

/-- **A process called `.` keeps no history**: its rotated log would be the directory above, so the
rename fails, and the new log is created over the old one. -/
theorem exists_not_roundTrip_dot :
    ∃ c, (captures (.of "." .stdout 2 5) []).Reachable c ∧ c.phase = .ended ∧ c.lines = ["a", "b"] ∧
      c.rotations = 1 ∧ ∀ kept, ¬RoundTrip FitsWindow "." .stdout 2 5 c kept := by
  have hinit : (captures (.of "." .stdout 2 5) []).Reachable
      (.opened (.of "." .stdout 2 5) (.empty (.text [])) 0) :=
    .init ⟨_, _, ⟨fun _ => rfl, fun _ => rfl⟩, rfl⟩
  have hcloses := (hinit.step (.childWrites [97, 10, 98, 10] rfl)).step .childCloses
  have ha := hcloses.step (@CaptureStep.line _ _ "a" [98, 10] rfl (by decide +kernel))
  have hb := ha.step (@CaptureStep.line _ _ "b" [] rfl (by decide +kernel))
  have hstop := hb.step (@CaptureStep.stop _ _ .eof [] rfl (by decide +kernel) nofun)
  have hend := (hstop.step .supCloses).step (.finish rfl rfl (.inr rfl))
  refine ⟨_, hend, rfl, rfl, by decide +kernel, fun kept hround => ?_⟩
  have hall : kept = ["a", "b"] := hround.all (by decide +kernel)
  have hsegments := hround.segments
  rw [hall] at hsegments
  exact absurd hsegments (by decide +kernel)

/-- **Not every window can be read, nor the history of every process.** -/
theorem not_roundTrip :
    (∃ c, (captures (.of "web" .stdout 0 5) []).Reachable c ∧ c.phase = .ended ∧ c.lines = [] ∧
      ∀ kept, ¬RoundTrip (fun _ => AnyWindow) "web" .stdout 0 5 c kept) ∧
    ∃ c, (captures (.of "." .stdout 2 5) []).Reachable c ∧ c.phase = .ended ∧ c.lines = ["a", "b"] ∧
      c.rotations = 1 ∧ ∀ kept, ¬RoundTrip FitsWindow "." .stdout 2 5 c kept :=
  ⟨exists_not_roundTrip_anyWindow, exists_not_roundTrip_dot⟩

/-- `ab⏎c⏎d⏎` and the end, with room for four bytes: the second line starts a new file. -/
theorem roundTrip_of_ended_text :
    ∃ c, (captures (.of "web" .stdout 4 5) []).Reachable c ∧ c.lines = ["ab", "c", "d"] ∧
      c.rotations = 1 ∧ ∃ kept, RoundTrip FitsWindow "web" .stdout 4 5 c kept := by
  have hinit : (captures (.of "web" .stdout 4 5) []).Reachable
      (.opened (.of "web" .stdout 4 5) (.empty (.text [])) 0) :=
    .init ⟨_, _, ⟨fun _ => rfl, fun _ => rfl⟩, rfl⟩
  have hcloses := (hinit.step (.childWrites [97, 98, 10, 99, 10, 100, 10] rfl)).step .childCloses
  have hab := hcloses.step (@CaptureStep.line _ _ "ab" [99, 10, 100, 10] rfl (by decide +kernel))
  have hc := hab.step (@CaptureStep.line _ _ "c" [100, 10] rfl (by decide +kernel))
  have hd := hc.step (@CaptureStep.line _ _ "d" [] rfl (by decide +kernel))
  have hstop := hd.step (@CaptureStep.stop _ _ .eof [] rfl (by decide +kernel) nofun)
  have hend := (hstop.step .supCloses).step (.finish rfl rfl (.inr rfl))
  refine ⟨_, hend, rfl, by decide +kernel,
    roundTrip_of_ended "web" (by decide) (by decide) .stdout 4 5 _ hend rfl fun line hline => ?_⟩
  have hlines : line ∈ ["ab", "c", "d"] := hline
  simp only [List.mem_cons, List.not_mem_nil, or_false] at hlines
  obtain rfl | rfl | rfl := hlines <;> decide +kernel

end RoundTrip

end AgentProcs
