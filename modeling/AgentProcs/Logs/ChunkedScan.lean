import AgentProcs.Logs.AddressSpace

/-!
# Logs/ChunkedScan — a chunk is read as a whole

    stdout   l₀ err ✗ l₃ ⋯ l₉₉₉ │ l₁₀₀₀ err ⋯      ✗ is no text
    scan       └── not read ──┘   └── read ──┘     the first err is not found

A scan reads a thousand lines at a time, and passes over a chunk that holds a line it cannot read,
with every match in it.  Line by line the match would be read.  A scan from every start finds all
there is to find if and only if no match has an unreadable line within a thousand lines of it.
-/

namespace AgentProcs

/-! ## The lines of a mode -/

/-- A line of a mode as it is read. -/
def readCell (c : LineSource × Option String) : Except ReadError (LineSource × String) :=
  (orFail c.2).map (c.1, ·)

/-- It is text, and contains the filter. -/
def matchesCell (filter : String) (c : LineSource × Option String) : Bool :=
  c.2.any fun text => contains text filter

namespace DiskLogReader

variable (disk : Disk) (mode : StreamMode) (r : DiskLogReader)

/-- The lines of a mode as they are read, `none` for one that is no text. -/
def cells : List (LineSource × Option String) :=
  match mode with
  | .stdout => (r.ownLines disk .stdout).map (.stdout, ·)
  | .stderr => (r.ownLines disk .stderr).map (.stderr, ·)
  | .both => (r.buildMergedIndex disk).map (r.cellAt disk)

/-- A line as `read_lines` or `read_interleaved` gives it. -/
def given (n : ℕ) : Option (LineSource × String) :=
  match r.readRange disk mode n 1 with
  | .ok lines => lines.head?
  | .error _ => none

/-- The line is given, and contains the filter. -/
def MatchesAt (filter : String) (n : ℕ) : Prop :=
  ∃ line ∈ r.given disk mode n, contains line.2 filter = true

instance (filter : String) (n : ℕ) : Decidable (r.MatchesAt disk mode filter n) := by
  unfold MatchesAt
  infer_instance

/-- **No match within a thousand lines of a line that is no text.** -/
def Undisturbed (filter : String) : Prop :=
  ∀ i u c d, (r.cells disk mode)[i]? = some c → (r.cells disk mode)[u]? = some d →
    i < u + CHUNK → u < i + CHUNK → matchesCell filter c = true → d.2.isSome

end DiskLogReader

namespace DiskLogReader.Whole

variable {disk : Disk} {mode : StreamMode} {r : DiskLogReader}

theorem total (h : r.Whole disk) (mode : StreamMode) : r.total mode = (r.cells disk mode).length := by
  cases mode with
  | stdout => rw [DiskLogReader.total, h.lineCount, cells, List.length_map]
  | stderr => rw [DiskLogReader.total, h.lineCount, cells, List.length_map]
  | both => rw [DiskLogReader.total, ← h.length_merged, cells, List.length_map]

/-- **Every mode is read line by line.** -/
theorem readRange (h : r.Whole disk) {start count : ℕ}
    (hwindow : FitsWindow ISIZE_MAX start count) :
    r.readRange disk mode start count =
      (((r.cells disk mode).drop start).take count).mapM readCell := by
  have hstream : ∀ source, (r.readLines disk source start count).map (·.map (source, ·)) =
      ((((r.ownLines disk source).map (source, ·)).drop start).take count).mapM readCell :=
    fun source => by
      rw [h.readLines hwindow, map_mapM, ← List.map_drop, ← List.map_take, List.mapM_map]
      rfl
  cases mode with
  | stdout => exact hstream .stdout
  | stderr => exact hstream .stderr
  | both =>
    rw [DiskLogReader.readRange, h.readInterleaved hwindow.1, cells, ← List.map_drop, ← List.map_take,
      List.mapM_map]
    rfl

/-- **A line that is given** is one that is text. -/
theorem given_eq (h : r.Whole disk) (hcount : r.total mode ≤ USIZE_MAX) (n : ℕ) :
    r.given disk mode n = ((r.cells disk mode)[n]?).bind fun c => c.2.map (c.1, ·) := by
  rw [h.total] at hcount
  by_cases hn : n < (r.cells disk mode).length
  · have hwindow : FitsWindow ISIZE_MAX n 1 := ⟨by omega, by decide⟩
    rw [given, h.readRange hwindow, List.drop_eq_getElem_cons hn, List.getElem?_eq_getElem hn,
      List.take_succ_cons, List.take_zero, List.mapM_cons, List.mapM_nil, readCell, Option.bind_some]
    cases (r.cells disk mode)[n].2 <;> rfl
  · rw [List.getElem?_eq_none (Nat.le_of_not_lt hn), given]
    cases hread : r.readRange disk mode n 1 with
    | error e => rfl
    | ok lines =>
      rw [DiskLogReader.readRange_past (h.total mode ▸ Nat.le_of_not_lt hn) hread]
      rfl

theorem matchesAt_iff (h : r.Whole disk) (hcount : r.total mode ≤ USIZE_MAX) {filter : String}
    {n : ℕ} : r.MatchesAt disk mode filter n ↔
      ((r.cells disk mode)[n]?).any (matchesCell filter) = true := by
  rw [MatchesAt, h.given_eq hcount]
  cases (r.cells disk mode)[n]? with
  | none => exact ⟨fun ⟨_, hline, _⟩ => (nomatch hline), nofun⟩
  | some c =>
    obtain ⟨source, text⟩ := c
    cases text with
    | none => exact ⟨fun ⟨_, hline, _⟩ => (nomatch hline), nofun⟩
    | some text =>
      refine ⟨?_, fun hmatch => ⟨(source, text), rfl, hmatch⟩⟩
      rintro ⟨_, ⟨⟩, hmatch⟩
      exact hmatch

end DiskLogReader.Whole

/-! ## One chunk -/

section Chunk

variable {filter : String} {window : List (LineSource × Option String)}

/-- **A chunk finds its matches** if it can be read, or has none. -/
theorem chunkMatches_eq (offset : ℕ) (hclear : ∀ c ∈ window, matchesCell filter c = true →
      ∀ d ∈ window, d.2.isSome) :
    ClockedReader.chunkMatches filter offset ((window.mapM readCell).map (·.map (·.2))) =
      window.findIdxs (matchesCell filter) offset := by
  by_cases hall : ∀ d ∈ window, d.2.isSome
  · have hread : (window.mapM readCell).map (·.map (·.2)) =
        .ok (window.map fun c => c.2.getD "") := by
      rw [map_mapM, mapM_congr_mem (g := fun c => .ok (c.2.getD ""))]
      · exact List.mapM_pure (m := Except ReadError)
      · intro c hc
        obtain ⟨text, htext⟩ := Option.isSome_iff_exists.mp (hall c hc)
        rw [readCell, htext]
        rfl
    have hmatch : window.map (fun c => contains (c.2.getD "") filter) =
        window.map (matchesCell filter) := List.map_congr_left fun c hc => by
      obtain ⟨text, htext⟩ := Option.isSome_iff_exists.mp (hall c hc)
      rw [matchesCell, htext]
      rfl
    rw [hread, ClockedReader.chunkMatches, List.findIdxs_map]
    calc window.findIdxs ((contains · filter) ∘ fun c => c.2.getD "") offset
        = (window.map fun c => contains (c.2.getD "") filter).findIdxs id offset := by
          rw [List.findIdxs_map]
          rfl
      _ = window.findIdxs (matchesCell filter) offset := by
          rw [hmatch, List.findIdxs_map]
          rfl
  · have hnone : window.findIdxs (matchesCell filter) offset = [] :=
      List.findIdxs_eq_nil_iff.mpr fun c hc =>
        Bool.eq_false_iff.mpr fun hmatch => hall (hclear c hc hmatch)
    rw [hnone]
    cases hread : window.mapM readCell with
    | error e => rfl
    | ok lines =>
      refine absurd (fun d hd => ?_) hall
      obtain ⟨line, hline⟩ := exists_ok_of_mem hread hd
      cases hd' : d.2 with
      | none =>
        rw [readCell, hd'] at hline
        cases hline
      | some text => rfl

/-- **A chunk that cannot be read finds nothing.** -/
theorem chunkMatches_of_unreadable (offset : ℕ) {d : LineSource × Option String} (hd : d ∈ window)
    (hnone : d.2 = none) :
    ClockedReader.chunkMatches filter offset ((window.mapM readCell).map (·.map (·.2))) = [] := by
  cases hread : window.mapM readCell with
  | error e => rfl
  | ok lines =>
    obtain ⟨line, hline⟩ := exists_ok_of_mem hread hd
    rw [readCell, hnone] at hline
    cases hline

end Chunk

/-! ## Every match -/

namespace ClockedReader

/-- **A scan finds what a filter would**: the matching positions in order, from wherever it starts, and
behind every place where it is split; and the lines at the positions found are the matching lines. -/
structure ScansAsFilter (disk : Disk) (filter : String) (mode : StreamMode) (r : ClockedReader) :
    Prop where
  scan : ∀ s, (scanMatchingLinesFrom disk filter mode s r).1.Pairwise (· < ·) ∧
    ∀ i, i ∈ (scanMatchingLinesFrom disk filter mode s r).1 ↔
      s ≤ i ∧ i < (r.look disk).reader.total mode ∧
        (r.look disk).reader.MatchesAt disk mode filter i
  split : ∀ k, (scanMatchingLinesFrom disk filter mode 0 r).1 =
    (List.range k).filter (fun i => (r.look disk).reader.MatchesAt disk mode filter i) ++
      (scanMatchingLinesFrom disk filter mode k r).1
  scattered : ∀ s, (readScatteredLines disk mode (scanMatchingLinesFrom disk filter mode s r).1
      (scanMatchingLinesFrom disk filter mode s r).2).1 =
    (List.range' s ((r.look disk).reader.total mode - s)).filterMap fun i =>
      ((r.look disk).reader.given disk mode i).filter fun line => contains line.2 filter

section Filter

variable {disk : Disk} {filter : String} {mode : StreamMode} {r : ClockedReader}
  {x : DiskLogReader}

/-- What a window holds stands in it. -/
theorem exists_of_mem_window {α : Type*} {xs : List α} {start count : ℕ} {a : α}
    (h : a ∈ (xs.drop start).take count) :
    ∃ i, start ≤ i ∧ i < start + count ∧ xs[i]? = some a := by
  obtain ⟨j, hj⟩ := List.mem_iff_getElem?.mp h
  rw [List.getElem?_take] at hj
  split_ifs at hj with hlt
  rw [List.getElem?_drop] at hj
  exact ⟨start + j, by omega, by omega, hj⟩

theorem mem_window {α : Type*} {xs : List α} {start count i : ℕ} {a : α} (hle : start ≤ i)
    (hlt : i < start + count) (h : xs[i]? = some a) : a ∈ (xs.drop start).take count := by
  refine List.mem_of_getElem? (i := i - start) ?_
  rw [List.getElem?_take, if_pos (by omega), List.getElem?_drop, Nat.add_sub_cancel' hle, h]

theorem fits_chunk {start count total : ℕ} (htotal : total ≤ USIZE_MAX) (hend : start + count ≤ total)
    (hcount : count ≤ CHUNK) : FitsWindow ISIZE_MAX start count := by
  refine ⟨hend.trans htotal, ?_⟩
  have hchunk : CHUNK * STRING_SIZE ≤ ISIZE_MAX := by decide
  exact (Nat.mul_le_mul_right _ hcount).trans hchunk

/-- **Where no match is disturbed**, a scan finds them all. -/
theorem scan_of_undisturbed (h : x.Whole disk) (htotal : x.total mode ≤ USIZE_MAX)
    (hclear : x.Undisturbed disk mode filter) (hr : r.Sees disk x) (s : ℕ) :
    (scanMatchingLinesFrom disk filter mode s r).1 =
        (List.range' s (x.total mode - s)).filter (fun i => x.MatchesAt disk mode filter i) ∧
      (scanMatchingLinesFrom disk filter mode s r).2.Settled disk x := by
  have hplaces : matchesFrom (matchesCell filter) s (x.cells disk mode) =
      (List.range' s (x.total mode - s)).filter fun i => x.MatchesAt disk mode filter i := by
    rw [matchesFrom_eq_filter, ← h.total]
    refine List.filter_congr fun i _ => ?_
    rw [Bool.eq_iff_iff, decide_eq_true_iff, h.matchesAt_iff htotal]
  rw [← hplaces, scanMatchingLinesFrom_eq_scan]
  refine scan_eq (fun r' hr' => ?_) (fun start count r' hr' hend hle => ?_) s hr
  · rw [DiskLogReader.total_congr hr', h.total]
  · rw [← h.total] at hend
    rw [DiskLogReader.readRange_congr hr', h.readRange (fits_chunk htotal hend hle)]
    refine chunkMatches_eq start fun c hc hmatch d hd => ?_
    obtain ⟨i, hi, hi', hc⟩ := exists_of_mem_window hc
    obtain ⟨u, hu, hu', hd⟩ := exists_of_mem_window hd
    exact hclear i u c d hc hd (by omega) (by omega) hmatch

/-- What the chunks from a place on find stands there or behind. -/
theorem le_of_mem_scanChunks {read : ℕ → ℕ → DiskLogReader → Except ReadError (List String)}
    {total offset i : ℕ} (h : i ∈ (scanChunks disk filter read total offset r).1) : offset ≤ i := by
  fun_induction scanChunks disk filter read total offset r with
  | case1 offset r hlt count looked more ih =>
    obtain hchunk | hmore := List.mem_append.mp h
    · cases hread : read offset count looked.reader with
      | error e =>
        rw [hread] at hchunk
        exact absurd hchunk List.not_mem_nil
      | ok lines =>
        rw [hread] at hchunk
        exact List.ge_of_mem_findIdxs i hchunk
    · exact Nat.le_of_add_right_le (ih hmore)
  | case2 => exact absurd h List.not_mem_nil

/-- **A scan that starts in a chunk with an unreadable line** finds nothing of that chunk. -/
theorem notMem_scan_of_unreadable (h : x.Whole disk) (htotal : x.total mode ≤ USIZE_MAX)
    (hr : r.Sees disk x) {s i u : ℕ} {d : LineSource × Option String} (hsi : s ≤ i) (hsu : s ≤ u)
    (hi : i < x.total mode) (hi' : i < s + CHUNK) (hu' : u < s + CHUNK)
    (hd : (x.cells disk mode)[u]? = some d) (hnone : d.2 = none) :
    i ∉ (scanMatchingLinesFrom disk filter mode s r).1 := by
  rw [scanMatchingLinesFrom_eq_scan, scan]
  simp only [hr.look.total mode]
  rw [if_neg (by omega), scanChunks, if_pos (by omega)]
  have hu : u < x.total mode := by
    rw [h.total]
    exact (List.getElem?_eq_some_iff.mp hd).1
  have hend : s + min CHUNK (x.total mode - s) ≤ x.total mode := by omega
  intro hmem
  obtain hchunk | hmore := List.mem_append.mp hmem
  · rw [DiskLogReader.readRange_congr hr.look.sees.look.segments,
      h.readRange (fits_chunk htotal hend (Nat.min_le_left ..)),
      chunkMatches_of_unreadable s (mem_window hsu (by omega) hd) hnone] at hchunk
    exact absurd hchunk List.not_mem_nil
  · have hle := le_of_mem_scanChunks hmore
    omega

theorem lineAt_eq_given (disk : Disk) (mode : StreamMode) (x : DiskLogReader) (n : ℕ) :
    x.lineAt disk mode n = (x.given disk mode n).getD (DiskLogReader.blank mode) := by
  rw [DiskLogReader.lineAt, DiskLogReader.given]
  cases x.readRange disk mode n 1 with
  | error e => rfl
  | ok lines => cases lines <;> rfl

theorem lt_total_of_matchesAt (h : x.Whole disk) (htotal : x.total mode ≤ USIZE_MAX) {i : ℕ}
    (hmatch : x.MatchesAt disk mode filter i) : i < x.total mode := by
  rw [h.total mode]
  by_contra hge
  rw [h.matchesAt_iff htotal, List.getElem?_eq_none (Nat.le_of_not_lt hge)] at hmatch
  cases hmatch

theorem range'_append_sub {k n : ℕ} (hle : k ≤ n) :
    List.range' 0 k ++ List.range' k (n - k) = List.range' 0 n := by
  have happend := @List.range'_append_1 0 k (n - k)
  rwa [Nat.zero_add, Nat.add_sub_cancel' hle] at happend

/-- The matches below a place, and those from it on. -/
theorem filter_matchesAt_split (h : x.Whole disk) (htotal : x.total mode ≤ USIZE_MAX) (k : ℕ) :
    (List.range' 0 (x.total mode)).filter (fun i => x.MatchesAt disk mode filter i) =
      (List.range k).filter (fun i => x.MatchesAt disk mode filter i) ++
        (List.range' k (x.total mode - k)).filter fun i => x.MatchesAt disk mode filter i := by
  rcases Nat.le_total k (x.total mode) with hle | hle
  · rw [← range'_append_sub hle, List.filter_append, List.range_eq_range']
  · -- behind the end nothing is given
    have hpast : (List.range' (x.total mode) (k - x.total mode)).filter
        (fun i => x.MatchesAt disk mode filter i) = [] :=
      List.filter_eq_nil_iff.mpr fun i hi hmatch =>
        absurd (lt_total_of_matchesAt h htotal (of_decide_eq_true hmatch))
          (Nat.not_lt.mpr (List.mem_range'_1.mp hi).1)
    rw [List.range_eq_range', ← range'_append_sub hle, List.filter_append, hpast, List.append_nil,
      Nat.sub_eq_zero_of_le hle, List.range'_zero, List.filter_nil, List.append_nil]

/-- The lines at the matching positions are the matching lines. -/
theorem map_lineAt_filter (l : List ℕ) :
    (l.filter fun i => x.MatchesAt disk mode filter i).map (x.lineAt disk mode) =
      l.filterMap fun i => (x.given disk mode i).filter fun line => contains line.2 filter := by
  induction l with
  | nil => rfl
  | cons i l ih =>
    rw [List.filter_cons, List.filterMap_cons, ← ih]
    cases hgiven : x.given disk mode i with
    | none =>
      have hmatch : ¬x.MatchesAt disk mode filter i := fun ⟨line, hline, _⟩ => by
        rw [hgiven] at hline
        cases hline
      rw [if_neg (by simpa using hmatch)]
      rfl
    | some line =>
      have hmatch : x.MatchesAt disk mode filter i ↔ contains line.2 filter = true := by
        simp [DiskLogReader.MatchesAt, hgiven]
      have hline : x.lineAt disk mode i = line := by
        rw [lineAt_eq_given, hgiven]
        rfl
      by_cases hcontains : contains line.2 filter = true
      · rw [if_pos (decide_eq_true (hmatch.mpr hcontains)), List.map_cons, hline,
          Option.filter_some, if_pos hcontains]
      · rw [if_neg (by simpa [hmatch] using hcontains), Option.filter_some, if_neg hcontains]

/-- **A scan filters as it should** where no match is disturbed. -/
theorem scansAsFilter_of_undisturbed (h : x.Whole disk) (htotal : x.total mode ≤ USIZE_MAX)
    (hx : (r.look disk).reader = x) (hr : r.Sees disk x)
    (hclear : x.Undisturbed disk mode filter) : r.ScansAsFilter disk filter mode := by
  subst hx
  have hscan := scan_of_undisturbed h htotal hclear hr
  refine ⟨fun s => ⟨?_, fun i => ?_⟩, fun k => ?_, fun s => ?_⟩
  · rw [(hscan s).1]
    exact (List.pairwise_lt_range').filter _
  · rw [(hscan s).1, List.mem_filter, List.mem_range'_1, decide_eq_true_iff]
    exact ⟨fun ⟨hi, hmatch⟩ => ⟨hi.1, by omega, hmatch⟩, fun ⟨hs, hi, hmatch⟩ => ⟨by omega, hmatch⟩⟩
  · rw [(hscan 0).1, (hscan k).1]
    exact filter_matchesAt_split h htotal k
  · rw [readScatteredLines_eq_map (hscan s).2.sees, (hscan s).1]
    exact map_lineAt_filter _

/-- **A disturbed match is missed** by a scan that starts in the same chunk. -/
theorem ScansAsFilter.undisturbed (h : (r.look disk).reader.Whole disk)
    (htotal : (r.look disk).reader.total mode ≤ USIZE_MAX)
    (hr : r.Sees disk (r.look disk).reader) (hscans : r.ScansAsFilter disk filter mode) :
    (r.look disk).reader.Undisturbed disk mode filter := by
  intro i u c d hc hd hiu hui hmatch
  by_contra hnone
  have hmatches : (r.look disk).reader.MatchesAt disk mode filter i := by
    rw [h.matchesAt_iff htotal, hc]
    exact hmatch
  have hi := lt_total_of_matchesAt h htotal hmatches
  have hmem := ((hscans.scan (min i u)).2 i).mpr ⟨Nat.min_le_left .., hi, hmatches⟩
  refine notMem_scan_of_unreadable h htotal hr (Nat.min_le_left ..) (Nat.min_le_right ..) hi
    ?_ ?_ hd (Option.not_isSome_iff_eq_none.mp hnone) hmem
  · rw [CHUNK] at *
    omega
  · rw [CHUNK] at *
    omega

/-- **A scan equals the plain filter if and only if** no line that contains the filter stands within a
thousand lines of one that cannot be read; and it comes to an end. -/
theorem scansAsFilter_iff (process : String) (hdot : process ≠ ".") (disk : Disk) (filter : String)
    (mode : StreamMode)
    (hwhole : ∀ seg ∈ segmentsOf process disk, seg.Whole disk)
    (hcount : (found process disk).lineCountBoth ≤ USIZE_MAX)
    (r : ClockedReader) (hr : r.Sees disk (found process disk)) :
    (∀ source, SearchEnds process source disk) ∧
      (r.ScansAsFilter disk filter mode ↔ (r.look disk).reader.Undisturbed disk mode filter) := by
  refine ⟨fun source => searchEnds hdot source disk, ?_⟩
  have h := whole_of_sees hwhole hr
  have hsees : r.Sees disk (r.look disk).reader := fun n s => (hr n s).trans (hr 0 s).symm
  have htotal : (r.look disk).reader.total mode ≤ USIZE_MAX := by
    rw [hr.look.total mode]
    refine le_trans ?_ hcount
    cases mode with
    | stdout => exact Nat.le_add_right ..
    | stderr => exact Nat.le_add_left ..
    | both => exact le_rfl
  exact ⟨fun hscans => hscans.undisturbed h htotal hsees,
    scansAsFilter_of_undisturbed h htotal rfl hsees⟩

end Filter

end ClockedReader

/-- `err⏎`, and the first byte of a character that was never finished. -/
def cutShort : Disk :=
  ((FileSystem.empty (.text [])).create (logPathOf "web" .stdout)
    (.text [101, 114, 114, NEWLINE, 195])).2

theorem whole_cutShort : ∀ seg ∈ segmentsOf "web" cutShort, seg.Whole cutShort := by
  have hsegments : segmentsOf "web" cutShort =
      [⟨logPathOf "web" .stdout, idxPathFor (logPathOf "web" .stdout), 2⟩] := by decide
  rw [hsegments]
  exact List.forall_mem_singleton.mpr ⟨[101, 114, 114, NEWLINE, 195], by decide, by decide⟩

/-- **The match beside it is not found.** -/
theorem not_scansAsFilter : (∀ seg ∈ segmentsOf "web" cutShort, seg.Whole cutShort) ∧
    ¬(⟨.new "web", fun _ => 0⟩ : ClockedReader).ScansAsFilter cutShort "err" .stdout := by
  refine ⟨whole_cutShort, fun hscans => ?_⟩
  have hr := sees_new "web" cutShort fun _ => 0
  have hclear := hscans.undisturbed (ClockedReader.whole_of_sees whole_cutShort hr) (by decide)
    fun n s => (hr n s).trans (hr 0 s).symm
  exact absurd (hclear 0 1 (.stdout, some "err") (.stdout, none) (by decide +kernel)
    (by decide +kernel) (by decide) (by decide) (by decide)) nofun

/-- `a⏎b⏎`, rotated, and `ab⏎`, with their indexes. -/
def rotatedWeb : Disk :=
  (((((FileSystem.empty (.text [])).create (logName (logPathOf "web" .stdout) 1)
    (.text [97, NEWLINE, 98, NEWLINE])).2.create (idxName (logPathOf "web" .stdout) 1)
      (.index 0 [⟨0, 0⟩, ⟨2, 1⟩])).2.create (logPathOf "web" .stdout)
        (.text [97, 98, NEWLINE])).2.create (idxPathFor (logPathOf "web" .stdout))
          (.index 2 [⟨0, 2⟩])).2

theorem whole_rotatedWeb : ∀ seg ∈ segmentsOf "web" rotatedWeb, seg.Whole rotatedWeb := by
  have hsegments : segmentsOf "web" rotatedWeb =
      [⟨logName (logPathOf "web" .stdout) 1, idxName (logPathOf "web" .stdout) 1, 2⟩,
        ⟨logPathOf "web" .stdout, idxPathFor (logPathOf "web" .stdout), 1⟩] := by decide
  rw [hsegments]
  refine List.forall_mem_cons.mpr ⟨⟨[97, NEWLINE, 98, NEWLINE], by decide, by decide⟩,
    List.forall_mem_singleton.mpr ⟨[97, 98, NEWLINE], by decide, by decide⟩⟩

/-- Beside lines that can be read it is found. -/
theorem scansAsFilter_rotatedWeb :
    (⟨.new "web", fun _ => 0⟩ : ClockedReader).ScansAsFilter rotatedWeb "a" .stdout := by
  refine (ClockedReader.scansAsFilter_iff "web" (by decide) rotatedWeb "a" .stdout whole_rotatedWeb
    (by decide) _ (sees_new "web" rotatedWeb _)).2.mpr fun i u _ d _ hd _ _ _ => ?_
  have hcells : ((⟨.new "web", fun _ => 0⟩ : ClockedReader).look rotatedWeb).reader.cells rotatedWeb
      .stdout = [(.stdout, some "a"), (.stdout, some "b"), (.stdout, some "ab")] := by
    decide +kernel
  rw [hcells] at hd
  have hmem := List.mem_of_getElem? hd
  simp only [List.mem_cons, List.not_mem_nil, or_false] at hmem
  obtain rfl | rfl | rfl := hmem <;> rfl

end AgentProcs
