import AgentProcs.Logs.Scan
import AgentProcs.Machinery.Traversals

/-!
# Logs/Listing — what a reader lists of the logs of a process

    stdout   a₀ a₁       numbers 0 2                     stdout  a₀ a₁
    stderr   b₀          numbers 1       ──listing──▸    stderr  b₀
                                                         both    a₀ b₀ a₁

A reader that has just probed the directory lists, for either stream, the lines its index admits to,
and for both the same lines sorted by number.  Every window of a listing can be read.
-/

namespace AgentProcs

/-- The lines shown of both streams, by number. -/
def interleaved (shown : LineSource → List Printed) : List (LineSource × Printed) :=
  ((shown .stdout).map (LineSource.stdout, ·) ++ (shown .stderr).map (LineSource.stderr, ·)).mergeSort
    fun a b => a.2.entry.seq ≤ b.2.entry.seq

/-- What is listed of the lines shown. -/
def listed (shown : LineSource → List Printed) : StreamMode → List (LineSource × Printed)
  | .stdout => (shown .stdout).map (.stdout, ·)
  | .stderr => (shown .stderr).map (.stderr, ·)
  | .both => interleaved shown

/-- A line as the reader returns it. -/
def tagged (x : LineSource × Printed) : LineSource × String := (x.1, x.2.entry.line)

/-! ## The merged view and its lines -/

section Placed

variable {shown : LineSource → List Printed}

/-- A stream's lines with their places. -/
def placed (source : LineSource) (es : List Printed) : List (LineSource × ℕ × Printed) :=
  es.zipIdx.map fun (x, i) => (source, i, x)

/-- The lines of both streams in merged order, with their places. -/
def sorted (shown : LineSource → List Printed) : List (LineSource × ℕ × Printed) :=
  (placed .stdout (shown .stdout) ++ placed .stderr (shown .stderr)).mergeSort
    fun a b => a.2.2.entry.seq ≤ b.2.2.entry.seq

theorem mem_placed {source : LineSource} {es : List Printed} {a : LineSource × ℕ × Printed} :
    a ∈ placed source es ↔ a.1 = source ∧ es[a.2.1]? = some a.2.2 := by
  obtain ⟨s, i, x⟩ := a
  rw [placed, List.mem_map]
  refine ⟨?_, ?_⟩
  · rintro ⟨⟨y, j⟩, hmem, heq⟩
    obtain ⟨rfl, rfl, rfl⟩ : source = s ∧ j = i ∧ y = x := by simpa using heq
    exact ⟨rfl, List.mem_zipIdx_iff_getElem?.mp hmem⟩
  · rintro ⟨rfl, hx⟩
    exact ⟨(x, i), List.mem_zipIdx_iff_getElem?.mpr hx, rfl⟩

/-- Each line of the merged order stands at its place. -/
theorem getElem?_of_mem_sorted {a : LineSource × ℕ × Printed} (h : a ∈ sorted shown) :
    (shown a.1)[a.2.1]? = some a.2.2 := by
  rcases List.mem_append.mp (List.mem_mergeSort.mp h) with hmem | hmem
  · obtain ⟨hs, hx⟩ := mem_placed.mp hmem
    rwa [hs]
  · obtain ⟨hs, hx⟩ := mem_placed.mp hmem
    rwa [hs]

theorem map_placed (source : LineSource) (es : List Printed) :
    (placed source es).map (fun a => (a.1, a.2.2)) = es.map (source, ·) := by
  calc (placed source es).map (fun a => (a.1, a.2.2))
      = (es.zipIdx.map Prod.fst).map (source, ·) := by
        rw [placed, List.map_map, List.map_map]
        rfl
    _ = es.map (source, ·) := by rw [List.zipIdx_map_fst]

theorem map_sorted_lines : (sorted shown).map (fun a => (a.1, a.2.2)) = interleaved shown := by
  have hsort := List.map_mergeSort (f := fun a : LineSource × ℕ × Printed => (a.1, a.2.2))
    (s := fun a b => decide (a.2.entry.seq ≤ b.2.entry.seq))
    (l := placed .stdout (shown .stdout) ++ placed .stderr (shown .stderr)) fun _ _ _ _ => rfl
  rw [List.map_append, map_placed, map_placed] at hsort
  exact hsort

theorem map_sorted_places : (sorted shown).map (fun a => (a.1, a.2.1)) = viewOf shown := by
  have hplaces : ∀ source es, (placed source es).map (fun a => (a.2.2.entry.seq, a.1, a.2.1)) =
      numbered source (es.map (·.entry)) := fun source es => by
    rw [placed, numbered, List.map_map, List.zipIdx_map, List.map_map]
    rfl
  have hsort : (sorted shown).map (fun a => (a.2.2.entry.seq, a.1, a.2.1)) =
      (collected shown).mergeSort fun a b => a.1 ≤ b.1 := by
    have hmap := List.map_mergeSort
      (f := fun a : LineSource × ℕ × Printed => (a.2.2.entry.seq, a.1, a.2.1))
      (s := fun a b => decide (a.1 ≤ b.1))
      (l := placed .stdout (shown .stdout) ++ placed .stderr (shown .stderr)) fun _ _ _ _ => rfl
    rw [List.map_append, hplaces, hplaces] at hmap
    exact hmap
  rw [viewOf, ← hsort, List.map_map]
  rfl

end Placed

/-! ## Reading line by line -/

section Single

variable {disk : Disk} {segments : List DiskSegment} {parts : List (List Entry)}

/-- **A line by its number**, `cumulative` lines into the stream. -/
theorem readSingleLineFrom_readsAs {α : Type} {read : α → Except ReadError String}
    {parts : List (List α)} (h : List.Forall₂ (ReadsAs disk read) segments parts) {i : ℕ} {x : α}
    (hi : parts.flatten[i]? = some x) (cumulative : ℕ) :
    readSingleLineFrom disk (cumulative + i) cumulative segments = read x := by
  induction h generalizing i cumulative with
  | nil => cases hi
  | @cons seg xs segments parts hseg _ ih =>
    rw [readSingleLineFrom, hseg.count]
    rw [List.flatten_cons] at hi
    split_ifs with hlt
    · have hplace : xs[i]? = some x := by
        rwa [List.getElem?_append_left (by omega)] at hi
      obtain ⟨hlen, rfl⟩ := List.getElem?_eq_some_iff.mp hplace
      have hwindow : (xs.drop i).take 1 = [xs[i]] := by
        rw [List.drop_eq_getElem_cons hlen]
        rfl
      rw [Nat.add_sub_cancel_left, hseg.lines, hwindow, List.mapM_cons, List.mapM_nil]
      cases read xs[i] <;> rfl
    · have hplace : parts.flatten[i - xs.length]? = some x := by
        rwa [List.getElem?_append_right (by omega)] at hi
      have hnext := ih hplace (cumulative + xs.length)
      rwa [Nat.add_assoc, Nat.add_sub_cancel' (by omega)] at hnext

end Single

/-! ## Listing what is read -/

/-- **The reader yields these lines**: as many as it counts, and every window of them. -/
structure DiskLogReader.Yields (disk : Disk) (mode : StreamMode) (lines : List (LineSource × String))
    (r : DiskLogReader) : Prop where
  total : r.total mode = lines.length
  read : ∀ start count, start + count ≤ lines.length →
    r.readRange disk mode start count = .ok ((lines.drop start).take count)

section Listing

variable {disk : Disk} {mode : StreamMode} {r r' : DiskLogReader}
  {lines : List (LineSource × String)}

namespace DiskLogReader.Yields

theorem congr (h : r.Yields disk mode lines) (hsame : ∀ s, r.segments s = r'.segments s) :
    r'.Yields disk mode lines where
  total := (total_congr hsame mode).symm.trans h.total
  read start count hend := (readRange_congr hsame ..).symm.trans (h.read start count hend)

theorem lineAt (h : r.Yields disk mode lines) {n : ℕ} (hn : n < lines.length) :
    r.lineAt disk mode n = lines[n] := by
  have hwindow := h.read n 1 (by omega)
  rw [List.drop_eq_getElem_cons hn] at hwindow
  simp only [DiskLogReader.lineAt, hwindow]
  rfl

/-- What is yielded is what is listed. -/
theorem listing (h : r.Yields disk mode lines) : r.listing disk mode = lines := by
  refine List.ext_getElem (by rw [length_listing, h.total]) fun n hn hn' => ?_
  simp only [DiskLogReader.listing, List.getElem_map, List.getElem_range]
  exact h.lineAt hn'

theorem readable (h : r.Yields disk mode lines) : r.Readable disk mode := by
  intro start count hend _
  rw [h.listing]
  exact h.read start count (h.total ▸ hend)

end DiskLogReader.Yields

variable {name : String} {maxBytes : ℕ} {p : ProcessLogs} {now : ℕ}

/-- As many lines as can be held in memory. -/
def FitsMemory (lines : ℕ) : Prop := lines * STRING_SIZE ≤ ISIZE_MAX

instance (lines : ℕ) : Decidable (FitsMemory lines) := inferInstanceAs (Decidable (_ ≤ _))

theorem FitsMemory.window {lines start count : ℕ} (h : FitsMemory lines)
    (hend : start + count ≤ lines) : FitsWindow ISIZE_MAX start count := by
  have hmax : ISIZE_MAX ≤ USIZE_MAX := by decide
  rw [FitsMemory, STRING_SIZE] at h
  refine ⟨by omega, ?_⟩
  rw [STRING_SIZE]
  omega

theorem readInterleaved_of_reachable (hdot : name ≠ ".")
    (h : (processLogs name maxBytes DEFAULT_MAX_ROTATED_FILES (NoLogs name)).Reachable p)
    (hfree : ∀ s, ∀ x ∈ p.written s, NewlineFree x.entry.line)
    (hr : r.process = name) (hstale : r.Stale now) {start count : ℕ}
    (hfits : start + count ≤ USIZE_MAX) :
    (r.refresh now p.shared.disk).readInterleaved p.shared.disk start count =
      .ok ((((interleaved (p.shown name)).map tagged).drop start).take count) := by
  obtain ⟨hview, -, -⟩ := view_of_reachable hdot h hr hstale
  have hline : ∀ a ∈ sorted (p.shown name), readSingleLineFrom p.shared.disk a.2.1 0
      ((r.refresh now p.shared.disk).segments a.1) = .ok a.2.2.entry.line := fun a ha => by
    obtain ⟨parts, -, hshown, hshows⟩ := found_of_reachable hdot h a.1
    have hplace : parts.flatten[a.2.1]? = some a.2.2.entry := by
      rw [← hshown, List.getElem?_map, getElem?_of_mem_sorted ha]
      rfl
    have hsingle := readSingleLineFrom_readsAs ((hshows (hfree _)).imp fun _ _ => Shows.readsAs)
      hplace 0
    rwa [Nat.zero_add, ← DiskLogReader.segments_refresh hr hstale] at hsingle
  have hend : windowEnd start count = .ok (start + count) := if_pos hfits
  rw [DiskLogReader.readInterleaved, hview, hend, ← map_sorted_places, ← map_sorted_lines,
    List.map_map]
  simp only [bind, Except.bind]
  rw [← List.map_take, ← List.map_drop, ← List.map_drop, ← List.map_take, List.drop_take,
    Nat.add_sub_cancel_left]
  refine mapM_map_pure fun a ha => ?_
  rw [hline a (List.mem_of_mem_drop (List.mem_of_mem_take ha))]
  rfl

/-- **What a reader that has just probed yields** of the logs of a process. -/
theorem yields_of_reachable (hdot : name ≠ ".")
    (h : (processLogs name maxBytes DEFAULT_MAX_ROTATED_FILES (NoLogs name)).Reachable p)
    (hfree : ∀ s, ∀ x ∈ p.written s, NewlineFree x.entry.line)
    (hfits : FitsMemory ((p.shown name .stdout).length + (p.shown name .stderr).length))
    (hr : r.process = name) (hstale : r.Stale now) (mode : StreamMode) :
    (r.refresh now p.shared.disk).Yields p.shared.disk mode
      ((listed (p.shown name) mode).map tagged) := by
  obtain ⟨-, hcount, -⟩ := view_of_reachable hdot h hr hstale
  have hstream : ∀ source start count, start + count ≤ (p.shown name source).length →
      ((r.refresh now p.shared.disk).readLines p.shared.disk source start
        count).map (·.map (source, ·)) =
          .ok (((((p.shown name source).map (source, ·)).map tagged).drop start).take count) := by
    intro source start count hend
    have hwindow : FitsWindow ISIZE_MAX start count := hfits.window (by cases source <;> omega)
    rw [readLines_of_reachable hdot h hfree hr hstale hwindow, List.map_map, ← List.map_drop,
      ← List.map_drop, ← List.map_take, ← List.map_take]
    exact congrArg Except.ok List.map_map
  have hlength : ∀ source, (((p.shown name source).map (source, ·)).map tagged).length =
      (p.shown name source).length := fun source => by rw [List.length_map, List.length_map]
  cases mode with
  | stdout => exact ⟨(hcount .stdout).trans (hlength .stdout).symm, fun start count hend =>
      hstream .stdout start count (hlength .stdout ▸ hend)⟩
  | stderr => exact ⟨(hcount .stderr).trans (hlength .stderr).symm, fun start count hend =>
      hstream .stderr start count (hlength .stderr ▸ hend)⟩
  | both =>
    have hlen : ((listed (p.shown name) .both).map tagged).length =
        (p.shown name .stdout).length + (p.shown name .stderr).length := by
      rw [List.length_map, listed, interleaved, List.length_mergeSort, List.length_append,
        List.length_map, List.length_map]
    refine ⟨?_, fun start count hend => readInterleaved_of_reachable hdot h hfree hr hstale ?_⟩
    · rw [hlen, DiskLogReader.total, DiskLogReader.lineCountBoth, hcount, hcount]
    · exact (hfits.window (hlen ▸ hend)).1

end Listing

/-! ## Past the end -/

section Past

variable {disk : Disk} {start count : ℕ} {lines : List String}

/-- A window past the end reads nothing. -/
theorem readWindow_past {segments : List DiskSegment} {cumulative : ℕ}
    (hpast : cumulative + (segments.map (·.lineCount)).sum ≤ start)
    (h : readWindow start count disk cumulative segments = .ok lines) : lines = [] := by
  induction segments generalizing cumulative with
  | nil => exact (Except.ok.inj h).symm
  | cons seg segments ih =>
    rw [List.map_cons, List.sum_cons] at hpast
    rw [readWindow, windowEnd] at h
    split_ifs at h with hfits
    · simp only [bind, Except.bind, if_pos (Or.inl (by omega : cumulative + seg.lineCount ≤ start))]
        at h
      exact ih (by omega) h
    · cases h

theorem length_mergeEntries (source : LineSource) (disk : Disk) (segments : List DiskSegment)
    (offset : ℕ) : (mergeEntries source disk offset segments).length ≤
      (segments.map (·.lineCount)).sum := by
  induction segments generalizing offset with
  | nil => rfl
  | cons seg segments ih =>
    rw [mergeEntries, List.length_append, List.map_cons, List.sum_cons]
    refine Nat.add_le_add ?_ (ih _)
    cases IndexReader.openAt seg.idxPath disk with
    | none => simp
    | some reader =>
      simp only [List.length_map, List.length_zipIdx, IndexReader.readRange, List.length_take]
      omega

theorem length_buildMergedIndex (disk : Disk) (r : DiskLogReader) :
    (r.buildMergedIndex disk).length ≤ r.lineCountBoth := by
  rw [DiskLogReader.buildMergedIndex, mergedIndex, List.length_map, List.length_mergeSort,
    List.length_append]
  exact Nat.add_le_add (length_mergeEntries ..) (length_mergeEntries ..)

/-- A read of one stream past its end. -/
theorem readLines_past {r : DiskLogReader} {source : LineSource} (hpast : r.lineCount source ≤ start)
    (h : r.readLines disk source start count = .ok lines) : lines = [] := by
  rw [DiskLogReader.readLines, readLinesFromSegments] at h
  split_ifs at h
  exact readWindow_past (by rwa [Nat.zero_add]) h

/-- **Past the end there is nothing to read.** -/
theorem DiskLogReader.readRange_past {r : DiskLogReader} {mode : StreamMode} {n : ℕ}
    (hpast : r.total mode ≤ n) {lines : List (LineSource × String)}
    (h : r.readRange disk mode n count = .ok lines) : lines = [] := by
  have hstream : ∀ source, r.lineCount source ≤ n →
      (r.readLines disk source n count).map (·.map (source, ·)) = .ok lines → lines = [] := by
    intro source hle h
    cases hread : r.readLines disk source n count with
    | error e =>
      rw [hread] at h
      cases h
    | ok texts =>
      rw [hread, readLines_past hle hread] at h
      exact (Except.ok.inj h).symm
  cases mode with
  | stdout => exact hstream .stdout hpast h
  | stderr => exact hstream .stderr hpast h
  | both =>
    rw [readRange, readInterleaved, windowEnd] at h
    split_ifs at h with hfits
    · have hempty : ((r.buildMergedIndex disk).take (n + count)).drop n = [] :=
        List.drop_of_length_le ((List.length_take_le' ..).trans
          ((length_buildMergedIndex disk r).trans hpast))
      simp only [bind, Except.bind, hempty, List.mapM_nil] at h
      exact (Except.ok.inj h).symm
    · cases h

theorem DiskLogReader.lineAt_past {r : DiskLogReader} {mode : StreamMode} {n : ℕ}
    (hpast : r.total mode ≤ n) : r.lineAt disk mode n = blank mode := by
  rw [lineAt]
  split
  · next line rest h => cases readRange_past hpast h
  · rfl

/-- A line by its number, in or past a listing. -/
theorem DiskLogReader.Yields.lineAt_eq {r : DiskLogReader} {mode : StreamMode}
    {lines : List (LineSource × String)} (h : r.Yields disk mode lines) (n : ℕ) :
    r.lineAt disk mode n = (lines[n]?).getD (blank mode) := by
  by_cases hn : n < lines.length
  · rw [h.lineAt hn, List.getElem?_eq_getElem hn, Option.getD_some]
  · have hpast : r.total mode ≤ n := h.total ▸ Nat.le_of_not_lt hn
    rw [lineAt_past hpast, List.getElem?_eq_none (Nat.le_of_not_lt hn), Option.getD_none]

end Past

end AgentProcs
