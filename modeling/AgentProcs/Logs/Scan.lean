import AgentProcs.Daemon.Wait
import AgentProcs.Logs.Chronology
import AgentProcs.Machinery.Increments

/-!
# Logs/Scan — scanning what a reader lists

    listing    l₀ l₁ ⋯ l₉₉₉ │ l₁₀₀₀ ⋯ l₁₉₉₉ │ ⋯ lₙ₋₁      one line a number, total n
    scan s       └── chunks of 1000 from s on ──▸ numbers of the lines that contain the filter

Each method of the reader first looks whether its segments are too old, so a scan looks once for the
total and once a chunk.  While every look sees the same segments, and every chunk of them can be read,
a scan from `s` finds the matches of the listing from `s` on.
-/

namespace AgentProcs

/-- Lines scanned at a time. -/
def CHUNK : ℕ := 1000

namespace DiskLogReader

variable (disk : Disk) (mode : StreamMode) (r : DiskLogReader)

/-- The line count of a mode. -/
def total : ℕ :=
  match mode with
  | .stdout => r.lineCount .stdout
  | .stderr => r.lineCount .stderr
  | .both => r.lineCountBoth

/-- Lines `[start..start+count)` of a mode. -/
def readRange (start count : ℕ) : Except ReadError (List (LineSource × String)) :=
  match mode with
  | .stdout => (r.readLines disk .stdout start count).map (·.map (.stdout, ·))
  | .stderr => (r.readLines disk .stderr start count).map (·.map (.stderr, ·))
  | .both => r.readInterleaved disk start count

/-- What a line that cannot be read is shown as. -/
def blank : LineSource × String :=
  match mode with
  | .stdout => (.stdout, "")
  | .stderr => (.stderr, "")
  | .both => (.stdout, "")

/-- One line of a mode by its number. -/
def lineAt (n : ℕ) : LineSource × String :=
  match r.readRange disk mode n 1 with
  | .ok (line :: _) => line
  | _ => blank mode

/-- All lines of a mode. -/
def listing : List (LineSource × String) := (List.range (r.total mode)).map (r.lineAt disk mode)

/-- **Every chunk reads what its lines read one by one.** -/
def Readable : Prop :=
  ∀ start count, start + count ≤ r.total mode → count ≤ CHUNK →
    r.readRange disk mode start count = .ok (((r.listing disk mode).drop start).take count)

end DiskLogReader

/-- A reader, and what the clock says at each of its next looks. -/
structure ClockedReader where
  reader : DiskLogReader
  clock : ℕ → ℕ

namespace ClockedReader

/-- Look at the segments: probe again if the cache is too old. -/
def look (disk : Disk) (r : ClockedReader) : ClockedReader :=
  ⟨r.reader.refresh (r.clock 0) disk, fun n => r.clock (n + 1)⟩

/-- The line count of a mode, with one look. -/
def total (disk : Disk) (mode : StreamMode) (r : ClockedReader) : ℕ × ClockedReader :=
  ((r.look disk).reader.total mode, r.look disk)

/-- Lines of a mode, with one look. -/
def readRange (disk : Disk) (mode : StreamMode) (start count : ℕ) (r : ClockedReader) :
    Except ReadError (List (LineSource × String)) × ClockedReader :=
  ((r.look disk).reader.readRange disk mode start count, r.look disk)

/-! ## Scanning -/

/-- The matches of one chunk; a chunk that cannot be read is skipped. -/
def chunkMatches (filter : String) (offset : ℕ) : Except ReadError (List String) → List ℕ
  | .ok lines => lines.findIdxs (contains · filter) offset
  | .error _ => []

section Scan

variable (disk : Disk) (filter : String)

/-- The loop over the chunks.  `offset + count` never passes the total, so the read does not
overflow. -/
def scanChunks (read : ℕ → ℕ → DiskLogReader → Except ReadError (List String)) (total offset : ℕ)
    (r : ClockedReader) : List ℕ × ClockedReader :=
  if offset < total then
    let count := min CHUNK (total - offset)
    let looked := r.look disk
    let more := scanChunks read total (offset + count) looked
    (chunkMatches filter offset (read offset count looked.reader) ++ more.1, more.2)
  else ([], r)
termination_by total - offset
decreasing_by
  simp only [CHUNK]
  omega

/-- Scan what `read` reads, up to what `count` counts. -/
def scan (count : DiskLogReader → ℕ)
    (read : ℕ → ℕ → DiskLogReader → Except ReadError (List String)) (startFrom : ℕ)
    (r : ClockedReader) : List ℕ × ClockedReader :=
  let looked := r.look disk
  let total := count looked.reader
  if total ≤ startFrom then ([], looked) else scanChunks disk filter read total startFrom looked

def scanSingleStream (source : LineSource) : ℕ → ClockedReader → List ℕ × ClockedReader :=
  scan disk filter (·.lineCount source) fun start count r => r.readLines disk source start count

def scanInterleaved : ℕ → ClockedReader → List ℕ × ClockedReader :=
  scan disk filter (·.lineCountBoth) fun start count r =>
    (r.readInterleaved disk start count).map (·.map (·.2))

/-- Scan lines starting from `startFrom` in the given stream mode. -/
def scanMatchingLinesFrom (mode : StreamMode) : ℕ → ClockedReader → List ℕ × ClockedReader :=
  match mode with
  | .stdout => scanSingleStream disk filter .stdout
  | .stderr => scanSingleStream disk filter .stderr
  | .both => scanInterleaved disk filter

/-- Scan all lines in the given stream mode. -/
def scanMatchingLines (mode : StreamMode) : ClockedReader → List ℕ × ClockedReader :=
  scanMatchingLinesFrom disk filter mode 0

end Scan

/-- Read these lines of a mode one by one, with one look each. -/
def readScatteredLines (disk : Disk) (mode : StreamMode) :
    List ℕ → ClockedReader → List (LineSource × String) × ClockedReader
  | [], r => ([], r)
  | n :: ns, r =>
    let looked := r.look disk
    let more := readScatteredLines disk mode ns looked
    (looked.reader.lineAt disk mode n :: more.1, more.2)

end ClockedReader

/-! ## What a reader lists depends on its segments only -/

section Congr

variable {r r' : DiskLogReader}

namespace DiskLogReader

theorem total_congr (h : ∀ s, r.segments s = r'.segments s) (mode : StreamMode) :
    r.total mode = r'.total mode := by
  cases mode <;> simp only [total, lineCountBoth, lineCount, h]

theorem readRange_congr (h : ∀ s, r.segments s = r'.segments s) (disk : Disk) (mode : StreamMode)
    (start count : ℕ) : r.readRange disk mode start count = r'.readRange disk mode start count := by
  cases mode <;> simp only [readRange, readLines, readInterleaved, buildMergedIndex, h]

theorem listing_congr (h : ∀ s, r.segments s = r'.segments s) (disk : Disk) (mode : StreamMode) :
    r.listing disk mode = r'.listing disk mode := by
  have hline : r.lineAt disk mode = r'.lineAt disk mode := by
    funext n
    rw [lineAt, lineAt, readRange_congr h]
  rw [listing, listing, total_congr h, hline]

theorem Readable.congr {disk : Disk} {mode : StreamMode} (hread : r.Readable disk mode)
    (h : ∀ s, r.segments s = r'.segments s) : r'.Readable disk mode := by
  intro start count
  rw [← total_congr h, ← readRange_congr h, ← listing_congr h]
  exact hread start count

@[simp] theorem length_listing (disk : Disk) (mode : StreamMode) (r : DiskLogReader) :
    (r.listing disk mode).length = r.total mode := by
  rw [listing, List.length_map, List.length_range]

end DiskLogReader

end Congr

/-! ## A scan finds the matches -/

namespace ClockedReader

section Settled

variable {disk : Disk} {seen : DiskLogReader} {r : ClockedReader}

/-- **Every look sees the segments** that `seen` holds. -/
def Sees (disk : Disk) (seen : DiskLogReader) (r : ClockedReader) : Prop :=
  ∀ n s, ((look disk)^[n + 1] r).reader.segments s = seen.segments s

/-- It holds them already. -/
structure Settled (disk : Disk) (seen : DiskLogReader) (r : ClockedReader) : Prop where
  segments : ∀ s, r.reader.segments s = seen.segments s
  sees : r.Sees disk seen

theorem Sees.look (h : r.Sees disk seen) : (r.look disk).Settled disk seen where
  segments := h 0
  sees n s := h (n + 1) s

theorem Settled.total (h : r.Settled disk seen) (mode : StreamMode) :
    r.reader.total mode = seen.total mode := DiskLogReader.total_congr h.segments mode

theorem Settled.listing (h : r.Settled disk seen) (mode : StreamMode) :
    r.reader.listing disk mode = seen.listing disk mode :=
  DiskLogReader.listing_congr h.segments disk mode

end Settled

section Scan

variable {disk : Disk} {seen : DiskLogReader} {filter : String} {mode : StreamMode}
  {r : ClockedReader} {count : DiskLogReader → ℕ} {total : ℕ}
  {read : ℕ → ℕ → DiskLogReader → Except ReadError (List String)}

/-- **The loop finds the matches** from `offset` on, if each chunk finds those of its window. -/
theorem scanChunks_eq {α : Type*} {p : α → Bool} {xs : List α} (hlen : xs.length = total)
    (hchunk : ∀ start count (r : DiskLogReader), (∀ s, r.segments s = seen.segments s) →
      start + count ≤ total → count ≤ CHUNK →
        chunkMatches filter start (read start count r) = ((xs.drop start).take count).findIdxs p start)
    (offset : ℕ) (h : r.Settled disk seen) :
    (scanChunks disk filter read total offset r).1 = matchesFrom p offset xs ∧
      (scanChunks disk filter read total offset r).2.Settled disk seen := by
  fun_induction scanChunks disk filter read total offset r with
  | case1 offset r hlt count looked more ih =>
    have hlooked : looked.Settled disk seen := h.sees.look
    obtain ⟨hmatches, hsettled⟩ := ih hlooked
    have hfound := hchunk offset count looked.reader hlooked.segments (by omega)
      (Nat.min_le_left _ _)
    refine ⟨?_, hsettled⟩
    rw [hfound, hmatches, matchesFrom_add offset count]
  | case2 offset r hge =>
    exact ⟨(matchesFrom_of_length_le (by omega)).symm, h⟩

theorem scan_eq {α : Type*} {p : α → Bool} {xs : List α}
    (hlen : ∀ r : DiskLogReader, (∀ s, r.segments s = seen.segments s) → count r = xs.length)
    (hchunk : ∀ start count (r : DiskLogReader), (∀ s, r.segments s = seen.segments s) →
      start + count ≤ xs.length → count ≤ CHUNK →
        chunkMatches filter start (read start count r) = ((xs.drop start).take count).findIdxs p start)
    (startFrom : ℕ) (h : r.Sees disk seen) :
    (scan disk filter count read startFrom r).1 = matchesFrom p startFrom xs ∧
      (scan disk filter count read startFrom r).2.Settled disk seen := by
  have hlooked : (r.look disk).Settled disk seen := h.look
  have htotal : count (r.look disk).reader = xs.length := hlen _ hlooked.segments
  rw [scan]
  simp only [htotal]
  split_ifs with hle
  · exact ⟨(matchesFrom_of_length_le hle).symm, hlooked⟩
  · exact scanChunks_eq rfl hchunk startFrom hlooked

/-- A stream's texts are those of its tagged lines. -/
theorem map_untag {α : Type*} (tag : α) (x : Except ReadError (List String)) :
    (x.map (·.map (tag, ·))).map (·.map (·.2)) = x := by
  cases x with
  | error e => rfl
  | ok texts =>
    have htexts : (texts.map (tag, ·)).map (·.2) = texts := by
      rw [List.map_map]
      exact List.map_id _
    exact congrArg Except.ok htexts

/-- **A scan of a mode** reads what the mode reads, up to its total. -/
theorem scanMatchingLinesFrom_eq_scan (filter : String) (mode : StreamMode) :
    scanMatchingLinesFrom disk filter mode = scan disk filter (·.total mode) fun start count r =>
      (r.readRange disk mode start count).map (·.map (·.2)) := by
  have hstream : ∀ source : LineSource, (fun start count (r : DiskLogReader) =>
      r.readLines disk source start count) = fun start count r =>
        ((r.readLines disk source start count).map (·.map (source, ·))).map (·.map (·.2)) :=
    fun source => by simp only [map_untag]
  cases mode with
  | stdout => exact congrArg (scan disk filter (·.lineCount .stdout)) (hstream .stdout)
  | stderr => exact congrArg (scan disk filter (·.lineCount .stderr)) (hstream .stderr)
  | both => rfl

/-- **A scan finds the matches of the listing** from where it starts. -/
theorem scanMatchingLinesFrom_eq (filter : String) (hread : seen.Readable disk mode) (startFrom : ℕ)
    (h : r.Sees disk seen) :
    (scanMatchingLinesFrom disk filter mode startFrom r).1 =
        matchesFrom (contains · filter) startFrom ((seen.listing disk mode).map (·.2)) ∧
      (scanMatchingLinesFrom disk filter mode startFrom r).2.Settled disk seen := by
  have hlen : ((seen.listing disk mode).map (·.2)).length = seen.total mode := by simp
  rw [scanMatchingLinesFrom_eq_scan]
  refine scan_eq (fun r hr => ?_) (fun start count r hr hend hcount => ?_) startFrom h
  · exact (DiskLogReader.total_congr hr mode).trans hlen.symm
  · rw [DiskLogReader.readRange_congr hr, hread start count (hlen ▸ hend) hcount, ← List.map_drop,
      ← List.map_take]
    rfl

/-- **Lines read one by one**, while all looks see the same. -/
theorem readScatteredLines_eq_map (h : r.Sees disk seen) (ns : List ℕ) :
    (readScatteredLines disk mode ns r).1 = ns.map (seen.lineAt disk mode) := by
  induction ns generalizing r with
  | nil => rfl
  | cons n ns ih =>
    rw [readScatteredLines, List.map_cons, ih h.look.sees, DiskLogReader.lineAt,
      DiskLogReader.readRange_congr h.look.segments, ← DiskLogReader.lineAt]

end Scan

end ClockedReader

/-! ## One moment -/

section Moment

variable {disk : Disk} {now : ℕ} {reader : DiskLogReader} {r : ClockedReader}

theorem DiskLogReader.not_stale_refresh (now : ℕ) (disk : Disk) (reader : DiskLogReader) :
    ¬(reader.refresh now disk).Stale now := by
  rw [refresh]
  split_ifs with hstale
  · intro h
    exact absurd (h _ rfl) (by simp [SEGMENT_CACHE_TTL_MS])
  · exact hstale

/-- A second look at the same time changes nothing. -/
@[simp] theorem DiskLogReader.refresh_refresh (now : ℕ) (disk : Disk) (reader : DiskLogReader) :
    (reader.refresh now disk).refresh now disk = reader.refresh now disk :=
  if_neg (not_stale_refresh now disk reader)

namespace ClockedReader

/-- A reader that has looked at the only time there is. -/
def Rested (now : ℕ) (disk : Disk) (reader : DiskLogReader) : ClockedReader :=
  ⟨reader.refresh now disk, fun _ => now⟩

@[simp] theorem look_moment :
    (⟨reader, fun _ => now⟩ : ClockedReader).look disk = Rested now disk reader := rfl

@[simp] theorem look_rested : (Rested now disk reader).look disk = Rested now disk reader := by
  rw [look, Rested, DiskLogReader.refresh_refresh]

theorem sees_moment (now : ℕ) (disk : Disk) (reader : DiskLogReader) :
    Sees disk (reader.refresh now disk) ⟨reader, fun _ => now⟩ := by
  intro n s
  have hrest : (look disk)^[n] (Rested now disk reader) = Rested now disk reader :=
    Function.iterate_fixed look_rested n
  rw [Function.iterate_succ_apply, look_moment, hrest]
  rfl

theorem scanChunks_rested {filter : String}
    {read : ℕ → ℕ → DiskLogReader → Except ReadError (List String)} {total offset : ℕ}
    (hr : r.look disk = r) : (scanChunks disk filter read total offset r).2 = r := by
  fun_induction scanChunks disk filter read total offset r with
  | case1 offset r hlt count looked more ih =>
    have hlooked : looked = r := hr
    exact (ih (hlooked.symm ▸ hr)).trans hlooked
  | case2 offset r hge => rfl

/-- A scan in one moment is one look. -/
theorem scanMatchingLinesFrom_moment (filter : String) (mode : StreamMode) (start : ℕ) :
    (scanMatchingLinesFrom disk filter mode start ⟨reader, fun _ => now⟩).2 =
      Rested now disk reader := by
  have hscan : ∀ count read, (scan disk filter count read start ⟨reader, fun _ => now⟩).2 =
      Rested now disk reader := fun count read => by
    change (if count (Rested now disk reader).reader ≤ start then ([], Rested now disk reader)
      else scanChunks disk filter read (count (Rested now disk reader).reader) start
        (Rested now disk reader)).2 = _
    split_ifs
    · rfl
    · exact scanChunks_rested look_rested
  cases mode <;> exact hscan _ _

end ClockedReader

end Moment

end AgentProcs
