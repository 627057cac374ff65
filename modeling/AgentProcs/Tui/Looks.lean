import AgentProcs.Tui.EventLoop

/-!
# Tui/Looks — asking a reader changes nothing but its cache

    app ──line_count, visible_lines, scan──▸ app'      app' = app, but for the readers' caches

What the pane shows, and what a scan finds, is read through a reader that may probe the directory
again while it is asked.  The rest of the state, and which processes have a reader, stay.
-/

namespace AgentProcs

/-! ## A reader stays the reader of its process -/

namespace ClockedReader

section Process

variable {disk : Disk} {filter : String} {mode : StreamMode} {r : ClockedReader}

@[simp] theorem look_process : (r.look disk).reader.process = r.reader.process := by
  rw [look, DiskLogReader.refresh]
  split_ifs <;> rfl

@[simp] theorem total_process : (r.total disk mode).2.reader.process = r.reader.process :=
  look_process

@[simp] theorem readRange_process {start count : ℕ} :
    (r.readRange disk mode start count).2.reader.process = r.reader.process := look_process

theorem scanChunks_process {read : ℕ → ℕ → DiskLogReader → Except ReadError (List String)}
    {total offset : ℕ} :
    (scanChunks disk filter read total offset r).2.reader.process = r.reader.process := by
  fun_induction scanChunks disk filter read total offset r with
  | case1 offset r hlt count looked more ih => exact ih.trans look_process
  | case2 offset r hge => rfl

theorem scan_process {count : DiskLogReader → ℕ}
    {read : ℕ → ℕ → DiskLogReader → Except ReadError (List String)} {start : ℕ} :
    (scan disk filter count read start r).2.reader.process = r.reader.process := by
  rw [scan]
  split_ifs
  · exact look_process
  · exact scanChunks_process.trans look_process

@[simp] theorem scanMatchingLinesFrom_process {start : ℕ} :
    (scanMatchingLinesFrom disk filter mode start r).2.reader.process = r.reader.process := by
  cases mode <;> exact scan_process

@[simp] theorem readScatteredLines_process {ns : List ℕ} :
    (readScatteredLines disk mode ns r).2.reader.process = r.reader.process := by
  induction ns generalizing r with
  | nil => rfl
  | cons n ns ih => exact ih.trans look_process

end Process

end ClockedReader

/-! ## Looking -/

/-- **Only the readers' caches differ.** -/
structure Looked (app app' : App) : Prop where
  rest : app' = { app with diskReaders := app'.diskReaders }
  process : ∀ name,
    (app'.diskReaders name).map (·.process) = (app.diskReaders name).map (·.process)

namespace Looked

variable {app app' app'' : App}

theorem refl (app : App) : Looked app app := ⟨rfl, fun _ => rfl⟩

theorem trans (h : Looked app app') (h' : Looked app' app'') : Looked app app'' where
  rest := by
    have hrest := h'.rest
    rw [h.rest] at hrest
    exact hrest
  process name := (h'.process name).trans (h.process name)

theorem isSome (h : Looked app app') (name : String) :
    (app'.diskReaders name).isSome = (app.diskReaders name).isSome := by
  have hmap := congrArg Option.isSome (h.process name)
  rwa [Option.isSome_map, Option.isSome_map] at hmap

section Fields

variable (h : Looked app app')

include h

theorem filter : app'.filter = app.filter := by rw [h.rest]

theorem streamMode : app'.streamMode = app.streamMode := by rw [h.rest]

theorem filteredIndices : app'.filteredIndices = app.filteredIndices := by rw [h.rest]

theorem buffers : app'.buffers = app.buffers := by rw [h.rest]

theorem scrollOffsets : app'.scrollOffsets = app.scrollOffsets := by rw [h.rest]

theorem paused : app'.paused = app.paused := by rw [h.rest]

theorem visibleHeight : app'.visibleHeight = app.visibleHeight := by rw [h.rest]

theorem processes : app'.processes = app.processes := by rw [h.rest]

theorem selectedName : app'.selectedName = app.selectedName := by rw [h.rest]; rfl

end Fields

end Looked

namespace App

section Looks

variable (app : App) (disk : Disk) (name : String) (clock : Clock)

/-- **Asking a reader is looking.** -/
theorem looked_withReader {α : Type} (absent : α) {ask : ClockedReader → α × ClockedReader}
    (hask : ∀ r, (ask r).2.reader.process = r.reader.process) :
    Looked app (app.withReader name absent ask clock).2.1 := by
  rw [withReader]
  split
  · exact .refl app
  · next reader hreader =>
    refine ⟨rfl, fun name' => ?_⟩
    by_cases hname : name' = name
    · subst hname
      simp [hreader, hask]
    · simp [hname]

theorem looked_diskLineCount : Looked app (app.diskLineCount disk name clock).2.1 :=
  looked_withReader app name clock 0 fun _ => ClockedReader.total_process

theorem looked_totalLineCount : Looked app (app.totalLineCount disk name clock).2.1 :=
  looked_diskLineCount app disk name clock

theorem looked_lineCountFor : Looked app (app.lineCountFor disk name clock).2.1 := by
  rw [lineCountFor]
  split_ifs
  · exact .refl app
  · exact looked_totalLineCount app disk name clock

theorem looked_diskReadRange (start count : ℕ) :
    Looked app (app.diskReadRange disk name start count clock).2.1 :=
  looked_withReader app name clock [] fun _ => ClockedReader.look_process

variable {app disk name clock} {app' : App} {clock' : Clock} {height : ℕ} {lines : List (LineSource × String)}

theorem looked_filteredVisibleLines
    (h : app.filteredVisibleLines disk name height clock = .ok (lines, app', clock')) :
    Looked app app' := by
  simp only [filteredVisibleLines, checkedSub_of_le (Nat.sub_le _ height), bind, Except.bind, pure,
    Except.pure] at h
  split_ifs at h
  · obtain ⟨-, rfl, -⟩ : lines = [] ∧ app = app' ∧ clock = clock' := by simpa [eq_comm] using h
    exact .refl app
  · obtain ⟨-, rfl, -⟩ : lines = [] ∧ app = app' ∧ clock = clock' := by simpa [eq_comm] using h
    exact .refl app
  · have hlooked := looked_withReader app name clock [] fun r =>
      @ClockedReader.readScatteredLines_process disk app.streamMode r
        ((app.filteredIndices name).elim [] fun fi =>
          (fi.matchingLines.take (app.matchCount name - app.scrollOffset name)).drop
            (app.matchCount name - app.scrollOffset name - height))
    rwa [Except.ok.inj h] at hlooked

/-- **No subtraction underflows**: without a filter the window is one of four. -/
theorem visibleLines_eq (hfilter : app.filter = none) {total diskCount : ℕ} {app₁ app₂ : App}
    {clock₁ clock₂ : Clock}
    (hcount : app.totalLineCount disk name clock = (total, app₁, clock₁))
    (hdisk : app₁.diskLineCount disk name clock₁ = (diskCount, app₂, clock₂)) {stop start boundary : ℕ}
    (hstop : stop = total - app₁.scrollOffset name) (hstart : start = stop - height)
    (hboundary : boundary = diskCount - app₁.hotLineCount name none) :
    app.visibleLines disk name height clock = .ok (
      if stop - start = 0 then ([], app₁, clock₁)
      else if boundary ≤ start then
        (app₂.hotBufferRange name (start - boundary) (stop - start), app₂, clock₂)
      else if stop ≤ boundary then app₂.diskReadRange disk name start (stop - start) clock₂
      else
        let read := app₂.diskReadRange disk name start (boundary - start) clock₂
        (read.1 ++ read.2.1.hotBufferRange name 0 (stop - boundary), read.2)) := by
  have hsub := checkedSub_of_le (a := stop) (b := start) (by omega)
  have hnone : app.filter.isSome = false := by rw [hfilter]; rfl
  subst hboundary
  rw [visibleLines, hnone]
  simp only [hcount, hdisk, ← hstop, ← hstart, hsub, bind, Except.bind, pure, Except.pure,
    Bool.false_eq_true, if_false]
  split_ifs with hempty hhot honly
  · rfl
  · rw [checkedSub_of_le hhot]
  · rfl
  · rw [checkedSub_of_le (Nat.le_of_not_le hhot), checkedSub_of_le (Nat.le_of_not_le honly)]

/-- **Showing the pane is looking.** -/
theorem looked_visibleLines
    (h : app.visibleLines disk name height clock = .ok (lines, app', clock')) :
    Looked app app' := by
  cases hfilter : app.filter with
  | some filter =>
    rw [visibleLines, hfilter] at h
    exact looked_filteredVisibleLines h
  | none =>
    have hcount := looked_totalLineCount app disk name clock
    have hdisk := looked_diskLineCount (app.totalLineCount disk name clock).2.1 disk name
      (app.totalLineCount disk name clock).2.2
    rw [visibleLines_eq hfilter rfl rfl rfl rfl rfl] at h
    have hboth := hcount.trans hdisk
    split_ifs at h
    · obtain ⟨-, rfl, -⟩ := Prod.mk.injEq .. ▸ (Except.ok.inj h)
      exact hcount
    · obtain ⟨-, rfl, -⟩ := Prod.mk.injEq .. ▸ (Except.ok.inj h)
      exact hboth
    · obtain rfl := congrArg (·.2.1) (Except.ok.inj h)
      exact hboth.trans (looked_diskReadRange ..)
    · obtain rfl := congrArg (·.2.1) (Except.ok.inj h)
      exact hboth.trans (looked_diskReadRange ..)

/-- Drawing is showing the pane of the selected process at this height. -/
theorem visibleLines_of_draw (h : app.draw disk height clock = .ok (lines, app')) : ∃ clock',
    visibleLines disk (app.selectedName.getD "(none)") height clock
      { app with visibleHeight := height } = .ok (lines, app', clock') := by
  rw [draw] at h
  cases hshown : visibleLines disk (app.selectedName.getD "(none)") height clock
    { app with visibleHeight := height } with
  | error e =>
    simp only [hshown] at h
    cases h
  | ok shown =>
    simp only [hshown] at h
    obtain ⟨rfl, rfl⟩ := Prod.mk.inj (Except.ok.inj h)
    exact ⟨shown.2.2, rfl⟩

theorem looked_draw (h : app.draw disk height clock = .ok (lines, app')) :
    Looked { app with visibleHeight := height } app' := by
  obtain ⟨clock', hshown⟩ := visibleLines_of_draw h
  exact looked_visibleLines hshown

end Looks

end App

/-! ## Scrolling -/

/-- **Scrolling is looking** with other offsets: what is shown may change, not what there is. -/
def Scrolled (app app' : App) : Prop :=
  ∃ paused scrollOffsets, Looked { app with paused, scrollOffsets } app'

namespace Scrolled

variable {app app' : App}

theorem refl (app : App) : Scrolled app app := ⟨app.paused, app.scrollOffsets, .refl app⟩

theorem rest (h : Scrolled app app') : ∃ paused scrollOffsets diskReaders,
    app' = { app with paused, scrollOffsets, diskReaders } := by
  obtain ⟨paused, scrollOffsets, hlooked⟩ := h
  exact ⟨paused, scrollOffsets, _, hlooked.rest⟩

theorem buffers (h : Scrolled app app') : app'.buffers = app.buffers := by
  obtain ⟨_, _, _, rfl⟩ := h.rest
  rfl

end Scrolled

namespace App

section Scrolling

variable (app : App) (disk : Disk) (clock : Clock)

/-- Count the lines, then set the offset. -/
theorem scrolled_lineCountFor (paused : Bool) (name : String) (scrollOffsets : String → Option ℕ) :
    Scrolled app { ({ app with paused }.lineCountFor disk name clock).2.1 with scrollOffsets } := by
  have hlooked := looked_lineCountFor { app with paused } disk name clock
  refine ⟨paused, scrollOffsets, ?_, hlooked.process⟩
  generalize ({ app with paused }.lineCountFor disk name clock).2.1 = counted at hlooked ⊢
  rw [hlooked.rest]

theorem scrolled_scrollUpBy (lines : ℕ) : Scrolled app (app.scrollUpBy disk lines clock) := by
  rw [scrollUpBy]
  cases selectedName { app with paused := true } with
  | none => exact ⟨true, app.scrollOffsets, .refl _⟩
  | some name => exact scrolled_lineCountFor app disk clock true name _

theorem scrolled_scrollToTop : Scrolled app (app.scrollToTop disk clock) := by
  rw [scrollToTop]
  cases selectedName { app with paused := true } with
  | none => exact ⟨true, app.scrollOffsets, .refl _⟩
  | some name => exact scrolled_lineCountFor app disk clock true name _

theorem scrolled_scrollDownBy (lines : ℕ) : Scrolled app (app.scrollDownBy lines) := by
  rw [scrollDownBy]
  split
  · exact .refl app
  · exact ⟨_, _, .refl _⟩

theorem scrolled_scrollToBottom : Scrolled app app.scrollToBottom := by
  rw [scrollToBottom]
  split
  · exact .refl app
  · exact ⟨_, _, .refl _⟩

theorem scrolled_togglePause : Scrolled app app.togglePause := by
  rw [togglePause]
  simp only
  split_ifs
  · exact ⟨_, _, .refl _⟩
  · split <;> exact ⟨_, _, .refl _⟩

end Scrolling

/-! ## Starting up -/

section Start

variable {app : App} {disk : Disk}

/-- Without a filter, output goes to the hot buffer only. -/
theorem pushOutput_of_none (hfilter : app.filter = none) (process : String) (stream : Stream)
    (line : String) (clock : Clock) :
    app.pushOutput disk process stream line clock = app.bufferOutput process stream line := by
  have hnone : (app.bufferOutput process stream line).filter.isSome = false := by
    rw [bufferOutput, hfilter]
    rfl
  rw [pushOutput]
  simp only [hnone, Bool.false_eq_true, if_false]

/-- Loading the end of a file is buffering its lines. -/
theorem preload_eq (hfilter : app.filter = none) (file : (String × Stream) × FileName) :
    app.preload disk file = ((tailFile file.2 PRELOAD_LINES disk).getD []).foldl
      (fun app line => app.bufferOutput file.1.1 file.1.2 line) app := by
  rw [preload]
  induction (tailFile file.2 PRELOAD_LINES disk).getD [] generalizing app with
  | nil => rfl
  | cons line lines ih =>
    rw [List.foldl_cons, List.foldl_cons, pushOutput_of_none hfilter]
    exact ih hfilter

/-- Buffering touches the buffers only. -/
theorem foldl_bufferOutput (app : App) (lines : List (String × Stream × String)) :
    ∃ buffers, lines.foldl (fun app l => app.bufferOutput l.1 l.2.1 l.2.2) app =
      { app with buffers } := by
  induction lines generalizing app with
  | nil => exact ⟨app.buffers, rfl⟩
  | cons l lines ih =>
    obtain ⟨buffers, heq⟩ := ih (app.bufferOutput l.1 l.2.1 l.2.2)
    exact ⟨buffers, heq⟩

/-- The current log files among these. -/
def logEntries (files : List FileName) : List ((String × Stream) × FileName) :=
  files.filterMap fun name => (currentLog name).map (·, name)

/-- The lines loaded at the start, in the order of the files. -/
def preloaded (disk : Disk) (entries : List ((String × Stream) × FileName)) :
    List (String × Stream × String) :=
  entries.flatMap fun e =>
    ((tailFile e.2 PRELOAD_LINES disk).getD []).map fun line => (e.1.1, e.1.2, line)

theorem foldl_preload (hfilter : app.filter = none) (entries : List ((String × Stream) × FileName)) :
    entries.foldl (fun app e => app.preload disk e) app =
      (preloaded disk entries).foldl (fun app l => app.bufferOutput l.1 l.2.1 l.2.2) app := by
  induction entries generalizing app with
  | nil => rfl
  | cons e entries ih =>
    have hpreload : app.preload disk e =
        (preloaded disk [e]).foldl (fun app l => app.bufferOutput l.1 l.2.1 l.2.2) app := by
      rw [preload_eq hfilter, preloaded, List.flatMap_singleton, List.foldl_map]
    obtain ⟨buffers, hbuffers⟩ := foldl_bufferOutput app (preloaded disk [e])
    have hkept : (app.preload disk e).filter = none := by
      rw [hpreload, hbuffers]
      exact hfilter
    have hcons : preloaded disk (e :: entries) = preloaded disk [e] ++ preloaded disk entries := by
      simp [preloaded]
    rw [List.foldl_cons, ih hkept, hpreload, hcons, List.foldl_append]

/-- **Starting up** is creating the readers and buffering what is loaded. -/
theorem initDiskReaders_eq (files : List FileName) (disk : Disk) :
    App.new.initDiskReaders files disk =
      (preloaded disk (logEntries files)).foldl (fun app l => app.bufferOutput l.1 l.2.1 l.2.2)
        { App.new with
          diskReaders := (logEntries files).foldl (fun readers e =>
            Function.update readers e.1.1 (some (.new e.1.1))) fun _ => none } :=
  foldl_preload rfl _

theorem exists_initDiskReaders (files : List FileName) (disk : Disk) : ∃ diskReaders buffers,
    App.new.initDiskReaders files disk = { App.new with diskReaders, buffers } := by
  obtain ⟨buffers, hbuffers⟩ := foldl_bufferOutput { App.new with
    diskReaders := (logEntries files).foldl (fun readers e =>
      Function.update readers e.1.1 (some (.new e.1.1))) fun _ => none }
    (preloaded disk (logEntries files))
  exact ⟨_, buffers, (initDiskReaders_eq files disk).trans hbuffers⟩

end Start

end App

/-- **Every run starts** with readers and buffers, and nothing else. -/
theorem exists_of_init {t : Tui} (h : tui.init t) :
    ∃ diskReaders buffers, t.app = { App.new with diskReaders, buffers } := by
  obtain ⟨files, -, happ⟩ := h
  rw [happ]
  exact App.exists_initDiskReaders files t.disk

end AgentProcs
