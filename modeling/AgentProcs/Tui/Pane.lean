import AgentProcs.Logs.Listing
import AgentProcs.Machinery.Windows
import AgentProcs.Tui.Looks
import AgentProcs.Tui.RingBuffer

/-!
# Tui/Pane — the output pane is a window on one sequence

    disk   d₀ d₁ d₂ d₃ d₄ d₅                without a filter: the disk lines, the last of them
    hot             h₀ h₁ h₂                taken from the hot buffer
    pane   d₀ d₁ d₂ h₀ h₁ h₂
                 └─ height ─┘ offset

`visible_lines` counts and reads in up to three looks at the disk and two at the hot buffer.  When
all looks see the same segments it returns a window on the stitched sequence, and under a filter a
window on the lines the index points to.
-/

namespace AgentProcs

/-! ## The hot lines -/

namespace OutputBuffer

/-- The lines of a mode, tagged. -/
def linesOf (mode : StreamMode) (b : OutputBuffer) : List (LineSource × String) :=
  match mode with
  | .stdout => b.stdoutLines.map (LineSource.stdout, ·)
  | .stderr => b.stderrLines.map (LineSource.stderr, ·)
  | .both => b.allLines

end OutputBuffer

namespace App

/-- The hot lines of a process in the current mode. -/
def hotLines (name : String) (app : App) : List (LineSource × String) :=
  (app.buffers name).elim [] (·.linesOf app.streamMode)

/-- Every buffer is one that pushes have filled. -/
def Buffered (app : App) : Prop :=
  ∀ name buf, app.buffers name = some buf → ∃ pushed, buf = .filled MAX_BUFFER_LINES pushed

section Hot

variable {app : App} {name : String}

theorem hotLineCount_eq (h : ∀ buf, app.buffers name = some buf → buf.Counted) :
    app.hotLineCount name none = (app.hotLines name).length := by
  rw [hotLineCount, hotLines]
  cases hbuf : app.buffers name with
  | none => rfl
  | some buf =>
    obtain ⟨hout, herr⟩ := h buf hbuf
    cases app.streamMode <;> simp [OutputBuffer.linesOf, hout, herr, OutputBuffer.allLines,
      OutputBuffer.len]

theorem hotBufferRange_eq (start count : ℕ) :
    app.hotBufferRange name start count = ((app.hotLines name).drop start).take count := by
  rw [hotBufferRange, hotLines]
  cases app.buffers name with
  | none => simp
  | some buf => cases app.streamMode <;> simp [OutputBuffer.linesOf]

end Hot

/-! ## What the looks see -/

/-- **The disk yields these lines of a process**: all looks see the segments of a reader that yields
them.  Without a reader there are none. -/
def DiskYields (disk : Disk) (name : String) (clock : Clock) (lines : List (LineSource × String))
    (app : App) : Prop :=
  match app.diskReaders name with
  | none => lines = []
  | some reader => ∃ seen : DiskLogReader, seen.Yields disk app.streamMode lines ∧
      ClockedReader.Sees disk seen ⟨reader, clock⟩

section Yields

variable {app app' : App} {disk : Disk} {name : String} {clock : Clock} {height : ℕ}
  {lines : List (LineSource × String)}

/-- **One look** leaves what the next ones see. -/
theorem DiskYields.look {α : Type} {absent : α} {ask : ClockedReader → α × ClockedReader}
    (hask : ∀ r, (ask r).2 = r.look disk) (h : app.DiskYields disk name clock lines) :
    (app.withReader name absent ask clock).2.1.DiskYields disk name
      (app.withReader name absent ask clock).2.2 lines := by
  rw [DiskYields] at h
  rw [withReader]
  cases hreader : app.diskReaders name with
  | none =>
    rw [hreader] at h
    simp only [DiskYields, hreader]
    exact h
  | some reader =>
    rw [hreader] at h
    obtain ⟨seen, hyields, hsees⟩ := h
    simp only [DiskYields, Function.update_self]
    refine ⟨seen, hyields, ?_⟩
    rw [hask]
    exact hsees.look.sees

theorem DiskYields.diskLineCount (h : app.DiskYields disk name clock lines) :
    (app.diskLineCount disk name clock).1 = lines.length := by
  rw [DiskYields] at h
  rw [App.diskLineCount, withReader]
  cases hreader : app.diskReaders name with
  | none =>
    rw [hreader] at h
    rw [h]
    rfl
  | some reader =>
    rw [hreader] at h
    obtain ⟨seen, hyields, hsees⟩ := h
    exact (hsees.look.total app.streamMode).trans hyields.total

theorem DiskYields.diskReadRange (h : app.DiskYields disk name clock lines) {start count : ℕ}
    (hend : start + count ≤ lines.length) :
    (app.diskReadRange disk name start count clock).1 = (lines.drop start).take count := by
  rw [DiskYields] at h
  rw [App.diskReadRange, withReader]
  cases hreader : app.diskReaders name with
  | none =>
    rw [hreader] at h
    simp [h]
  | some reader =>
    rw [hreader] at h
    obtain ⟨seen, hyields, hsees⟩ := h
    have hread : (ClockedReader.readRange disk app.streamMode start count ⟨reader, clock⟩).1 =
        .ok ((lines.drop start).take count) := by
      rw [ClockedReader.readRange, DiskLogReader.readRange_congr hsees.look.segments]
      exact hyields.read start count hend
    simp only [hread]
    rfl

/-! ## The window -/

/-- **The pane is a window on the stitched sequence**, and no subtraction underflows. -/
theorem visibleLines_eq_window (hfilter : app.filter = none)
    (hbuf : ∀ buf, app.buffers name = some buf → buf.Counted)
    (hdisk : app.DiskYields disk name clock lines) : ∃ app' clock',
      app.visibleLines disk name height clock = .ok (window (app.scrollOffset name) height
        (stitched lines (app.hotLines name)), app', clock') := by
  have hlook := looked_totalLineCount app disk name clock
  have hyields : (app.totalLineCount disk name clock).2.1.DiskYields disk name
      (app.totalLineCount disk name clock).2.2 lines :=
    DiskYields.look (fun _ => rfl) hdisk
  have htotal : (app.totalLineCount disk name clock).1 =
      (stitched lines (app.hotLines name)).length := by
    rw [length_stitched, App.totalLineCount, ← hdisk.diskLineCount, ← hotLineCount_eq hbuf]
  generalize hcount : app.totalLineCount disk name clock = counted at *
  obtain ⟨total, app₁, clock₁⟩ := counted
  simp only at hlook hyields htotal
  have hhot : app₁.hotLines name = app.hotLines name := by
    rw [hotLines, hotLines, hlook.buffers, hlook.streamMode]
  have hlook₂ := looked_diskLineCount app₁ disk name clock₁
  have hyields₂ : (app₁.diskLineCount disk name clock₁).2.1.DiskYields disk name
      (app₁.diskLineCount disk name clock₁).2.2 lines :=
    DiskYields.look (fun _ => rfl) hyields
  have hdiskCount := hyields.diskLineCount
  generalize hread : app₁.diskLineCount disk name clock₁ = read at *
  obtain ⟨diskCount, app₂, clock₂⟩ := read
  simp only at hlook₂ hyields₂ hdiskCount
  have hhot₂ : app₂.hotLines name = app.hotLines name := by
    rw [hotLines, hlook₂.buffers, hlook₂.streamMode, ← hotLines, hhot]
  have hoffset : app₁.scrollOffset name = app.scrollOffset name := by
    rw [scrollOffset, scrollOffset, hlook.paused, hlook.scrollOffsets]
  have hboundary : diskCount - app₁.hotLineCount name none =
      lines.length - (app.hotLines name).length := by
    rw [hdiskCount, hotLineCount_eq (hlook.buffers ▸ hbuf), hhot]
  subst htotal
  have hwindow : window (app.scrollOffset name) height (stitched lines (app.hotLines name)) = _ :=
    window_eq rfl rfl
  rw [visibleLines_eq hfilter hcount hread rfl rfl hboundary.symm, hoffset, hwindow]
  generalize (stitched lines (app.hotLines name)).length - app.scrollOffset name = stop at *
  generalize hstart : stop - height = start
  split_ifs with hempty hhotOnly hdiskOnly
  · exact ⟨app₁, clock₁, by rw [hempty, List.take_zero]⟩
  · exact ⟨app₂, clock₂, by rw [hotBufferRange_eq, hhot₂, drop_stitched hhotOnly]⟩
  · refine ⟨_, _, congrArg Except.ok (Prod.ext ?_ rfl)⟩
    rw [hyields₂.diskReadRange (by omega), ← List.drop_take, ← List.drop_take,
      take_stitched hdiskOnly]
  · refine ⟨_, _, congrArg Except.ok (Prod.ext ?_ rfl)⟩
    have hlook₃ := (looked_diskReadRange app₂ disk name clock₂ start
      (lines.length - (app.hotLines name).length - start))
    have hhot₃ : (app₂.diskReadRange disk name start
        (lines.length - (app.hotLines name).length - start) clock₂).2.1.hotLines name =
        app.hotLines name := by
      rw [hotLines, hlook₃.buffers, hlook₃.streamMode, ← hotLines, hhot₂]
    simp only
    rw [hyields₂.diskReadRange (by omega), hotBufferRange_eq, hhot₃, List.drop_zero,
      drop_take_stitched (by omega) (by omega)]

/-- Lines read one by one, while all looks see the same. -/
theorem readScatteredLines_eq {seen : DiskLogReader} {mode : StreamMode} {r : ClockedReader}
    (hyields : seen.Yields disk mode lines) (hsees : r.Sees disk seen) (ns : List ℕ) :
    (r.readScatteredLines disk mode ns).1 =
      ns.map fun n => (lines[n]?).getD (DiskLogReader.blank mode) := by
  rw [ClockedReader.readScatteredLines_eq_map hsees]
  exact List.map_congr_left fun n _ => hyields.lineAt_eq n

/-- The line numbers an index of the process holds. -/
def matchesOf (name : String) (app : App) : List ℕ :=
  (app.filteredIndices name).elim [] (·.matchingLines)

theorem matchCount_eq (name : String) (app : App) :
    app.matchCount name = (app.matchesOf name).length := by
  rw [matchCount, matchesOf]
  cases app.filteredIndices name <;> rfl

/-- **What the pane is a window on**: the stitched lines, or the lines the index points to. -/
def pane (lines : List (LineSource × String)) (name : String) (app : App) :
    List (LineSource × String) :=
  match app.filter with
  | none => stitched lines (app.hotLines name)
  | some _ => (app.diskReaders name).elim [] fun _ =>
      (app.matchesOf name).map fun n => (lines[n]?).getD (DiskLogReader.blank app.streamMode)

/-- **The pane is a window**, with or without a filter. -/
theorem visibleLines_eq_pane
    (hbuf : ∀ buf, app.buffers name = some buf → buf.Counted)
    (hdisk : app.DiskYields disk name clock lines) : ∃ app' clock',
      app.visibleLines disk name height clock = .ok (window (app.scrollOffset name) height
        (app.pane lines name), app', clock') := by
  cases hfilter : app.filter with
  | none =>
    rw [pane, hfilter]
    exact visibleLines_eq_window hfilter hbuf hdisk
  | some filter =>
    have hnumbers : (app.filteredIndices name).elim [] (fun fi =>
        (fi.matchingLines.take (app.matchCount name - app.scrollOffset name)).drop
          (app.matchCount name - app.scrollOffset name - height)) =
        window (app.scrollOffset name) height (app.matchesOf name) := by
      rw [window, ← matchCount_eq, matchesOf]
      cases app.filteredIndices name <;> simp
    rw [DiskYields] at hdisk
    rw [visibleLines, hfilter, Option.isSome_some, if_pos rfl]
    simp only [filteredVisibleLines, checkedSub_of_le (Nat.sub_le _ height), bind, Except.bind,
      pure, Except.pure, hnumbers, withReader]
    rw [pane, hfilter]
    cases hreader : app.diskReaders name with
    | none =>
      have hnil : window (app.scrollOffset name) height ([] : List (LineSource × String)) = [] :=
        window_eq_nil (.inr (Nat.zero_le _))
      refine ⟨app, clock, ?_⟩
      rw [Option.elim_none, hnil]
      split_ifs <;> rfl
    | some reader =>
      rw [hreader] at hdisk
      obtain ⟨seen, hyields, hsees⟩ := hdisk
      simp only [Option.elim_some, window_map]
      rw [matchCount_eq]
      split_ifs with htotal hcount
      · exact ⟨app, clock, by rw [window_eq_nil (.inr (by omega)), List.map_nil]⟩
      · exact ⟨app, clock, by rw [window_eq_nil (by omega), List.map_nil]⟩
      · rw [← readScatteredLines_eq hyields hsees]
        exact ⟨_, _, rfl⟩

/-- **The stitched window**: without a filter the pane is `T[|T|-o-v .. |T|-o]`, where `T` is the
disk history when the hot lines end it, and the hot lines when there are more of them. -/
theorem visibleLines_stitched {T : List (LineSource × String)} (hfilter : app.filter = none)
    (hbuf : ∀ buf, app.buffers name = some buf → ∃ maxLines pushed, buf = .filled maxLines pushed)
    (hdisk : app.DiskYields disk name clock lines)
    (hT : app.hotLines name <:+ lines ∧ T = lines ∨
      lines.length < (app.hotLines name).length ∧ T = app.hotLines name) :
    ∃ app' clock', app.visibleLines disk name height clock =
      .ok (window (app.scrollOffset name) height T, app', clock') := by
  have hstitched : stitched lines (app.hotLines name) = T := by
    obtain ⟨hsuffix, rfl⟩ | ⟨hlonger, rfl⟩ := hT
    · exact stitched_of_suffix hsuffix
    · exact stitched_of_length_le hlonger.le
  rw [← hstitched]
  refine visibleLines_eq_window hfilter (fun buf hbuf' => ?_) hdisk
  obtain ⟨maxLines, pushed, rfl⟩ := hbuf buf hbuf'
  exact OutputBuffer.counted_filled maxLines pushed

end Yields

/-! ## Over the logs of a process -/

section Captured

/-- What the disk yields of captured logs, in one moment. -/
theorem diskYields_of_reachable {name : String} {maxBytes : ℕ} {p : ProcessLogs} {app : App}
    {reader : DiskLogReader} {now : ℕ} (hdot : name ≠ ".")
    (h : (processLogs name maxBytes DEFAULT_MAX_ROTATED_FILES (NoLogs name)).Reachable p)
    (hfree : ∀ s, ∀ x ∈ p.written s, NewlineFree x.entry.line)
    (hfits : FitsMemory ((p.shown name .stdout).length + (p.shown name .stderr).length))
    (hreader : app.diskReaders name = some reader) (hr : reader.process = name)
    (hstale : reader.Stale now) :
    app.DiskYields p.shared.disk name (fun _ => now)
      ((listed (p.shown name) app.streamMode).map tagged) := by
  rw [DiskYields, hreader]
  exact ⟨_, yields_of_reachable hdot h hfree hfits hr hstale app.streamMode,
    ClockedReader.sees_moment now _ reader⟩

/-- `web` has printed `a` and `b`, and both are indexed. -/
def printedWeb : ProcessLogs :=
  ((webLogs.emit (.of "web" .stdout DEFAULT_MAX_LOG_BYTES DEFAULT_MAX_ROTATED_FILES) .stdout "a").emit
    (.of "web" .stdout DEFAULT_MAX_LOG_BYTES DEFAULT_MAX_ROTATED_FILES) .stdout "b").finish .stdout

theorem reachable_printedWeb : (processLogs "web" DEFAULT_MAX_LOG_BYTES DEFAULT_MAX_ROTATED_FILES
    (NoLogs "web")).Reachable printedWeb :=
  ((reachable_webLogs.step
    (@LogsStep.write _ _ _ _ .stdout "a" rfl rfl (by decide +kernel))).step
      (@LogsStep.write _ _ _ _ .stdout "b" rfl rfl (by decide +kernel))).step
        (@LogsStep.finish _ _ _ _ .stdout rfl rfl)

/-- What a reader of `web` that has not looked yet yields. -/
theorem diskYields_printedWeb {app : App} (hmode : app.streamMode = .stdout)
    (hreader : app.diskReaders "web" = some (.new "web")) :
    app.DiskYields printedWeb.shared.disk "web" (fun _ => 0) [(.stdout, "a"), (.stdout, "b")] := by
  have hout : printedWeb.shown "web" .stdout = [⟨0, "a", 0⟩, ⟨0, "b", 1⟩] := by decide +kernel
  have herr : printedWeb.shown "web" .stderr = [] := by decide +kernel
  have hyields := diskYields_of_reachable (by decide) reachable_printedWeb (fun s x hx => ?_)
    (by rw [hout, herr]; decide) hreader rfl (nofun : (DiskLogReader.new "web").Stale 0)
  · rw [hmode, listed, hout] at hyields
    exact hyields
  · have hstdout : printedWeb.written .stdout = [⟨0, "a", 0⟩, ⟨0, "b", 1⟩] := by decide +kernel
    have hstderr : printedWeb.written .stderr = [] := by decide +kernel
    cases s with
    | stdout =>
      revert x
      rw [hstdout]
      decide +kernel
    | stderr =>
      rw [hstderr] at hx
      cases hx

/-- The window is split: `a` comes from the disk, `b` from the hot buffer. -/
theorem visibleLines_stitched_split : ∃ app' clock',
    ({ App.new with
      buffers := Function.update (fun _ => none) "web" (some (.filled 1 [(.stdout, "b")]))
      diskReaders := Function.update (fun _ => none) "web" (some (.new "web")) } : App).visibleLines
        printedWeb.shared.disk "web" 2 (fun _ => 0) =
      .ok ([(.stdout, "a"), (.stdout, "b")], app', clock') := by
  refine visibleLines_stitched rfl (fun buf hbuf => ?_)
    (diskYields_printedWeb rfl rfl) (.inl ⟨⟨[(.stdout, "a")], rfl⟩, rfl⟩)
  obtain rfl : OutputBuffer.filled 1 [(.stdout, "b")] = buf := Option.some.inj hbuf
  exact ⟨1, [(.stdout, "b")], rfl⟩

end Captured

end App

end AgentProcs
