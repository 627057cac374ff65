import AgentProcs.Tui.Steps

/-!
# Tui/Frozen — what a paused pane shows while output arrives

    paused   l₀ l₁ │l₂ l₃│ l₄          offset 1, height 2
    push     l₀ l₁ l₂ │l₃ l₄│ l₅       the same offset, one line on

The offset counts from the end, so a line that is added moves the window by one.  The pane shows the
same exactly when nothing is added, nothing is shown, or the lines it moves on to read the same.
-/

namespace AgentProcs

/-! ## Output arrives -/

/-- The user leaves the interface alone: lines are pushed, the disk changes, the pane is drawn. -/
def Pushing (_ : Tui) : TuiEvent → Prop
  | .handle (.outputLine ..) _ _ => True
  | .draw .. => True
  | .write _ => True
  | _ => False

/-- What pushes leave alone, and which indices they extend. -/
structure Followed (app app' : App) : Prop where
  paused : app'.paused = app.paused
  scrollOffsets : app'.scrollOffsets = app.scrollOffsets
  filter : app'.filter = app.filter
  streamMode : app'.streamMode = app.streamMode
  readers : ∀ name, (app'.diskReaders name).isSome = (app.diskReaders name).isSome
  extended : ∀ name, app.matchesOf name <+: app'.matchesOf name

namespace Followed

variable {app app' app'' : App}

theorem refl (app : App) : Followed app app := ⟨rfl, rfl, rfl, rfl, fun _ => rfl, fun _ => List.prefix_refl _⟩

theorem trans (h : Followed app app') (h' : Followed app' app'') : Followed app app'' where
  paused := h'.paused.trans h.paused
  scrollOffsets := h'.scrollOffsets.trans h.scrollOffsets
  filter := h'.filter.trans h.filter
  streamMode := h'.streamMode.trans h.streamMode
  readers name := (h'.readers name).trans (h.readers name)
  extended name := (h.extended name).trans (h'.extended name)

theorem scrollOffset (h : Followed app app') (name : String) :
    app'.scrollOffset name = app.scrollOffset name := by
  rw [App.scrollOffset, App.scrollOffset, h.paused, h.scrollOffsets]

end Followed

namespace App

section Push

variable (app : App) (disk : Disk) (process : String) (stream : Stream) (line : String)
  (clock : Clock)

/-- An index is only extended. -/
theorem prefix_extended (fi : FilteredIndex) (reader : DiskLogReader) :
    fi.matchingLines <+: (extended disk clock fi reader).1.matchingLines := by
  rw [extended]
  simp only
  split_ifs
  · exact List.prefix_refl _
  · exact List.prefix_append ..

theorem followed_updateFilteredIndex :
    Followed app (app.updateFilteredIndex disk process clock) := by
  cases hfi : app.filteredIndices process with
  | none =>
    rw [updateFilteredIndex_of_none (.inl hfi)]
    exact .refl app
  | some fi =>
    cases hreader : app.diskReaders process with
    | none =>
      rw [updateFilteredIndex_of_none (.inr hreader)]
      exact .refl app
    | some reader =>
      rw [updateFilteredIndex_eq disk clock hfi hreader]
      refine ⟨rfl, rfl, rfl, rfl, fun name => ?_, fun name => ?_⟩
      · by_cases hname : name = process
        · subst hname
          simp only [Function.update_self, hreader, Option.isSome_some]
        · simp only [Function.update_of_ne hname]
      · by_cases hname : name = process
        · subst hname
          simp only [matchesOf, Function.update_self, hfi, Option.elim_some]
          exact prefix_extended disk clock fi reader
        · simp only [matchesOf, Function.update_of_ne hname]
          exact List.prefix_refl _

theorem followed_pushOutput : Followed app (app.pushOutput disk process stream line clock) := by
  have hbuffered : Followed app (app.bufferOutput process stream line) :=
    ⟨rfl, rfl, rfl, rfl, fun _ => rfl, fun _ => List.prefix_refl _⟩
  rw [pushOutput]
  split_ifs
  · exact hbuffered.trans (followed_updateFilteredIndex ..)
  · exact hbuffered

end Push

end App

section Run

variable {t t' : Tui} {ts : List (Transition Tui TuiEvent)} {e : TuiEvent}

theorem followed_step (hstep : TuiStep t e t') (hpushing : Pushing t e) : Followed t.app t'.app := by
  cases hstep with
  | @handle event names clocks =>
    cases event with
    | outputLine process stream line => exact App.followed_pushOutput ..
    | _ => cases hpushing
  | draw _ hdrawn =>
    have hlooked := App.looked_draw hdrawn
    refine ⟨hlooked.paused, hlooked.scrollOffsets, hlooked.filter, hlooked.streamMode, hlooked.isSome,
      fun name => ?_⟩
    rw [App.matchesOf, App.matchesOf, hlooked.filteredIndices]
  | write => exact .refl _

/-- **A run of pushes** leaves the scroll position alone. -/
theorem followed_run (hrun : (tui.guarded Pushing).Run t ts t') : Followed t.app t'.app := by
  induction hrun with
  | refl => exact .refl _
  | snoc _ hstep ih => exact ih.trans (followed_step hstep.1 hstep.2)

end Run

/-! ## What arrives -/

/-- A mode shows the lines of this source. -/
def StreamMode.shows (mode : StreamMode) (source : LineSource) : Bool :=
  match mode, source with
  | .stdout, .stdout => true
  | .stderr, .stderr => true
  | .both, _ => true
  | _, _ => false

/-- The lines pushed for a process that a mode shows, in order. -/
def pushedLines (name : String) (mode : StreamMode) (ts : List (Transition Tui TuiEvent)) :
    List (LineSource × String) :=
  ts.filterMap fun τ =>
    match τ.ev with
    | .handle (.outputLine process stream line) _ _ =>
      if process = name ∧ mode.shows stream.source then some (stream.source, line) else none
    | _ => none

namespace OutputBuffer

variable {b : OutputBuffer} {mode : StreamMode}

/-- The lines of a mode are those it shows. -/
theorem linesOf_eq (mode : StreamMode) (b : OutputBuffer) :
    b.linesOf mode = b.lines.filter fun l => mode.shows l.1 := by
  have hsource : ∀ source, ((b.lines.filter (·.1 = source)).map (·.2)).map (source, ·) =
      b.lines.filter (·.1 = source) := by
    intro source
    rw [List.map_map]
    refine (List.map_congr_left fun l hl => ?_).trans (List.map_id _)
    have hl' : l.1 = source := by simpa using (List.mem_filter.mp hl).2
    exact Prod.ext hl'.symm rfl
  cases mode with
  | stdout => exact (hsource .stdout).trans (List.filter_congr fun l _ => by cases l.1 <;> rfl)
  | stderr => exact (hsource .stderr).trans (List.filter_congr fun l _ => by cases l.1 <;> rfl)
  | both => exact (List.filter_eq_self.mpr fun _ _ => rfl).symm

/-- **A push** adds its line, and may drop the oldest. -/
theorem linesOf_push (mode : StreamMode) (source : LineSource) (line : String) (b : OutputBuffer) :
    (b.push source line).linesOf mode <:+
      b.linesOf mode ++ if mode.shows source then [(source, line)] else [] := by
  obtain ⟨lost, hlines⟩ := exists_ringPush b.maxLines (source, line) b.lines
  have hkept : (b.lines.drop lost).filter (fun l => mode.shows l.1) <:+
      b.lines.filter fun l => mode.shows l.1 := (List.drop_suffix ..).filter _
  rw [linesOf_eq, linesOf_eq, lines_push, hlines, List.filter_append, List.filter_singleton,
    Bool.cond_eq_ite]
  exact List.suffix_append_self_iff.mpr hkept

end OutputBuffer

namespace App

theorem hotLines_bufferOutput (app : App) (process : String) (stream : Stream) (line name : String) :
    (app.bufferOutput process stream line).hotLines name <:+ app.hotLines name ++
      if process = name ∧ app.streamMode.shows stream.source then [(stream.source, line)] else [] := by
  by_cases hname : process = name
  · subst hname
    have hpushed := ((app.buffers process).getD (.new MAX_BUFFER_LINES)).linesOf_push app.streamMode
      stream.source line
    have hbefore : ((app.buffers process).getD (.new MAX_BUFFER_LINES)).linesOf app.streamMode =
        app.hotLines process := by
      rw [hotLines]
      cases app.buffers process with
      | none => cases app.streamMode <;> rfl
      | some buf => rfl
    simp only [true_and, ← hbefore]
    rw [bufferOutput, hotLines]
    simpa only [Function.update_self, Option.elim_some] using hpushed
  · have hsame : (app.bufferOutput process stream line).hotLines name = app.hotLines name := by
      rw [bufferOutput, hotLines]
      simp only [Function.update_of_ne (Ne.symm hname)]
      rfl
    simp [hname, hsame]

end App

/-- **A run of pushes** adds its lines to the hot ones, and may drop the oldest. -/
theorem hotLines_run {t t' : Tui} {ts : List (Transition Tui TuiEvent)}
    (hrun : (tui.guarded Pushing).Run t ts t') (name : String) :
    t'.app.hotLines name <:+ t.app.hotLines name ++ pushedLines name t.app.streamMode ts := by
  induction hrun with
  | refl =>
    rw [pushedLines, List.filterMap_nil, List.append_nil]
  | @snoc ts t₁ t₂ e hrun hstep ih =>
    obtain ⟨hstep, hpushing⟩ := hstep
    have hmode := (followed_run hrun).streamMode
    rw [pushedLines, List.filterMap_append, ← pushedLines, ← List.append_assoc]
    cases hstep with
    | @handle event names clocks =>
      cases event with
      | outputLine process stream line =>
        have hsame : (t₁.app.handle t₁.disk names clocks (.outputLine process stream line)).1.hotLines
            name = (t₁.app.bufferOutput process stream line).hotLines name := by
          have hreindexed := App.reindexed_pushOutput t₁.app t₁.disk (clocks process) process stream
            line
          rw [App.handle, App.hotLines, App.hotLines, hreindexed.buffers, hreindexed.streamMode]
        rw [hsame]
        refine (t₁.app.hotLines_bufferOutput process stream line name).trans ?_
        rw [hmode]
        refine (List.suffix_append_self_iff.mpr ih).trans ?_
        simp only [List.filterMap_cons, List.filterMap_nil]
        split_ifs <;> exact List.suffix_refl _
      | _ => cases hpushing
    | @draw height clock window app' hrunning hdrawn =>
      have hlooked := App.looked_draw hdrawn
      have hsame : app'.hotLines name = t₁.app.hotLines name := by
        rw [App.hotLines, hlooked.buffers, hlooked.streamMode]
        rfl
      rw [hsame]
      simpa using ih
    | write => simpa using ih

/-! ## The pane -/

section Pane

variable {t t' : Tui} {ts : List (Transition Tui TuiEvent)} {name : String} {height : ℕ}
  {clock clock' : Clock} {lines lines' : List (LineSource × String)}

/-- **Appended output keeps what is shown**, without a filter: the lines pushed are appended on disk,
and the hot buffer was the end of the disk history, drops nothing, or drops only what stands before
the window. -/
theorem retains_pushed (hrun : (tui.guarded Pushing).Run t ts t') (hfilter : t.app.filter = none)
    (happend : lines' = lines ++ pushedLines name t.app.streamMode ts)
    (hevict : t.app.hotLines name <:+ lines ∨
      t'.app.hotLines name = t.app.hotLines name ++ pushedLines name t.app.streamMode ts ∨
      lines.length - (t.app.hotLines name).length +
        (t.app.hotLines name ++ pushedLines name t.app.streamMode ts).length -
          (t'.app.hotLines name).length ≤
        (t.app.pane lines name).length - t.app.scrollOffset name - height) :
    Retains (t.app.scrollOffset name) height (t.app.pane lines name)
      (pushedLines name t.app.streamMode ts) (t'.app.pane lines' name) := by
  have hfollowed := followed_run hrun
  have hhot := hotLines_run hrun name
  have hlength := hhot.length_le
  rw [List.suffix_iff_eq_drop] at hhot
  rw [App.pane, App.pane, hfollowed.filter, hfilter, happend, hhot]
  refine retains_stitched (hevict.imp_right (Or.imp (fun hsame => ?_) fun hbefore => ?_))
  · rw [hsame, Nat.sub_self]
  · rw [App.pane, hfilter] at hbefore
    simp only at hbefore
    omega

/-- **Appended output keeps what is shown**, under a filter: the index points into the history. -/
theorem retains_matches (hrun : (tui.guarded Pushing).Run t ts t') {filter : String}
    (hfilter : t.app.filter = some filter) (happend : lines <+: lines')
    (hrange : ∀ n ∈ t.app.matchesOf name, n < lines.length) :
    ∃ added, Retains (t.app.scrollOffset name) height (t.app.pane lines name) added
      (t'.app.pane lines' name) := by
  have hfollowed := followed_run hrun
  obtain ⟨numbers, hnumbers⟩ := hfollowed.extended name
  obtain ⟨more, rfl⟩ := happend
  have hpane : ∃ added, t'.app.pane (lines ++ more) name = t.app.pane lines name ++ added := by
    rw [App.pane, App.pane, hfollowed.filter, hfilter, hfollowed.streamMode, ← hnumbers]
    cases hreader : t.app.diskReaders name with
    | none =>
      have hnone := hfollowed.readers name
      rw [hreader, Option.isSome_none, Option.isSome_eq_false_iff, Option.isNone_iff_eq_none] at hnone
      simp only [hnone]
      exact ⟨[], rfl⟩
    | some reader =>
      obtain ⟨reader', hreader'⟩ := Option.isSome_iff_exists.mp
        ((hfollowed.readers name).trans (hreader ▸ rfl))
      simp only [hreader', Option.elim_some, List.map_append]
      refine ⟨_, congrArg (· ++ _) (List.map_congr_left fun n hn => ?_)⟩
      rw [List.getElem?_append_left (hrange n hn)]
  obtain ⟨added, hadded⟩ := hpane
  exact ⟨added, hadded ▸ retains_append ..⟩

/-- What the pane of a process shows. -/
def App.shown (disk : Disk) (name : String) (height : ℕ) (clock : Clock) (app : App) :
    Except ReadError (List (LineSource × String)) :=
  (app.visibleLines disk name height clock).map (·.1)

theorem App.shown_eq {app : App} {disk : Disk}
    (hbuf : ∀ buf, app.buffers name = some buf → buf.Counted)
    (hdisk : app.DiskYields disk name clock lines) : app.shown disk name height clock =
      .ok (window (app.scrollOffset name) height (app.pane lines name)) := by
  obtain ⟨app', clock', hshown⟩ := App.visibleLines_eq_pane hbuf hdisk
  rw [App.shown, hshown]
  rfl

/-- **When a paused pane stays**: while output arrives that keeps what is shown, the pane shows the
same if and only if nothing is added to what it counts, it shows nothing, or it is full and what
stands `added.length` lines further on reads the same. -/
theorem frozen_iff {added : List (LineSource × String)} {offset : ℕ} (hreach : tui.Reachable t)
    (hrun : (tui.guarded Pushing).Run t ts t') (hpaused : t.app.paused)
    (hoffset : offset = (t.app.scrollOffsets name).getD 0)
    (hbefore : t.app.DiskYields t.disk name clock lines)
    (hafter : t'.app.DiskYields t'.disk name clock' lines')
    (hkept : Retains offset height (t.app.pane lines name) added (t'.app.pane lines' name)) :
    t'.app.shown t'.disk name height clock' = t.app.shown t.disk name height clock ↔
      added = [] ∨ height = 0 ∨ (t.app.pane lines name).length + added.length ≤ offset ∨
        offset + height ≤ (t.app.pane lines name).length ∧ ∀ i < height,
          (t.app.pane lines name ++ added)[(t.app.pane lines name).length - offset - height + i +
              added.length]? =
            (t.app.pane lines name)[(t.app.pane lines name).length - offset - height + i]? := by
  have hreach' := hreach.run hrun.of_guarded.1
  have hoffset' : t.app.scrollOffset name = offset := by
    rw [App.scrollOffset, if_pos hpaused, hoffset]
  rw [App.shown_eq (buffered_of_reachable hreach').counted hafter,
    App.shown_eq (buffered_of_reachable hreach).counted hbefore,
    (followed_run hrun).scrollOffset name, hoffset', ← hkept.window_eq_iff]
  exact ⟨Except.ok.inj, congrArg _⟩

end Pane

/-! ## A session -/

section Session

/-- `web` has printed `a` and exited. -/
def printedA : ProcessLogs :=
  ((webLogs.emit (.of "web" .stdout DEFAULT_MAX_LOG_BYTES DEFAULT_MAX_ROTATED_FILES) .stdout
    "a").finish .stdout).finish .stderr

theorem reachable_printedA : (processLogs "web" DEFAULT_MAX_LOG_BYTES DEFAULT_MAX_ROTATED_FILES
    (NoLogs "web")).Reachable printedA :=
  ((reachable_webLogs.step (@LogsStep.write _ _ _ _ .stdout "a" rfl rfl (by decide +kernel))).step
    (@LogsStep.finish _ _ _ _ .stdout rfl rfl)).step (@LogsStep.finish _ _ _ _ .stderr rfl rfl)

/-- `web` is started again, prints `b` and exits. -/
theorem reachable_respawnedB : (processLogs "web" DEFAULT_MAX_LOG_BYTES DEFAULT_MAX_ROTATED_FILES
    (NoLogs "web")).Reachable (respawned ["a"] ["b"]) :=
  ((reachable_printedA.step (.respawn fun s => by cases s <;> rfl)).step
    (@LogsStep.write _ _ _ _ .stdout "b" rfl rfl (by decide +kernel))).step
      (@LogsStep.finish _ _ _ _ .stdout rfl rfl)

/-- `a` is shown, and the pane is paused. -/
def pausedWeb : Tui :=
  (({ emptySession.turn [] reportWeb with disk := printedA.shared.disk } : Tui).turn ["web"]
    (.outputLine "web" .stdout "a")).turn ["web"] (.key ⟨.char ' ', false⟩)

theorem reachable_pausedWeb : tui.Reachable pausedWeb := by
  have hweb := reachable_turn (g := fun _ _ => True) reportWeb reachable_emptySession rfl
    enumerates_nil trivial
  have hwrite : (tui.guarded fun _ _ => True).step (emptySession.turn [] reportWeb)
      (.write printedA.shared.disk)
      { emptySession.turn [] reportWeb with disk := printedA.shared.disk } := ⟨.write, trivial⟩
  have ha := reachable_turn (.outputLine "web" .stdout "a") (hweb.step hwrite) rfl enumerates_web
    trivial
  exact (reachable_turn (.key ⟨.char ' ', false⟩) ha rfl enumerates_web trivial).of_guarded

/-- What the disk yields of `web` when only standard output has printed. -/
theorem diskYields_web {p : ProcessLogs} {out : List Printed} {app : App} {reader : DiskLogReader}
    {now : ℕ} (h : (processLogs "web" DEFAULT_MAX_LOG_BYTES DEFAULT_MAX_ROTATED_FILES
      (NoLogs "web")).Reachable p) (hout : p.written .stdout = out) (herr : p.written .stderr = [])
    (hfree : ∀ x ∈ out, NewlineFree x.entry.line) (hshown : p.shown "web" .stdout = out)
    (hnone : p.shown "web" .stderr = []) (hfits : FitsMemory out.length)
    (hmode : app.streamMode = .stdout) (hreader : app.diskReaders "web" = some reader)
    (hr : reader.process = "web") (hstale : reader.Stale now) :
    app.DiskYields p.shared.disk "web" (fun _ => now)
      (out.map fun x => (LineSource.stdout, x.entry.line)) := by
  have hyields := App.diskYields_of_reachable (by decide) h (fun s x hx => ?_)
    (by rw [hshown, hnone]; exact hfits) hreader hr hstale
  · rw [hmode, listed, hshown, List.map_map] at hyields
    exact hyields
  · cases s with
    | stdout => exact hfree x (hout ▸ hx)
    | stderr => exact absurd (herr ▸ hx) List.not_mem_nil

theorem diskYields_printedA {app : App} {reader : DiskLogReader} {now : ℕ}
    (hmode : app.streamMode = .stdout) (hreader : app.diskReaders "web" = some reader)
    (hr : reader.process = "web") (hstale : reader.Stale now) :
    app.DiskYields printedA.shared.disk "web" (fun _ => now) [(.stdout, "a")] := by
  have hout : printedA.written .stdout = [⟨0, "a", 0⟩] := by decide +kernel
  exact diskYields_web reachable_printedA hout (by decide +kernel) (by decide +kernel)
    (by decide +kernel) (by decide +kernel) (by decide) hmode hreader hr hstale

theorem diskYields_respawnedB {app : App} (hmode : app.streamMode = .stdout)
    (hreader : app.diskReaders "web" = some (.new "web")) :
    app.DiskYields (respawned ["a"] ["b"]).shared.disk "web" (fun _ => 0)
      [(.stdout, "a"), (.stdout, "b")] := by
  have hout : (respawned ["a"] ["b"]).written .stdout = [⟨0, "a", 0⟩, ⟨1, "b", 0⟩] := by
    decide +kernel
  exact diskYields_web reachable_respawnedB hout (by decide +kernel) (by decide +kernel)
    (by decide +kernel) (by decide +kernel) (by decide) hmode hreader rfl nofun

/-- The pane is paused, and `web` prints once more. -/
theorem pushing_pausedWeb (disk : Disk) (stream : Stream) (line : String) :
    (tui.guarded Pushing).Run pausedWeb
      ([] ++ [⟨pausedWeb, .write disk, { pausedWeb with disk }⟩] ++
        [⟨{ pausedWeb with disk }, .handle (.outputLine "web" stream line) ["web"] fun _ _ => 0,
          Tui.turn ["web"] { pausedWeb with disk } (.outputLine "web" stream line)⟩])
      (Tui.turn ["web"] { pausedWeb with disk } (.outputLine "web" stream line)) := by
  have henum : Enumerates ["web"] pausedWeb.app.diskReaders := enumerates_web
  have hwrite : (tui.guarded Pushing).step pausedWeb (.write disk) { pausedWeb with disk } :=
    ⟨.write, trivial⟩
  exact (Machine.Run.refl.snoc hwrite).snoc ⟨.handle rfl henum, trivial⟩

/-- Only standard error prints: the pane stays. -/
theorem frozen_iff_stderr : ∃ t' ts, (tui.guarded Pushing).Run pausedWeb ts t' ∧
    t'.app.shown t'.disk "web" 1 (fun _ => 0) =
      pausedWeb.app.shown pausedWeb.disk "web" 1 (fun _ => 0) := by
  have hrun := pushing_pausedWeb printedA.shared.disk .stderr "b"
  have hkept : Retains 0 1 (pausedWeb.app.pane [(.stdout, "a")] "web") []
      ((pausedWeb.turn ["web"] (.outputLine "web" .stderr "b")).app.pane [(.stdout, "a")] "web") :=
    retains_pushed hrun rfl rfl (.inl (List.suffix_refl _))
  exact ⟨_, _, hrun, (frozen_iff reachable_pausedWeb hrun rfl rfl
    (diskYields_printedA rfl rfl rfl nofun) (diskYields_printedA rfl rfl rfl nofun) hkept).mpr
      (.inl rfl)⟩

/-- **A paused pane moves**: `b` is pushed, and what was shown is gone. -/
theorem not_frozen : ∃ t t' ts, tui.Reachable t ∧ (tui.guarded Pushing).Run t ts t' ∧ t.app.paused ∧
    t.app.DiskYields t.disk "web" (fun _ => 0) [(.stdout, "a")] ∧
    t'.app.DiskYields t'.disk "web" (fun _ => 0)
      ([(.stdout, "a")] ++ pushedLines "web" .stdout ts) ∧
    t.app.shown t.disk "web" 1 (fun _ => 0) = .ok [(.stdout, "a")] ∧
    t'.app.shown t'.disk "web" 1 (fun _ => 0) = .ok [(.stdout, "b")] := by
  have hrun := pushing_pausedWeb (respawned ["a"] ["b"]).shared.disk .stdout "b"
  have hbefore : pausedWeb.app.DiskYields printedA.shared.disk "web" (fun _ => 0)
      [(.stdout, "a")] := diskYields_printedA rfl rfl rfl nofun
  have hafter : (Tui.turn ["web"] { pausedWeb with disk := (respawned ["a"] ["b"]).shared.disk }
      (.outputLine "web" .stdout "b")).app.DiskYields (respawned ["a"] ["b"]).shared.disk "web"
      (fun _ => 0) [(.stdout, "a"), (.stdout, "b")] := diskYields_respawnedB rfl rfl
  have hreach' := reachable_pausedWeb.run hrun.of_guarded.1
  refine ⟨pausedWeb, _, _, reachable_pausedWeb, hrun, rfl, hbefore, hafter, ?_, ?_⟩
  · exact App.shown_eq (buffered_of_reachable reachable_pausedWeb).counted hbefore
  · exact App.shown_eq (buffered_of_reachable hreach').counted hafter

end Session

end AgentProcs
