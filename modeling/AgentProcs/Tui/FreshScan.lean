import AgentProcs.Logs.Listing
import AgentProcs.Tui.FilterIndex

/-!
# Tui/FreshScan — a filter index and a scan of the same disk

    built      l₀ l₁* l₂        matches 1,   up to 3
    push       l₀ l₁* l₂ l₃*    from 3 on:   matches 1 3, up to 4      = a fresh scan
    push       l₁* l₂ l₃* l₄    from 4 on:   matches 1 3, up to 4      ≠ a fresh scan

The interface is watched together with the lines each index was last brought up to date with.  An
index stays equal to a fresh scan while, at each push, what was scanned before matches at the same
places as it did then.
-/

namespace AgentProcs

/-- The interface, and what each index was last brought up to date with. -/
structure Tracked where
  tui : Tui
  scanned : String → List String

/-- The lines a reader lists. -/
def DiskLogReader.lines (disk : Disk) (mode : StreamMode) (reader : DiskLogReader) : List String :=
  (reader.listing disk mode).map (·.2)

/-- The lines the reader of a process lists. -/
def App.linesOf (disk : Disk) (name : String) (app : App) : List String :=
  (app.diskReaders name).elim [] fun reader => reader.lines disk app.streamMode

/-- What the indices are up to date with after an event. -/
def Tracked.track (t : Tracked) (e : TuiEvent) (app' : App) : String → List String :=
  match e with
  | .handle event _ _ =>
    match t.tui.app.indexChange event with
    | .rebuild _ _ => fun name => app'.linesOf t.tui.disk name
    | .extend process => Function.update t.scanned process (app'.linesOf t.tui.disk process)
    | _ => t.scanned
  | _ => t.scanned

/-- The interface, watched. -/
def tracked : Machine Tracked TuiEvent where
  init t := tui.init t.tui ∧ t.scanned = fun _ => []
  step t e t' := tui.step t.tui e t'.tui ∧ t'.scanned = t.track e t'.tui.app

/-- **All looks of a step see the same segments**, and all their lines can be read. -/
structure Settles (disk : Disk) (mode : StreamMode) (clock : Clock) (reader : DiskLogReader) :
    Prop where
  sees : ClockedReader.Sees disk ((⟨reader, clock⟩ : ClockedReader).look disk).reader ⟨reader, clock⟩
  readable : ((⟨reader, clock⟩ : ClockedReader).look disk).reader.Readable disk mode

/-- What the first look of a step sees. -/
def App.seen (disk : Disk) (clock : Clock) (reader : DiskLogReader) : DiskLogReader :=
  ((⟨reader, clock⟩ : ClockedReader).look disk).reader

/-- **An orderly step**: what it scans is settled, and what is pushed goes to an index whose lines
still match where they did. -/
def Orderly (t : Tracked) : TuiEvent → Prop
  | .handle event _ clocks =>
    match t.tui.app.indexChange event with
    | .rebuild _ mode => ∀ name reader, t.tui.app.diskReaders name = some reader →
        Settles t.tui.disk mode (clocks name) reader
    | .extend process => ∀ reader, t.tui.app.diskReaders process = some reader →
        Settles t.tui.disk t.tui.app.streamMode (clocks process) reader ∧
        ∃ fi, t.tui.app.filteredIndices process = some fi ∧
          (t.scanned process).map (contains · fi.filter) <+:
            ((App.seen t.tui.disk (clocks process) reader).lines t.tui.disk
              t.tui.app.streamMode).map (contains · fi.filter)
    | _ => True
  | _ => True

/-- **An index is exact**: whoever sees the segments that the reader of the process holds, finds in
a fresh scan what is in the index. -/
structure Exact (disk : Disk) (mode : StreamMode) (filter : String) (reader : DiskLogReader)
    (fi : FilteredIndex) : Prop where
  sameFilter : fi.filter = filter
  sameMode : fi.streamMode = mode
  scan : ∀ r : ClockedReader, r.Sees disk reader →
    (r.scanMatchingLines disk filter mode).1 = fi.matchingLines
  total : ∀ r : ClockedReader, r.Sees disk reader → (r.total disk mode).1 = fi.scannedUpTo
  denotes : ∀ n, n ∈ fi.matchingLines ↔
    n < reader.total mode ∧ contains (reader.lineAt disk mode n).2 filter
  once : fi.matchingLines.Pairwise (· < ·)

/-- Under a filter, a process with a reader has an exact index. -/
def UpToDate (name : String) (t : Tui) : Prop :=
  ∀ filter reader, t.app.filter = some filter → t.app.diskReaders name = some reader →
    ∃ fi, t.app.filteredIndices name = some fi ∧
      Exact t.disk t.app.streamMode filter reader fi

/-! ## One index -/

section Index

variable {disk : Disk} {mode : StreamMode} {clock : Clock} {filter : String} {fi : FilteredIndex}
  {reader seen : DiskLogReader}

/-- What an index holds. -/
def FilteredIndex.held (fi : FilteredIndex) : List ℕ × ℕ := (fi.matchingLines, fi.scannedUpTo)

@[simp] theorem length_lines (disk : Disk) (mode : StreamMode) (reader : DiskLogReader) :
    (reader.lines disk mode).length = reader.total mode := by
  rw [DiskLogReader.lines, List.length_map, DiskLogReader.length_listing]

theorem lines_congr {reader' : DiskLogReader} (h : ∀ s, reader.segments s = reader'.segments s) :
    reader.lines disk mode = reader'.lines disk mode := by
  rw [DiskLogReader.lines, DiskLogReader.listing_congr h, DiskLogReader.lines]

/-- **Building** an index indexes the lines seen. -/
theorem held_indexFor (filter : String) (h : Settles disk mode clock reader) :
    (App.indexFor disk filter mode clock reader).1.held =
        indexOf (contains · filter) ((App.seen disk clock reader).lines disk mode) ∧
      ∀ s, (App.indexFor disk filter mode clock reader).2.segments s =
        (App.seen disk clock reader).segments s := by
  obtain ⟨hscan, hsettled⟩ :=
    ClockedReader.scanMatchingLinesFrom_eq filter h.readable 0 h.sees
  have hcounted := hsettled.sees.look
  refine ⟨Prod.ext hscan ?_, hcounted.segments⟩
  exact (hcounted.total mode).trans (length_lines disk mode _).symm

/-- **Extending** an index brings it up to date with the lines seen. -/
theorem held_extended (h : Settles disk fi.streamMode clock reader) :
    (App.extended disk clock fi reader).1.held =
        catchUp (contains · fi.filter) ((App.seen disk clock reader).lines disk fi.streamMode)
          fi.held ∧
      ∀ s, (App.extended disk clock fi reader).2.segments s =
        (App.seen disk clock reader).segments s := by
  have hlooked := h.sees.look
  have htotal : (ClockedReader.total disk fi.streamMode ⟨reader, clock⟩).1 =
      ((App.seen disk clock reader).lines disk fi.streamMode).length :=
    (hlooked.total _).trans (length_lines disk _ _).symm
  rw [App.extended, catchUp]
  simp only [htotal]
  split_ifs with hle hle' hle'
  · exact ⟨rfl, hlooked.segments⟩
  · exact absurd hle hle'
  · exact absurd hle' hle
  · obtain ⟨hscan, hsettled⟩ :=
      ClockedReader.scanMatchingLinesFrom_eq fi.filter h.readable fi.scannedUpTo
        hlooked.sees
    exact ⟨Prod.ext (congrArg (fi.matchingLines ++ ·) hscan) rfl, hsettled.segments⟩

/-- **An index of the lines a reader lists is exact.** -/
theorem exact_of_held (hread : reader.Readable disk mode) (hfilter : fi.filter = filter)
    (hmode : fi.streamMode = mode)
    (hheld : fi.held = indexOf (contains · filter) (reader.lines disk mode)) :
    Exact disk mode filter reader fi := by
  have hmatches : fi.matchingLines = (reader.lines disk mode).findIdxs (contains · filter) :=
    congrArg Prod.fst hheld
  have htotal : fi.scannedUpTo = (reader.lines disk mode).length := congrArg Prod.snd hheld
  refine ⟨hfilter, hmode, fun r hr => ?_, fun r hr => ?_, fun n => ?_, ?_⟩
  · rw [hmatches]
    exact (ClockedReader.scanMatchingLinesFrom_eq filter hread 0 hr).1
  · rw [htotal, length_lines]
    exact hr.look.total mode
  · rw [hmatches, List.mem_findIdxs_iff_exists_getElem_pos]
    simp only [DiskLogReader.lines, DiskLogReader.listing, List.getElem_map, List.getElem_range,
      List.length_map, List.length_range, exists_prop]
  · rw [hmatches]
    exact List.pairwise_findIdxs

end Index

/-! ## Every run -/

section Run

variable {t t' : Tracked} {e : TuiEvent}

/-- **The invariant**: each index is that of the lines it was last brought up to date with, under the
filter and mode in effect, and belongs to a process with a reader. -/
def Tracks (t : Tracked) : Prop :=
  ∀ name fi, t.tui.app.filteredIndices name = some fi →
    t.tui.app.filter = some fi.filter ∧ fi.streamMode = t.tui.app.streamMode ∧
      (t.tui.app.diskReaders name).isSome ∧
      fi.held = indexOf (contains · fi.filter) (t.scanned name)

theorem Tracks.keep {app : App} {disk : Disk} (h : Tracks t) (hsame : SameIndices t.tui.app app) :
    Tracks ⟨⟨app, disk⟩, t.scanned⟩ := by
  intro name fi hfi
  obtain ⟨hfilter, hmode, hreader, hheld⟩ := h name fi (hsame.filteredIndices ▸ hfi)
  exact ⟨hsame.filter.trans hfilter, hmode.trans (hsame.streamMode (hfilter ▸ rfl)).symm,
    (hsame.readers name).trans hreader, hheld⟩

/-- **A rebuild** indexes what every reader lists. -/
theorem Tracks.rebuild {base : App} {disk : Disk} {filter : String} {names : List String}
    {clocks : String → Clock} (hfilter : base.filter = some filter)
    (hnames : Enumerates names base.diskReaders)
    (howned : ∀ name fi, base.filteredIndices name = some fi → (base.diskReaders name).isSome)
    (hsettles : ∀ name reader, base.diskReaders name = some reader →
      Settles disk base.streamMode (clocks name) reader) :
    Tracks ⟨⟨base.buildFilteredIndices disk names clocks, disk⟩,
      fun name => (base.buildFilteredIndices disk names clocks).linesOf disk name⟩ := by
  have heq := App.buildFilteredIndices_eq disk clocks hfilter hnames.1
    fun name hname => (hnames.2 name).mp hname
  intro name fi hfi
  have hname : name ∈ names := by
    by_contra hnot
    rw [heq] at hfi
    simp only [hnot, if_false] at hfi
    exact hnot ((hnames.2 name).mpr (howned name fi hfi))
  obtain ⟨reader, hreader⟩ := Option.isSome_iff_exists.mp ((hnames.2 name).mp hname)
  obtain ⟨hheld, hsegments⟩ := held_indexFor filter (hsettles name reader hreader)
  have hreader' : (base.buildFilteredIndices disk names clocks).diskReaders name =
      some (App.indexFor disk filter base.streamMode (clocks name) reader).2 := by
    rw [heq]
    simp only [hname, if_true, hreader, Option.map_some]
  have hmode : (base.buildFilteredIndices disk names clocks).streamMode = base.streamMode := by
    rw [heq]
  obtain rfl : (App.indexFor disk filter base.streamMode (clocks name) reader).1 = fi := by
    rw [heq] at hfi
    simpa only [hname, if_true, hreader, Option.map_some, Option.some.injEq] using hfi
  refine ⟨heq ▸ hfilter, hmode.symm, hreader' ▸ rfl, ?_⟩
  simp only [App.linesOf, hreader', Option.elim_some, hmode, lines_congr hsegments]
  exact hheld

/-- **A push** keeps the invariant, if what was scanned before still matches where it did. -/
theorem Tracks.extend {process : String} {clock : Clock} {reader : DiskLogReader} {fi : FilteredIndex}
    (h : Tracks t) (hfi : t.tui.app.filteredIndices process = some fi)
    (hreader : t.tui.app.diskReaders process = some reader)
    (hsettles : Settles t.tui.disk t.tui.app.streamMode clock reader)
    (hmatches : (t.scanned process).map (contains · fi.filter) <+:
      ((App.seen t.tui.disk clock reader).lines t.tui.disk t.tui.app.streamMode).map
        (contains · fi.filter)) :
    let app' := t.tui.app.updateFilteredIndex t.tui.disk process clock
    Tracks ⟨⟨app', t.tui.disk⟩,
      Function.update t.scanned process (app'.linesOf t.tui.disk process)⟩ := by
  intro app' name fi' hfi'
  have heq : app' = _ := App.updateFilteredIndex_eq t.tui.disk clock hfi hreader
  obtain ⟨hfilter, hmode, hsome, hheld⟩ := h process fi hfi
  by_cases hname : name = process
  · subst hname
    rw [← hmode] at hsettles hmatches
    obtain ⟨hextended, hsegments⟩ := held_extended hsettles
    rw [hheld, catchUp_indexOf_iff.mpr hmatches] at hextended
    have hkept := App.extended_kept t.tui.disk clock fi reader
    obtain rfl : (App.extended t.tui.disk clock fi reader).1 = fi' := by
      rw [heq] at hfi'
      simpa only [Function.update_self, Option.some.injEq] using hfi'
    have hreader' : app'.diskReaders name =
        some (App.extended t.tui.disk clock fi reader).2 := by
      rw [heq]
      exact Function.update_self ..
    have hmode' : app'.streamMode = fi.streamMode := by
      rw [heq]
      exact hmode.symm
    refine ⟨?_, hkept.2.trans hmode'.symm, hreader' ▸ rfl, ?_⟩
    · rw [hkept.1, heq]
      exact hfilter
    · simp only [Function.update_self, App.linesOf, hreader', Option.elim_some, hmode',
        lines_congr hsegments, hkept.1]
      exact hextended
  · rw [heq] at hfi' ⊢
    simp only [Function.update_of_ne hname] at hfi' ⊢
    exact h name fi' hfi'

/-- **One step** keeps the invariant. -/
theorem Tracks.step (h : Tracks t) (hstep : tracked.step t e t') (horderly : Orderly t e) :
    Tracks t' := by
  obtain ⟨⟨app, disk⟩, scanned⟩ := t
  obtain ⟨tui', scanned'⟩ := t'
  obtain ⟨hstep, htrack⟩ := hstep
  simp only at hstep htrack
  subst htrack
  cases hstep with
  | @handle event names clocks hrunning hnames =>
    have heffect := App.effect_handle app disk names clocks event
    revert heffect
    simp only [Tracked.track, Orderly] at horderly ⊢
    generalize (app.handle disk names clocks event).1 = app'
    cases hchange : app.indexChange event with
    | keep => exact fun hsame => h.keep hsame
    | drop =>
      rintro ⟨-, hindices, -⟩ name fi hfi
      exact absurd ((hindices name).symm.trans hfi) nofun
    | rebuild filter mode =>
      rintro ⟨base, hfilter, hmode, hindices, hreaders, rfl⟩
      rw [hchange] at horderly
      refine Tracks.rebuild hfilter (hreaders ▸ hnames) (fun name fi hfi => ?_)
        fun name reader hreader => ?_
      · rw [hreaders]
        exact (h name fi (hindices ▸ hfi)).2.2.1
      · rw [hmode]
        exact horderly name reader (hreaders ▸ hreader)
    | extend process =>
      rintro ⟨base, hfilter, hmode, hindices, hreaders, rfl⟩
      rw [hchange] at horderly
      have hbase : Tracks ⟨⟨base, disk⟩, scanned⟩ :=
        h.keep ⟨hfilter, hindices, fun name => by rw [hreaders], fun _ => hmode⟩
      cases hreader : app.diskReaders process with
      | none =>
        rw [App.updateFilteredIndex_of_none (.inr (hreaders ▸ hreader))]
        intro name fi hfi
        obtain ⟨hf, hm, hsome, hheld⟩ := hbase name fi hfi
        have hname : name ≠ process := by
          rintro rfl
          rw [hreaders, hreader] at hsome
          cases hsome
        simp only [Function.update_of_ne hname]
        exact ⟨hf, hm, hsome, hheld⟩
      | some reader =>
        obtain ⟨hsettles, fi, hfi, hmatches⟩ := horderly reader hreader
        exact hbase.extend (hindices ▸ hfi) (hreaders ▸ hreader) (hmode ▸ hsettles)
          (hmode ▸ hmatches)
    | meet processes =>
      rintro ⟨hfilter, hmode, hindices, hreaders⟩ name fi hfi
      obtain ⟨hf, hm, hsome, hheld⟩ := h name fi (hindices ▸ hfi)
      refine ⟨hfilter.trans hf, hm.trans hmode.symm, ?_, hheld⟩
      rw [hreaders, App.addReaders_diskReaders, Option.isSome_or, hsome, Bool.true_or]
  | draw hrunning hdrawn =>
    have hlooked := (App.looked_draw hdrawn).sameIndices
    exact h.keep ⟨hlooked.filter, hlooked.filteredIndices, hlooked.readers, hlooked.streamMode⟩
  | write => exact h.keep (.refl app)

/-- **After an orderly push the index is exact.** -/
theorem upToDate_of_push (h : Tracks t) {process line : String} {stream : Stream}
    {names : List String} {clocks : String → Clock}
    (hstep : tracked.step t (.handle (.outputLine process stream line) names clocks) t')
    (horderly : Orderly t (.handle (.outputLine process stream line) names clocks)) :
    UpToDate process t'.tui := by
  have htracks := h.step hstep horderly
  obtain ⟨⟨app, disk⟩, scanned⟩ := t
  obtain ⟨tui', scanned'⟩ := t'
  obtain ⟨hstep, htrack⟩ := hstep
  simp only at hstep htrack
  subst htrack
  cases hstep with
  | handle hrunning hnames =>
    intro filter reader' hfilter hreader'
    have heffect := App.effect_handle app disk names clocks (.outputLine process stream line)
    simp only [Tracked.track, Orderly] at horderly htracks
    simp only at hfilter hreader' ⊢
    generalize (app.handle disk names clocks (.outputLine process stream line)).1 = app' at *
    cases hactive : app.filter with
    | none =>
      have hchange : app.indexChange (.outputLine process stream line) = .keep := by
        rw [App.indexChange, hactive]
        rfl
      rw [hchange] at heffect
      have hnone := heffect.filter
      rw [hactive, hfilter] at hnone
      cases hnone
    | some filter' =>
      have hchange : app.indexChange (.outputLine process stream line) = .extend process := by
        rw [App.indexChange, hactive]
        rfl
      rw [hchange] at heffect horderly htracks
      obtain ⟨base, -, hmode, hindices, hreaders, rfl⟩ := heffect
      cases hreader : app.diskReaders process with
      | none =>
        rw [App.updateFilteredIndex_of_none (.inr (hreaders ▸ hreader)), hreaders, hreader]
          at hreader'
        cases hreader'
      | some reader =>
        obtain ⟨hsettles, fi, hfi, -⟩ := horderly reader hreader
        have heq := App.updateFilteredIndex_eq disk (clocks process)
          (hindices.symm ▸ hfi : base.filteredIndices process = some fi)
          (hreaders.symm ▸ hreader : base.diskReaders process = some reader)
        have hfi' : (base.updateFilteredIndex disk process (clocks process)).filteredIndices process =
            some (App.extended disk (clocks process) fi reader).1 := by
          rw [heq]
          exact Function.update_self ..
        obtain ⟨hf, hm, -, hheld⟩ := htracks process _ hfi'
        have hmode' : (base.updateFilteredIndex disk process (clocks process)).streamMode =
            app.streamMode := by
          rw [heq]
          exact hmode
        have hsame : ∀ s, (App.seen disk (clocks process) reader).segments s =
            reader'.segments s := by
          have hfiMode : app.streamMode = fi.streamMode := (h process fi hfi).2.1.symm
          obtain ⟨-, hsegments⟩ := held_extended (hfiMode ▸ hsettles)
          rw [heq] at hreader'
          obtain rfl : (App.extended disk (clocks process) fi reader).2 = reader' := by
            simpa only [Function.update_self, Option.some.injEq] using hreader'
          exact fun s => (hsegments s).symm
        have hf' := Option.some.inj (hf.symm.trans hfilter)
        refine ⟨_, hfi', exact_of_held ?_ hf' hm ?_⟩
        · rw [hmode']
          exact hsettles.readable.congr hsame
        · rw [hheld, hf']
          simp only [Function.update_self, App.linesOf, hreader', Option.elim_some]

/-- **After every push the index is a fresh scan**, in every run of orderly steps. -/
theorem upToDate_of_orderly {ts : List (Transition Tracked TuiEvent)} {t₀ : Tracked}
    (hinit : tracked.init t₀) (hrun : (tracked.guarded Orderly).Run t₀ ts t) :
    ∀ τ ∈ ts, ∀ process stream line names clocks,
      τ.ev = .handle (.outputLine process stream line) names clocks → UpToDate process τ.dst.tui := by
  intro τ hτ process stream line names clocks hev
  obtain ⟨hstep, us, hrun'⟩ := hrun.step_of_mem hτ
  have htracks : Tracks τ.src := by
    have hreach : (tracked.guarded Orderly).Reachable τ.src := ⟨t₀, us, hinit, hrun'⟩
    refine hreach.invariant (fun s hs => ?_) fun s e s' _ hs hstep => hs.step hstep.1 hstep.2
    obtain ⟨diskReaders, buffers, happ⟩ := exists_of_init hs.1
    intro name fi hfi
    rw [happ] at hfi
    cases hfi
  rw [hev] at hstep
  exact upToDate_of_push htracks hstep.1 hstep.2

end Run

/-! ## Over the logs of a process -/

section Captured

variable {name : String} {maxBytes : ℕ} {p : ProcessLogs} {reader : DiskLogReader} {now : ℕ}

/-- **A reader that probes captured logs settles**, and sees what is listed of them. -/
theorem settles_of_reachable (hdot : name ≠ ".")
    (h : (processLogs name maxBytes DEFAULT_MAX_ROTATED_FILES (NoLogs name)).Reachable p)
    (hfree : ∀ s, ∀ x ∈ p.written s, NewlineFree x.entry.line)
    (hfits : FitsMemory ((p.shown name .stdout).length + (p.shown name .stderr).length))
    (hr : reader.process = name) (hstale : reader.Stale now) (mode : StreamMode) :
    Settles p.shared.disk mode (fun _ => now) reader ∧
      (App.seen p.shared.disk (fun _ => now) reader).lines p.shared.disk mode =
        (listed (p.shown name) mode).map (·.2.entry.line) := by
  have hyields := yields_of_reachable hdot h hfree hfits hr hstale mode
  refine ⟨⟨ClockedReader.sees_moment now _ reader, hyields.readable⟩, ?_⟩
  rw [App.seen, ClockedReader.look_moment, DiskLogReader.lines]
  exact (congrArg (List.map _) hyields.listing).trans List.map_map

/-- Standard error of `web` prints `b`, standard output `a`; only the latter is indexed so far. -/
def lateStderr : ProcessLogs :=
  ((webLogs.emit (.of "web" .stderr DEFAULT_MAX_LOG_BYTES DEFAULT_MAX_ROTATED_FILES) .stderr "b").emit
    (.of "web" .stdout DEFAULT_MAX_LOG_BYTES DEFAULT_MAX_ROTATED_FILES) .stdout "a").finish .stdout

theorem reachable_lateStderr : (processLogs "web" DEFAULT_MAX_LOG_BYTES DEFAULT_MAX_ROTATED_FILES
    (NoLogs "web")).Reachable lateStderr :=
  ((reachable_webLogs.step
    (@LogsStep.write _ _ _ _ .stderr "b" rfl rfl (by decide +kernel))).step
      (@LogsStep.write _ _ _ _ .stdout "a" rfl rfl (by decide +kernel))).step
        (@LogsStep.finish _ _ _ _ .stdout rfl rfl)

theorem reachable_lateStderr_finish : (processLogs "web" DEFAULT_MAX_LOG_BYTES
    DEFAULT_MAX_ROTATED_FILES (NoLogs "web")).Reachable (lateStderr.finish .stderr) :=
  reachable_lateStderr.step (@LogsStep.finish _ _ _ _ .stderr rfl rfl)

theorem lateStderr_newlineFree : ∀ s, ∀ x ∈ lateStderr.written s, NewlineFree x.entry.line := by
  intro s
  cases s with
  | stdout =>
    have hout : lateStderr.written .stdout = [⟨0, "a", 1⟩] := by decide +kernel
    rw [hout]
    decide +kernel
  | stderr =>
    have herr : lateStderr.written .stderr = [⟨0, "b", 0⟩] := by decide +kernel
    rw [herr]
    decide +kernel

/-- `web` yields nothing before it prints. -/
theorem settles_webLogs : Settles webLogs.shared.disk .stdout (fun _ => 0) (.new "web") ∧
    (App.seen webLogs.shared.disk (fun _ => 0) (.new "web")).lines webLogs.shared.disk .stdout =
      [] := by
  have hshown : ∀ source, webLogs.shown "web" source = [] := fun source => by
    cases source <;> decide +kernel
  obtain ⟨hsettles, hlines⟩ := settles_of_reachable (by decide) reachable_webLogs
    (fun s x hx => nomatch hx) (by rw [hshown, hshown]; decide) rfl
    (nofun : (DiskLogReader.new "web").Stale 0) .stdout
  refine ⟨hsettles, hlines.trans ?_⟩
  rw [listed, hshown]
  rfl

/-- What `web` yields before and after standard error is indexed. -/
theorem settles_lateStderr (mode : StreamMode) {reader : DiskLogReader} {now : ℕ}
    (hr : reader.process = "web") (hstale : reader.Stale now) :
    Settles lateStderr.shared.disk mode (fun _ => now) reader ∧
      (App.seen lateStderr.shared.disk (fun _ => now) reader).lines lateStderr.shared.disk mode =
        if mode = .stderr then [] else ["a"] := by
  have hout : lateStderr.shown "web" .stdout = [⟨0, "a", 1⟩] := by decide +kernel
  have herr : lateStderr.shown "web" .stderr = [] := by decide +kernel
  obtain ⟨hsettles, hlines⟩ := settles_of_reachable (by decide) reachable_lateStderr
    lateStderr_newlineFree (by rw [hout, herr]; decide) hr hstale mode
  refine ⟨hsettles, hlines.trans ?_⟩
  cases mode <;> simp [listed, interleaved, hout, herr]

theorem settles_lateStderr_finish {reader : DiskLogReader} {now : ℕ}
    (hr : reader.process = "web") (hstale : reader.Stale now) :
    Settles (lateStderr.finish .stderr).shared.disk .both (fun _ => now) reader ∧
      (App.seen (lateStderr.finish .stderr).shared.disk (fun _ => now) reader).lines
        (lateStderr.finish .stderr).shared.disk .both = ["b", "a"] := by
  have hout : (lateStderr.finish .stderr).shown "web" .stdout = [⟨0, "a", 1⟩] := by decide +kernel
  have herr : (lateStderr.finish .stderr).shown "web" .stderr = [⟨0, "b", 0⟩] := by decide +kernel
  obtain ⟨hsettles, hlines⟩ := settles_of_reachable (by decide) reachable_lateStderr_finish
    lateStderr_newlineFree (by rw [hout, herr]; decide) hr hstale .both
  refine ⟨hsettles, hlines.trans ?_⟩
  simp [listed, interleaved, hout, herr, List.mergeSort]

/-! ### A run -/

/-- `web` is known to the interface, and its logs are on this disk. -/
def webSession (disk : Disk) : Tui := { emptySession.turn [] reportWeb with disk }

theorem reachable_webSession {g : Tui → TuiEvent → Prop} (disk : Disk)
    (hreport : g emptySession (.handle reportWeb [] fun _ _ => 0))
    (hwrite : g (emptySession.turn [] reportWeb) (.write disk)) :
    (tui.guarded g).Reachable (webSession disk) := by
  have hweb := reachable_turn (g := g) reportWeb reachable_emptySession rfl enumerates_nil hreport
  have hstep : (tui.guarded g).step (emptySession.turn [] reportWeb) (.write disk)
      (webSession disk) := ⟨.write, hwrite⟩
  exact hweb.step hstep

/-- The filter `a` is typed and not yet confirmed. -/
def typedA (t : Tui) : Tui :=
  (t.turn ["web"] (.key ⟨.char '/', false⟩)).turn ["web"] (.key ⟨.char 'a', false⟩)

/-- **Confirming** `a` when only `web` has a reader. -/
theorem confirm_web (app : App) (disk : Disk) {reader : DiskLogReader}
    (hmode : app.inputMode = .filterInput) (hbuf : app.filterBuf = "a")
    (hreader : app.diskReaders "web" = some reader) :
    (app.handle disk ["web"] (fun _ _ => 0) (.key ⟨.enter, false⟩)).1 =
      { app with
        inputMode := .normal
        filter := some "a"
        diskReaders := Function.update app.diskReaders "web" (some (reader.refresh 0 disk))
        filteredIndices := Function.update app.filteredIndices "web"
          (some (App.indexFor disk "a" app.streamMode (fun _ => 0) reader).1) } := by
  have hrest : (App.indexFor disk "a" app.streamMode (fun _ => 0) reader).2 =
      reader.refresh 0 disk := by
    rw [App.indexFor]
    simp only [ClockedReader.total, ClockedReader.scanMatchingLines,
      ClockedReader.scanMatchingLinesFrom_moment, ClockedReader.look_rested]
    rfl
  set base : App := { app with inputMode := .normal, filter := some "a" } with hbase
  have hbuild := @App.buildFilteredIndex_eq base disk "web" "a" (fun _ => 0) reader rfl hreader
  have hhandle : (app.handle disk ["web"] (fun _ _ => 0) (.key ⟨.enter, false⟩)).1 =
      base.buildFilteredIndex disk "web" fun _ => 0 := by
    have hne : app.filterBuf ≠ "" := by
      rw [hbuf]
      decide
    simp only [App.handle, App.handleKey, hmode, handleFilterKey, App.handleFilterAction,
      App.confirmFilter, if_neg hne]
    rw [hbase, ← hbuf]
    rfl
  rw [hhandle, hbuild]
  simp only [hbase, hrest]

theorem Enumerates.update {α : Type} {names : List String} {map : String → Option α} {name : String}
    {a b : α} (h : Enumerates names map) (ha : map name = some a) :
    Enumerates names (Function.update map name (some b)) := by
  refine ⟨h.1, fun name' => ?_⟩
  by_cases hname : name' = name
  · subst hname
    rw [h.2, ha, Function.update_self]
    rfl
  · rw [h.2, Function.update_of_ne hname]

/-- The reader of `web` is new until it is asked. -/
theorem webSession_reader (disk : Disk) :
    (webSession disk).app.diskReaders "web" = some (.new "web") := by
  rw [webSession]
  rfl

/-- The reader of `web` after its first look. -/
def lookedReader (disk : Disk) : DiskLogReader := (DiskLogReader.new "web").refresh 0 disk

theorem lookedReader_process (disk : Disk) : (lookedReader disk).process = "web" := rfl

theorem stale_lookedReader (disk : Disk) : (lookedReader disk).Stale 1000 := by
  intro c hc
  obtain rfl := Option.some.inj hc
  exact (by decide : SEGMENT_CACHE_TTL_MS < 1000 - 0)

/-- What a push of `web` does, a second after the index was built. -/
theorem push_web {app : App} {disk disk' : Disk} {fi : FilteredIndex} {stream : Stream} {line : String}
    (hfilter : app.filter = some "a") (hfi : app.filteredIndices "web" = some fi)
    (hreader : app.diskReaders "web" = some (lookedReader disk)) :
    (app.handle disk' ["web"] (fun _ _ => 1000) (.outputLine "web" stream line)).1 =
      { app.bufferOutput "web" stream line with
        diskReaders := Function.update app.diskReaders "web"
          (some (App.extended disk' (fun _ => 1000) fi (lookedReader disk)).2)
        filteredIndices := Function.update app.filteredIndices "web"
          (some (App.extended disk' (fun _ => 1000) fi (lookedReader disk)).1) } := by
  have hactive : (app.bufferOutput "web" stream line).filter.isSome := by
    rw [App.bufferOutput, hfilter]
    rfl
  rw [App.handle, App.pushOutput]
  simp only [hactive, if_true]
  exact App.updateFilteredIndex_eq disk' (fun _ => 1000) hfi hreader

theorem lineAt_of_lines {disk : Disk} {mode : StreamMode} {reader : DiskLogReader} {n : ℕ}
    {line : String} (h : (reader.lines disk mode)[n]? = some line) :
    (reader.lineAt disk mode n).2 = line := by
  obtain ⟨hn, rfl⟩ := List.getElem?_eq_some_iff.mp h
  simp only [DiskLogReader.lines, DiskLogReader.listing, List.getElem_map, List.getElem_range]

/-- **A record that comes in late**: the index says line 0, which is now `b`. -/
theorem not_upToDate_of_late {app : App} {disk disk' : Disk} (fi : FilteredIndex)
    (hfilter : app.filter = some "a") (hmode : app.streamMode = .both)
    (hfi : app.filteredIndices "web" = some fi) (hfiFilter : fi.filter = "a")
    (hfiMode : fi.streamMode = .both) (hheld : fi.held = ([0], 1))
    (hreader : app.diskReaders "web" = some (lookedReader disk))
    (hsettles : Settles disk' .both (fun _ => 1000) (lookedReader disk))
    (hlines : (App.seen disk' (fun _ => 1000) (lookedReader disk)).lines disk' .both = ["b", "a"]) :
    ¬UpToDate "web"
      ⟨(app.handle disk' ["web"] (fun _ _ => 1000) (.outputLine "web" .stderr "b")).1, disk'⟩ := by
  intro hfresh
  obtain ⟨hheld', hsegments⟩ := held_extended (hfiMode ▸ hsettles)
  rw [hfiMode, hlines, hheld, hfiFilter] at hheld'
  rw [push_web hfilter hfi hreader] at hfresh
  obtain ⟨fi', hfi', hexact⟩ := hfresh "a"
    (App.extended disk' (fun _ => 1000) fi (lookedReader disk)).2 hfilter
    (by simp only [Function.update_self])
  obtain rfl : (App.extended disk' (fun _ => 1000) fi (lookedReader disk)).1 = fi' := by
    simpa only [Function.update_self, Option.some.injEq] using hfi'
  have hzero : 0 ∈ (App.extended disk' (fun _ => 1000) fi (lookedReader disk)).1.matchingLines := by
    have hmatches : (App.extended disk' (fun _ => 1000) fi (lookedReader disk)).1.matchingLines =
        (catchUp (contains · "a") ["b", "a"] ([0], 1)).1 := congrArg Prod.fst hheld'
    rw [hmatches]
    decide +kernel
  obtain ⟨-, hcontains⟩ := (hexact.denotes 0).mp hzero
  have hline : (DiskLogReader.lineAt disk' .both
      (App.extended disk' (fun _ => 1000) fi (lookedReader disk)).2 0).2 = "b" := by
    refine lineAt_of_lines ?_
    rw [lines_congr hsegments, hlines]
    rfl
  have hb : contains "b" "a" = true := by
    rw [← hline]
    exact hmode ▸ hcontains
  revert hb
  decide +kernel

/-- A turn of the loop, watched. -/
def Tracked.turn (names : List String) (t : Tracked) (event : AppEvent) : Tracked :=
  ⟨t.tui.turn names event, t.track (.handle event names fun _ _ => 0) (t.tui.turn names event).app⟩

theorem run_turn {t₀ t : Tracked} {ts : List (Transition Tracked TuiEvent)} {names : List String}
    (event : AppEvent) (h : (tracked.guarded Orderly).Run t₀ ts t) (hrunning : t.tui.app.running)
    (hnames : Enumerates names t.tui.app.diskReaders)
    (hguard : Orderly t (.handle event names fun _ _ => 0)) :
    (tracked.guarded Orderly).Run t₀
      (ts ++ [⟨t, .handle event names fun _ _ => 0, t.turn names event⟩]) (t.turn names event) :=
  h.snoc ⟨⟨.handle hrunning hnames, rfl⟩, hguard⟩

/-- Only `web` has a reader. -/
theorem webSession_readers (disk : Disk) {name : String} {reader : DiskLogReader}
    (h : (webSession disk).app.diskReaders name = some reader) : name = "web" ∧ reader = .new "web" := by
  have hname : name ∈ ["web"] := (enumerates_web.2 name).mpr (h ▸ rfl)
  obtain rfl := List.mem_singleton.mp hname
  exact ⟨rfl, (Option.some.inj ((webSession_reader disk).symm.trans h)).symm⟩

/-- **The index grows with the log**: the filter is set before standard output is indexed. -/
theorem upToDate_of_orderly_grown : ∃ t : Tui, t.disk = lateStderr.shared.disk ∧
    t.app.filter = some "a" ∧ UpToDate "web" t := by
  obtain ⟨hempty, hemptyLines⟩ := settles_webLogs
  let t₀ : Tracked := ⟨emptySession, fun _ => []⟩
  have hinit : tracked.init t₀ :=
    ⟨⟨[], ⟨List.nodup_nil, fun name => by simp [t₀, emptySession, FileSystem.empty]⟩, rfl⟩, rfl⟩
  have hreport := run_turn reportWeb (.refl : (tracked.guarded Orderly).Run t₀ [] t₀) rfl
    enumerates_nil trivial
  have hwrite : (tracked.guarded Orderly).step (Tracked.turn [] t₀ reportWeb)
      (.write webLogs.shared.disk) ⟨webSession webLogs.shared.disk, fun _ => []⟩ :=
    ⟨⟨.write, rfl⟩, trivial⟩
  have henum : Enumerates ["web"] (webSession webLogs.shared.disk).app.diskReaders := enumerates_web
  have hslash := run_turn (.key ⟨.char '/', false⟩) (hreport.snoc hwrite) rfl henum trivial
  have ha := run_turn (.key ⟨.char 'a', false⟩) hslash rfl henum trivial
  let app := (typedA (webSession webLogs.shared.disk)).app
  let app' := (app.handle webLogs.shared.disk ["web"] (fun _ _ => 0) (.key ⟨.enter, false⟩)).1
  have hconfirm : app' = _ := confirm_web app webLogs.shared.disk rfl (by decide +kernel)
    (webSession_reader webLogs.shared.disk)
  have henter : (tracked.guarded Orderly).step ⟨⟨app, webLogs.shared.disk⟩, fun _ => []⟩
      (.handle (.key ⟨.enter, false⟩) ["web"] fun _ _ => 0)
      ⟨⟨app', webLogs.shared.disk⟩, fun name => app'.linesOf webLogs.shared.disk name⟩ := by
    refine ⟨⟨.handle rfl henum, rfl⟩, fun name reader hreader => ?_⟩
    obtain ⟨rfl, rfl⟩ := webSession_readers webLogs.shared.disk hreader
    exact hempty
  have hflush : (tracked.guarded Orderly).step
      ⟨⟨app', webLogs.shared.disk⟩, fun name => app'.linesOf webLogs.shared.disk name⟩
      (.write lateStderr.shared.disk)
      ⟨⟨app', lateStderr.shared.disk⟩, fun name => app'.linesOf webLogs.shared.disk name⟩ :=
    ⟨⟨.write, rfl⟩, trivial⟩
  have hreader : app'.diskReaders "web" = some (lookedReader webLogs.shared.disk) := by
    rw [hconfirm]
    simp only [Function.update_self]
    rfl
  have hfilter : app'.filter = some "a" := by rw [hconfirm]
  have hmode : app'.streamMode = .stdout := by
    rw [hconfirm]
    rfl
  have hfi : app'.filteredIndices "web" =
      some (App.indexFor webLogs.shared.disk "a" app.streamMode (fun _ => 0) (.new "web")).1 := by
    rw [hconfirm]
    simp only [Function.update_self]
  let t₁ : Tracked :=
    ⟨⟨app', lateStderr.shared.disk⟩, fun name => app'.linesOf webLogs.shared.disk name⟩
  let push : TuiEvent := .handle (.outputLine "web" .stdout "a") ["web"] fun _ _ => 1000
  let t₂ : Tui := ⟨(app'.handle lateStderr.shared.disk ["web"] (fun _ _ => 1000)
    (.outputLine "web" .stdout "a")).1, lateStderr.shared.disk⟩
  have hpush : (tracked.guarded Orderly).step t₁ push ⟨t₂, t₁.track push t₂.app⟩ := by
    have hrunning : app'.running = true := by
      rw [hconfirm]
      rfl
    have henum' : Enumerates ["web"] app'.diskReaders := by
      rw [hconfirm]
      exact henum.update (webSession_reader webLogs.shared.disk)
    refine ⟨⟨.handle hrunning henum', rfl⟩, ?_⟩
    have hchange : app'.indexChange (.outputLine "web" .stdout "a") = .extend "web" := by
      rw [App.indexChange, hfilter]
      rfl
    simp only [Orderly, push, t₁, hchange]
    intro reader hreader'
    obtain rfl := Option.some.inj (hreader.symm.trans hreader')
    refine ⟨(settles_lateStderr _ (lookedReader_process _) (stale_lookedReader _)).1, _, hfi, ?_⟩
    have hnone : app'.linesOf webLogs.shared.disk "web" = [] := by
      rw [App.linesOf, hreader, Option.elim_some, hmode]
      exact hemptyLines
    rw [hnone]
    exact List.nil_prefix
  have hfilter' : t₂.app.filter = some "a" := by
    simp only [t₂, push_web hfilter hfi hreader]
    exact hfilter
  exact ⟨t₂, rfl, hfilter', upToDate_of_orderly hinit (((ha.snoc henter).snoc hflush).snoc hpush) _
    (List.mem_append_right _ (.head _)) "web" .stdout "a" ["web"] _ rfl⟩

/-- **Late records shift the lines**: `b` is indexed, before `a`, after the index was built. -/
theorem not_upToDate : ∃ t t', tui.Reachable t ∧
    tui.step t (.handle (.outputLine "web" .stderr "b") ["web"] fun _ _ => 1000) t' ∧
      t.disk = (lateStderr.finish .stderr).shared.disk ∧ ¬UpToDate "web" t' := by
  let t₁ := typedA (((webSession lateStderr.shared.disk).turn ["web"]
    (.key ⟨.char 'e', false⟩)).turn ["web"] (.key ⟨.char 'e', false⟩))
  have hweb := reachable_webSession (g := fun _ _ => True) lateStderr.shared.disk trivial trivial
  have henum : Enumerates ["web"] (webSession lateStderr.shared.disk).app.diskReaders :=
    enumerates_web
  have he := reachable_turn (.key ⟨.char 'e', false⟩) hweb rfl henum trivial
  have he' := reachable_turn (.key ⟨.char 'e', false⟩) he rfl henum trivial
  have hslash := reachable_turn (.key ⟨.char '/', false⟩) he' rfl henum trivial
  have ha := reachable_turn (.key ⟨.char 'a', false⟩) hslash rfl henum trivial
  have hconfirmed := reachable_turn (.key ⟨.enter, false⟩) ha rfl henum trivial
  have hconfirm : (t₁.turn ["web"] (.key ⟨.enter, false⟩)).app = _ :=
    confirm_web t₁.app lateStderr.shared.disk rfl (by decide +kernel)
      (webSession_reader lateStderr.shared.disk)
  have henum' : Enumerates ["web"] (t₁.turn ["web"] (.key ⟨.enter, false⟩)).app.diskReaders := by
    rw [hconfirm]
    exact henum.update (webSession_reader lateStderr.shared.disk)
  have hrunning : (t₁.turn ["web"] (.key ⟨.enter, false⟩)).app.running := by
    rw [hconfirm]
    rfl
  have hwrite : tui.Reachable ⟨(t₁.turn ["web"] (.key ⟨.enter, false⟩)).app,
      (lateStderr.finish .stderr).shared.disk⟩ := hconfirmed.of_guarded.step .write
  obtain ⟨hsettles, hlines⟩ := settles_lateStderr .both rfl (nofun : (DiskLogReader.new "web").Stale 0)
  obtain ⟨hheld, -⟩ := held_indexFor "a" hsettles
  obtain ⟨hsettles', hlines'⟩ := settles_lateStderr_finish
    (lookedReader_process lateStderr.shared.disk) (stale_lookedReader lateStderr.shared.disk)
  rw [hlines] at hheld
  refine ⟨_, _, hwrite, .handle hrunning henum', rfl, ?_⟩
  refine not_upToDate_of_late
    (App.indexFor lateStderr.shared.disk "a" .both (fun _ => 0) (.new "web")).1
      ?_ ?_ ?_ rfl rfl (hheld.trans (by decide +kernel)) ?_ hsettles' hlines'
  · rw [hconfirm]
  · rw [hconfirm]
    rfl
  · rw [hconfirm]
    simp only [Function.update_self]
    rfl
  · rw [hconfirm]
    simp only [Function.update_self]
    rfl

end Captured

end AgentProcs
