import AgentProcs.Tui.Looks

/-!
# Tui/FilterIndex — which processes have a filter index

    confirm f, cycle mode   ──▸  rebuild for every process with a reader
    clear, confirm ""       ──▸  drop all
    output line             ──▸  extend the one of its process
    status update           ──▸  new readers, and no index for them

What a turn of the loop does to the filter, the mode and the indices is said once, in
`handle_cases`.  While a filter is active every reader has an index, unless a status update brings a
process that is new to the interface.
-/

namespace AgentProcs

namespace App

/-- The index built for a process, and its reader afterwards. -/
def indexFor (disk : Disk) (filter : String) (mode : StreamMode) (clock : Clock)
    (reader : DiskLogReader) : FilteredIndex × DiskLogReader :=
  let scanned := ClockedReader.scanMatchingLines disk filter mode ⟨reader, clock⟩
  let counted := scanned.2.total disk mode
  (⟨filter, mode, scanned.1, counted.1⟩, counted.2.reader)

section Build

variable {app : App} {disk : Disk} {name filter : String} {names : List String} {clock : Clock}
  {clocks : String → Clock} {reader : DiskLogReader}

theorem buildFilteredIndex_eq (hfilter : app.filter = some filter)
    (hreader : app.diskReaders name = some reader) :
    app.buildFilteredIndex disk name clock =
      { app with
        diskReaders := Function.update app.diskReaders name
          (some (indexFor disk filter app.streamMode clock reader).2)
        filteredIndices := Function.update app.filteredIndices name
          (some (indexFor disk filter app.streamMode clock reader).1) } := by
  simp [buildFilteredIndex, withReader, hfilter, hreader, indexFor]

/-- **Rebuilding** builds an index for every process with a reader, whatever the order. -/
theorem buildFilteredIndices_eq (disk : Disk) (clocks : String → Clock) (hfilter : app.filter = some filter) (hnodup : names.Nodup)
    (hreaders : ∀ name ∈ names, (app.diskReaders name).isSome) :
    app.buildFilteredIndices disk names clocks =
      { app with
        diskReaders := fun name => if name ∈ names then
            (app.diskReaders name).map fun r => (indexFor disk filter app.streamMode (clocks name) r).2
          else app.diskReaders name
        filteredIndices := fun name => if name ∈ names then
            (app.diskReaders name).map fun r => (indexFor disk filter app.streamMode (clocks name) r).1
          else app.filteredIndices name } := by
  rw [buildFilteredIndices]
  induction names generalizing app with
  | nil => simp
  | cons name names ih =>
    obtain ⟨hname, hnodup⟩ := List.nodup_cons.mp hnodup
    obtain ⟨reader, hreader⟩ := Option.isSome_iff_exists.mp (hreaders name List.mem_cons_self)
    have hne : ∀ n ∈ names, n ≠ name := fun n hn heq => hname (heq ▸ hn)
    rw [List.foldl_cons, buildFilteredIndex_eq hfilter hreader, ih]
    · congr 1
      all_goals
        funext n
        by_cases hn : n = name
        · subst hn
          simp [hname, hreader]
        · simp [hn]
    · exact hfilter
    · exact hnodup
    · intro n hn
      simp only [Function.update_of_ne (hne n hn)]
      exact hreaders n (List.mem_cons_of_mem _ hn)

/-- The index of a process extended, and its reader afterwards. -/
def extended (disk : Disk) (clock : Clock) (fi : FilteredIndex) (reader : DiskLogReader) :
    FilteredIndex × DiskLogReader :=
  let counted := ClockedReader.total disk fi.streamMode ⟨reader, clock⟩
  if counted.1 ≤ fi.scannedUpTo then (fi, counted.2.reader)
  else
    let scanned := counted.2.scanMatchingLinesFrom disk fi.filter fi.streamMode fi.scannedUpTo
    ({ fi with matchingLines := fi.matchingLines ++ scanned.1, scannedUpTo := counted.1 },
      scanned.2.reader)

theorem extended_kept (disk : Disk) (clock : Clock) (fi : FilteredIndex) (reader : DiskLogReader) :
    (extended disk clock fi reader).1.filter = fi.filter ∧
      (extended disk clock fi reader).1.streamMode = fi.streamMode := by
  rw [extended]
  simp only
  split_ifs <;> exact ⟨rfl, rfl⟩

theorem updateFilteredIndex_eq {fi : FilteredIndex} (disk : Disk) (clock : Clock) (hfi : app.filteredIndices name = some fi)
    (hreader : app.diskReaders name = some reader) :
    app.updateFilteredIndex disk name clock =
      { app with
        diskReaders := Function.update app.diskReaders name
          (some (extended disk clock fi reader).2)
        filteredIndices := Function.update app.filteredIndices name
          (some (extended disk clock fi reader).1) } := by
  have hkept : Function.update app.filteredIndices name (some fi) = app.filteredIndices :=
    hfi ▸ Function.update_eq_self name app.filteredIndices
  rw [extended]
  simp only [updateFilteredIndex, withReader, hfi, hreader, Function.update_self]
  split_ifs
  · simp only [hkept]
  · simp only [Function.update_idem]

theorem updateFilteredIndex_of_none
    (h : app.filteredIndices name = none ∨ app.diskReaders name = none) :
    app.updateFilteredIndex disk name clock = app := by
  rw [updateFilteredIndex]
  split
  · rfl
  · rfl
  · next hfi hreader => simp [hfi, hreader] at h

end Build

end App

/-! ## What a turn of the loop does to the indices -/

/-- What an event does to the filter indices. -/
inductive IndexChange where
  | keep
  | drop
  | rebuild (filter : String) (mode : StreamMode)
  | extend (process : String)
  | meet (processes : List ProcessInfo)
  deriving DecidableEq, Repr

/-- Filter, indices and who has a reader are the same, and the mode while a filter is active. -/
structure SameIndices (app app' : App) : Prop where
  filter : app'.filter = app.filter
  filteredIndices : app'.filteredIndices = app.filteredIndices
  readers : ∀ name, (app'.diskReaders name).isSome = (app.diskReaders name).isSome
  streamMode : app.filter.isSome → app'.streamMode = app.streamMode

theorem SameIndices.refl (app : App) : SameIndices app app := ⟨rfl, rfl, fun _ => rfl, fun _ => rfl⟩

theorem Looked.sameIndices {app app' : App} (h : Looked app app') : SameIndices app app' :=
  ⟨h.filter, h.filteredIndices, h.isSome, fun _ => h.streamMode⟩

theorem Scrolled.sameIndices {app app' : App} (h : Scrolled app app') : SameIndices app app' := by
  obtain ⟨paused, scrollOffsets, hlooked⟩ := h
  have hsame := hlooked.sameIndices
  exact ⟨hsame.filter, hsame.filteredIndices, hsame.readers, hsame.streamMode⟩

namespace App

/-- The mode that comes next. -/
def nextMode : StreamMode → StreamMode
  | .stdout => .stderr
  | .stderr => .both
  | .both => .stdout

def indexChange (event : AppEvent) (app : App) : IndexChange :=
  match event, app.inputMode with
  | .key key, .filterInput =>
    match handleFilterKey key with
    | .confirm => if app.filterBuf = "" then .drop else .rebuild app.filterBuf app.streamMode
    | _ => .keep
  | .key key, .normal =>
    match AgentProcs.handleKey key, app.filter with
    | .clearFilter, _ => .drop
    | .cycleStream, some filter => .rebuild filter (nextMode app.streamMode)
    | _, _ => .keep
  | .outputLine process _ _, _ => if app.filter.isSome then .extend process else .keep
  | .statusUpdate processes, _ => .meet processes
  | _, _ => .keep

end App

/-- What each kind of change comes to. -/
def IndexChange.Effect (disk : Disk) (names : List String) (clocks : String → Clock)
    (app app' : App) : IndexChange → Prop
  | keep => SameIndices app app'
  | drop => app'.filter = none ∧ (∀ name, app'.filteredIndices name = none) ∧
      ∀ name, (app'.diskReaders name).isSome = (app.diskReaders name).isSome
  | rebuild filter mode => ∃ base : App, base.filter = some filter ∧ base.streamMode = mode ∧
      base.filteredIndices = app.filteredIndices ∧ base.diskReaders = app.diskReaders ∧
      app' = base.buildFilteredIndices disk names clocks
  | extend process => ∃ base : App, base.filter = app.filter ∧ base.streamMode = app.streamMode ∧
      base.filteredIndices = app.filteredIndices ∧ base.diskReaders = app.diskReaders ∧
      app' = base.updateFilteredIndex disk process (clocks process)
  | meet processes => app'.filter = app.filter ∧ app'.streamMode = app.streamMode ∧
      app'.filteredIndices = app.filteredIndices ∧
      app'.diskReaders = (app.addReaders processes).diskReaders

namespace App

section Handle

variable (app : App) (disk : Disk) (names : List String) (clocks : String → Clock) (clock : Clock)

theorem sameIndices_selectNext : SameIndices app app.selectNext := by
  rw [selectNext]
  split_ifs <;> exact ⟨rfl, rfl, fun _ => rfl, fun _ => rfl⟩

theorem sameIndices_selectPrev : SameIndices app app.selectPrev := by
  rw [selectPrev]
  split_ifs <;> exact ⟨rfl, rfl, fun _ => rfl, fun _ => rfl⟩

theorem sameIndices_handleMouse (mouse : MouseEvent) :
    SameIndices app (app.handleMouse disk clocks mouse) := by
  rw [handleMouse]
  cases mouse.kind with
  | scrollUp => exact (scrolled_scrollUpBy ..).sameIndices
  | scrollDown => exact (scrolled_scrollDownBy ..).sameIndices
  | downLeft =>
    simp only
    split_ifs <;> exact ⟨rfl, rfl, fun _ => rfl, fun _ => rfl⟩
  | other => exact .refl app

/-- A filter prompt key. -/
theorem effect_filterAction {key : KeyEvent} (hmode : app.inputMode = .filterInput) :
    (app.indexChange (.key key)).Effect disk names clocks app
      (app.handleFilterAction disk names clocks (handleFilterKey key)) := by
  simp only [indexChange, hmode]
  cases handleFilterKey key with
  | char c => exact ⟨rfl, rfl, fun _ => rfl, fun _ => rfl⟩
  | backspace => exact ⟨rfl, rfl, fun _ => rfl, fun _ => rfl⟩
  | cancel => exact ⟨rfl, rfl, fun _ => rfl, fun _ => rfl⟩
  | confirm =>
    rw [handleFilterAction]
    simp only [confirmFilter]
    split_ifs
    · exact ⟨rfl, fun _ => rfl, fun _ => rfl⟩
    · exact ⟨{ app with inputMode := .normal, filter := some app.filterBuf }, rfl, rfl, rfl, rfl, rfl⟩

/-- A key outside the prompt. -/
theorem effect_action {key : KeyEvent} (hmode : app.inputMode = .normal) :
    (app.indexChange (.key key)).Effect disk names clocks app
      (app.handleAction disk names clocks (AgentProcs.handleKey key)).1 := by
  simp only [indexChange, hmode]
  cases AgentProcs.handleKey key with
  | clearFilter => exact ⟨rfl, fun _ => rfl, fun _ => rfl⟩
  | cycleStream =>
    rw [handleAction, cycleStreamMode]
    cases hfilter : app.filter with
    | none =>
      refine ⟨hfilter.symm ▸ rfl, ?_, ?_, ?_⟩ <;> simp [hfilter]
    | some filter =>
      exact ⟨{ app with streamMode := nextMode app.streamMode }, hfilter, rfl, rfl, rfl, by
        simp only [hfilter]
        rfl⟩
  | selectNext => exact sameIndices_selectNext ..
  | selectPrev => exact sameIndices_selectPrev ..
  | togglePause => exact (scrolled_togglePause _).sameIndices
  | scrollUp => exact (scrolled_scrollUpBy ..).sameIndices
  | scrollDown => exact (scrolled_scrollDownBy ..).sameIndices
  | scrollToTop => exact (scrolled_scrollToTop ..).sameIndices
  | scrollToBottom => exact (scrolled_scrollToBottom _).sameIndices
  | startFilter | quit | quitAndStop | restart | stop | stopAll | none =>
    exact ⟨rfl, rfl, fun _ => rfl, fun _ => rfl⟩

/-- **What a turn of the loop does to the indices.** -/
theorem effect_handle (event : AppEvent) :
    (app.indexChange event).Effect disk names clocks app
      (app.handle disk names clocks event).1 := by
  cases event with
  | key key =>
    rw [handle, handleKey]
    cases hmode : app.inputMode with
    | filterInput => exact effect_filterAction app disk names clocks hmode
    | normal => exact effect_action app disk names clocks hmode
  | mouse mouse => exact sameIndices_handleMouse ..
  | outputLine process stream line =>
    have hfilter : (app.bufferOutput process stream line).filter = app.filter := rfl
    rw [handle, pushOutput, indexChange]
    simp only [hfilter]
    split_ifs
    · exact ⟨app.bufferOutput process stream line, rfl, rfl, rfl, rfl, rfl⟩
    · exact ⟨rfl, rfl, fun _ => rfl, fun _ => rfl⟩
  | statusUpdate processes =>
    have hupdate : ∀ app : App, (app.updateProcesses processes).filter = app.filter ∧
        (app.updateProcesses processes).streamMode = app.streamMode ∧
        (app.updateProcesses processes).filteredIndices = app.filteredIndices ∧
        (app.updateProcesses processes).diskReaders = app.diskReaders := fun app => by
      rw [updateProcesses]
      split_ifs <;> exact ⟨rfl, rfl, rfl, rfl⟩
    exact hupdate (app.addReaders processes)
  | outputStreamClosed => exact .refl app

variable {app} in
theorem eq_statusUpdate_of_meet {event : AppEvent} {processes : List ProcessInfo}
    (h : app.indexChange event = .meet processes) : event = .statusUpdate processes := by
  cases event with
  | key key =>
    cases hmode : app.inputMode with
    | filterInput =>
      simp only [indexChange, hmode] at h
      cases hkey : handleFilterKey key <;> simp only [hkey] at h <;> try split_ifs at h
      all_goals cases h
    | normal =>
      simp only [indexChange, hmode] at h
      split at h <;> cases h
  | mouse mouse => cases h
  | outputLine process stream line =>
    rw [indexChange] at h
    split_ifs at h
  | statusUpdate ps =>
    obtain rfl : ps = processes := IndexChange.meet.inj h
    rfl
  | outputStreamClosed => cases h

/-- New processes get a reader, the others keep theirs. -/
theorem addReaders_diskReaders (processes : List ProcessInfo) (name : String) :
    (app.addReaders processes).diskReaders name =
      ((app.diskReaders name).or
        (if name ∈ processes.map (·.name) then some (.new name) else none)) := by
  rw [addReaders]
  generalize app.diskReaders = readers
  simp only
  induction processes generalizing readers with
  | nil => simp
  | cons p processes ih =>
    rw [List.foldl_cons, ih]
    by_cases hname : name = p.name
    · subst hname
      cases hreader : readers p.name <;> simp [hreader]
    · have hkept : (if (readers p.name).isSome then readers
          else Function.update readers p.name (some (.new p.name))) name = readers name := by
        split_ifs
        · rfl
        · exact Function.update_of_ne hname ..
      rw [hkept]
      simp only [List.map_cons, List.mem_cons, hname, false_or]

end Handle

end App

/-! ## Every reader has an index -/

/-- **While a filter is active every reader has an index of it**; without one there are none. -/
structure FullyIndexed (app : App) : Prop where
  active : ∀ filter, app.filter = some filter → ∀ name, (app.diskReaders name).isSome →
    ∃ fi, app.filteredIndices name = some fi ∧ fi.filter = filter ∧ fi.streamMode = app.streamMode
  inactive : app.filter = none → ∀ name, app.filteredIndices name = none

/-- No status update brings a process that is new, while a filter is active. -/
def NoNewcomers (t : Tui) : TuiEvent → Prop
  | .handle (.statusUpdate processes) _ _ =>
    t.app.filter.isSome → ∀ p ∈ processes, (t.app.diskReaders p.name).isSome
  | _ => True

namespace FullyIndexed

variable {app app' : App} {disk : Disk} {names : List String} {clocks : String → Clock}

theorem keep (h : FullyIndexed app) (hsame : SameIndices app app') : FullyIndexed app' where
  active filter hfilter name hreader := by
    have hold := hsame.filter ▸ hfilter
    obtain ⟨fi, hfi, hf, hmode⟩ := h.active filter hold name (hsame.readers name ▸ hreader)
    exact ⟨fi, hsame.filteredIndices ▸ hfi, hf,
      hmode.trans (hsame.streamMode (hold ▸ rfl)).symm⟩
  inactive hfilter name := by
    rw [hsame.filteredIndices]
    exact h.inactive (hsame.filter ▸ hfilter) name

/-- **A rebuild makes up for everything.** -/
theorem rebuild {filter : String} (hfilter : app.filter = some filter)
    (hnames : Enumerates names app.diskReaders) :
    FullyIndexed (app.buildFilteredIndices disk names clocks) := by
  rw [App.buildFilteredIndices_eq disk clocks hfilter hnames.1 fun name hname => (hnames.2 name).mp hname]
  refine ⟨fun f hf name hreader => ?_, fun hnone => absurd (hfilter.symm.trans hnone) nofun⟩
  obtain rfl : filter = f := Option.some.inj (hfilter.symm.trans hf)
  have hname : name ∈ names := by
    by_contra hnot
    simp only [hnot, if_false] at hreader
    exact hnot ((hnames.2 name).mpr hreader)
  obtain ⟨reader, hreader'⟩ := Option.isSome_iff_exists.mp ((hnames.2 name).mp hname)
  refine ⟨(App.indexFor disk filter app.streamMode (clocks name) reader).1, ?_, rfl, rfl⟩
  simp only [hname, if_true, hreader', Option.map_some]

theorem extend {name : String} {clock : Clock} (h : FullyIndexed app) :
    FullyIndexed (app.updateFilteredIndex disk name clock) := by
  cases hfi : app.filteredIndices name with
  | none => rwa [App.updateFilteredIndex_of_none (.inl hfi)]
  | some fi =>
    cases hreader : app.diskReaders name with
    | none => rwa [App.updateFilteredIndex_of_none (.inr hreader)]
    | some reader =>
      have hkept := App.extended_kept disk clock fi reader
      rw [App.updateFilteredIndex_eq disk clock hfi hreader]
      refine ⟨fun filter hfilter name' hsome => ?_, fun hnone => ?_⟩
      · by_cases hname : name' = name
        · subst hname
          obtain ⟨fi', hfi', hf, hmode⟩ := h.active filter hfilter name' (hreader ▸ rfl)
          obtain rfl : fi = fi' := Option.some.inj (hfi.symm.trans hfi')
          exact ⟨_, Function.update_self .., hkept.1.trans hf, hkept.2.trans hmode⟩
        · simp only [Function.update_of_ne hname] at hsome ⊢
          exact h.active filter hfilter name' hsome
      · exact absurd (hfi.symm.trans (h.inactive hnone name)) nofun

/-- **A status update keeps it** if it brings no process that is new under a filter. -/
theorem meet (h : FullyIndexed app) {processes : List ProcessInfo}
    (hmeet : (IndexChange.meet processes).Effect disk names clocks app app')
    (hold : app.filter.isSome → ∀ p ∈ processes, (app.diskReaders p.name).isSome) :
    FullyIndexed app' := by
  obtain ⟨hfilter, hmode, hindices, hreaders⟩ := hmeet
  refine ⟨fun filter hf name hsome => ?_, fun hnone name => ?_⟩
  · rw [hfilter] at hf
    have hreader : (app.diskReaders name).isSome := by
      rw [hreaders, App.addReaders_diskReaders, Option.isSome_or] at hsome
      split_ifs at hsome with hmem
      · obtain ⟨p, hp, rfl⟩ := List.mem_map.mp hmem
        exact hold (hf ▸ rfl) p hp
      · simpa using hsome
    rw [hindices, hmode]
    exact h.active filter hf name hreader
  · rw [hindices]
    exact h.inactive (hfilter ▸ hnone) name

end FullyIndexed

section Reachable

variable {t t' : Tui} {e : TuiEvent}

theorem fullyIndexed_init (h : tui.init t) : FullyIndexed t.app := by
  obtain ⟨diskReaders, buffers, happ⟩ := exists_of_init h
  rw [happ]
  exact ⟨nofun, fun _ _ => rfl⟩

/-- **One step** keeps every reader indexed, unless it brings a newcomer. -/
theorem FullyIndexed.step (h : FullyIndexed t.app) (hstep : TuiStep t e t')
    (hguard : NoNewcomers t e) : FullyIndexed t'.app := by
  cases hstep with
  | @handle event names clocks hrunning hnames =>
    have heffect := App.effect_handle t.app t.disk names clocks event
    revert heffect
    generalize (t.app.handle t.disk names clocks event).1 = app'
    cases hchange : t.app.indexChange event with
    | keep => exact h.keep
    | drop => exact fun ⟨hfilter, hindices, _⟩ =>
        ⟨fun _ hf => absurd (hfilter.symm.trans hf) nofun, fun _ => hindices⟩
    | rebuild filter mode =>
      rintro ⟨base, hfilter, -, -, hreaders, rfl⟩
      exact rebuild hfilter (hreaders ▸ hnames)
    | extend process =>
      rintro ⟨base, hfilter, hmode, hindices, hreaders, rfl⟩
      refine FullyIndexed.extend (h.keep ⟨hfilter, hindices, fun _ => ?_, fun _ => hmode⟩)
      rw [hreaders]
    | meet processes =>
      refine fun hmeet => h.meet hmeet ?_
      rw [App.eq_statusUpdate_of_meet hchange] at hguard
      exact hguard
  | @draw height clock window app' hrunning hdrawn =>
    have hlooked := (App.looked_draw hdrawn).sameIndices
    exact h.keep ⟨hlooked.filter, hlooked.filteredIndices, hlooked.readers, hlooked.streamMode⟩
  | write => exact h

/-- **Every process has a filter index while a filter is active**, in every state a run reaches in
which no status update brings a process that is new under a filter. -/
theorem fullyIndexed_of_noNewcomers (t : Tui) (h : (tui.guarded NoNewcomers).Reachable t) :
    FullyIndexed t.app :=
  h.invariant (fun _ hinit => fullyIndexed_init hinit)
    fun _ _ _ _ hindexed hstep => hindexed.step hstep.1 hstep.2

/-- One turn of the loop, with all looks at time 0. -/
def Tui.turn (names : List String) (t : Tui) (event : AppEvent) : Tui :=
  { t with app := (t.app.handle t.disk names (fun _ _ => 0) event).1 }

/-- The interface in an empty session. -/
def emptySession : Tui := ⟨App.new, .empty (.text [])⟩

/-- Type `/a` and confirm. -/
def confirmA (names : List String) (t : Tui) : Tui :=
  ((t.turn names (.key ⟨.char '/', false⟩)).turn names (.key ⟨.char 'a', false⟩)).turn names
    (.key ⟨.enter, false⟩)

/-- The daemon reports one process. -/
def reportWeb : AppEvent :=
  .statusUpdate [⟨"web", "p1", 1, .running, none, none, "true", none, none, none, none, none, none⟩]

theorem reachable_emptySession {g : Tui → TuiEvent → Prop} :
    (tui.guarded g).Reachable emptySession := by
  refine .init ⟨[], ⟨List.nodup_nil, fun name => ?_⟩, rfl⟩
  simp [emptySession, FileSystem.empty]

theorem reachable_turn {g : Tui → TuiEvent → Prop} {names : List String} (event : AppEvent)
    (h : (tui.guarded g).Reachable t) (hrunning : t.app.running)
    (hnames : Enumerates names t.app.diskReaders)
    (hguard : g t (.handle event names fun _ _ => 0)) :
    (tui.guarded g).Reachable (t.turn names event) :=
  h.step (e := .handle event names fun _ _ => 0) ⟨.handle hrunning hnames, hguard⟩

theorem enumerates_nil : Enumerates [] emptySession.app.diskReaders :=
  ⟨List.nodup_nil, fun name => by simp [emptySession, App.new]⟩

theorem enumerates_web : Enumerates ["web"] (emptySession.turn [] reportWeb).app.diskReaders := by
  refine ⟨List.nodup_singleton _, fun name => ?_⟩
  have hreaders : (emptySession.turn [] reportWeb).app.diskReaders =
      (App.addReaders [⟨"web", "p1", 1, .running, none, none, "true", none, none, none, none, none,
        none⟩] App.new).diskReaders := rfl
  rw [hreaders, App.addReaders_diskReaders]
  by_cases hname : name = "web" <;> simp [hname, App.new]

/-- `web` is reported, then a filter is set. -/
theorem fullyIndexed_of_noNewcomers_web : ∃ t, (tui.guarded NoNewcomers).Reachable t ∧
    t.app.filter = some "a" ∧ FullyIndexed t.app := by
  have hweb := reachable_turn (g := NoNewcomers) reportWeb reachable_emptySession rfl enumerates_nil
    nofun
  have hslash := reachable_turn (.key ⟨.char '/', false⟩) hweb rfl enumerates_web trivial
  have ha := reachable_turn (.key ⟨.char 'a', false⟩) hslash rfl enumerates_web trivial
  have hconfirmed := reachable_turn (.key ⟨.enter, false⟩) ha rfl enumerates_web trivial
  exact ⟨_, hconfirmed, by decide +kernel, fullyIndexed_of_noNewcomers _ hconfirmed⟩

/-- **A newcomer has no index**: a filter is set, then `web` is reported. -/
theorem not_fullyIndexed : ∃ t, tui.Reachable t ∧ ¬FullyIndexed t.app := by
  have hslash := reachable_turn (g := fun _ _ => True) (.key ⟨.char '/', false⟩)
    reachable_emptySession rfl enumerates_nil trivial
  have ha := reachable_turn (.key ⟨.char 'a', false⟩) hslash rfl enumerates_nil trivial
  have hconfirmed := reachable_turn (.key ⟨.enter, false⟩) ha rfl enumerates_nil trivial
  have hweb := reachable_turn reportWeb hconfirmed rfl enumerates_nil trivial
  refine ⟨_, hweb.of_guarded, fun hindexed => ?_⟩
  obtain ⟨fi, hfi, -⟩ := hindexed.active "a" (by decide +kernel) "web" (by decide +kernel)
  have hnone : ((confirmA [] emptySession).turn [] reportWeb).app.filteredIndices "web" = none := by
    decide +kernel
  exact absurd (hnone.symm.trans hfi) nofun

end Reachable

end AgentProcs
