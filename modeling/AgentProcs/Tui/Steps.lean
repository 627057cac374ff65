import AgentProcs.Tui.FilterIndex
import AgentProcs.Tui.Pane

/-!
# Tui/Steps — what a step of the interface leaves alone

    output line     ──▸  the buffer of its process
    status update   ──▸  the list of processes
    any other event ──▸  no buffer, and the same list
    any event       ──▸  an index only where there is a reader

Hot buffers are filled by pushes only, so their counters are right in every state a run reaches, and
the pane is a window wherever the looks agree.
-/

namespace AgentProcs

/-! ## Indexing touches readers and indices only -/

/-- Only the readers and the indices differ. -/
def Reindexed (app app' : App) : Prop :=
  ∃ diskReaders filteredIndices, app' = { app with diskReaders, filteredIndices }

namespace Reindexed

variable {app app' app'' : App}

theorem refl (app : App) : Reindexed app app := ⟨app.diskReaders, app.filteredIndices, rfl⟩

theorem trans (h : Reindexed app app') (h' : Reindexed app' app'') : Reindexed app app'' := by
  obtain ⟨readers, indices, rfl⟩ := h
  obtain ⟨readers', indices', rfl⟩ := h'
  exact ⟨readers', indices', rfl⟩

section Fields

variable (h : Reindexed app app')

include h

theorem buffers : app'.buffers = app.buffers := by obtain ⟨_, _, rfl⟩ := h; rfl

theorem filter : app'.filter = app.filter := by obtain ⟨_, _, rfl⟩ := h; rfl

theorem streamMode : app'.streamMode = app.streamMode := by obtain ⟨_, _, rfl⟩ := h; rfl

theorem paused : app'.paused = app.paused := by obtain ⟨_, _, rfl⟩ := h; rfl

theorem scrollOffsets : app'.scrollOffsets = app.scrollOffsets := by obtain ⟨_, _, rfl⟩ := h; rfl

theorem visibleHeight : app'.visibleHeight = app.visibleHeight := by obtain ⟨_, _, rfl⟩ := h; rfl

end Fields

end Reindexed

namespace App

section Reindexing

variable (app : App) (disk : Disk) (names : List String) (clocks : String → Clock) (name : String)
  (clock : Clock)

theorem reindexed_withReader {α : Type} (absent : α) (ask : ClockedReader → α × ClockedReader) :
    Reindexed app (app.withReader name absent ask clock).2.1 := by
  rw [withReader]
  split
  · exact .refl app
  · exact ⟨_, app.filteredIndices, rfl⟩

theorem reindexed_buildFilteredIndex : Reindexed app (app.buildFilteredIndex disk name clock) := by
  rw [buildFilteredIndex]
  split
  · exact .refl app
  · next filter _ =>
    refine ((reindexed_withReader app name clock [] _).trans
      (reindexed_withReader _ name _ 0 _)).trans ⟨_, _, rfl⟩

theorem reindexed_buildFilteredIndices :
    Reindexed app (app.buildFilteredIndices disk names clocks) := by
  rw [buildFilteredIndices]
  induction names generalizing app with
  | nil => exact .refl app
  | cons name names ih => exact (reindexed_buildFilteredIndex ..).trans (ih _)

theorem reindexed_updateFilteredIndex : Reindexed app (app.updateFilteredIndex disk name clock) := by
  cases hfi : app.filteredIndices name with
  | none =>
    rw [updateFilteredIndex_of_none (.inl hfi)]
    exact .refl app
  | some fi =>
    cases hreader : app.diskReaders name with
    | none =>
      rw [updateFilteredIndex_of_none (.inr hreader)]
      exact .refl app
    | some reader =>
      rw [updateFilteredIndex_eq disk clock hfi hreader]
      exact ⟨_, _, rfl⟩

theorem reindexed_pushOutput (process : String) (stream : Stream) (line : String) :
    Reindexed (app.bufferOutput process stream line)
      (app.pushOutput disk process stream line clock) := by
  rw [pushOutput]
  split_ifs
  · exact reindexed_updateFilteredIndex ..
  · exact .refl _

end Reindexing

end App

/-! ## Keys and mouse change the view only -/

/-- **Only the view differs**: buffers and list are the same, and the selected place, wherever it is
now, is not lost. -/
structure Viewed (app app' : App) : Prop where
  buffers : app'.buffers = app.buffers
  processes : app'.processes = app.processes
  place : app.selected < app.processes.length → app'.selected < app.processes.length

theorem Viewed.refl (app : App) : Viewed app app := ⟨rfl, rfl, id⟩

theorem Scrolled.viewed {app app' : App} (h : Scrolled app app') : Viewed app app' := by
  obtain ⟨_, _, _, rfl⟩ := h.rest
  exact ⟨rfl, rfl, id⟩

theorem Reindexed.viewed {app app' : App} (h : Reindexed app app') : Viewed app app' := by
  obtain ⟨_, _, rfl⟩ := h
  exact ⟨rfl, rfl, id⟩

namespace App

section View

variable (app : App) (disk : Disk) (names : List String) (clocks : String → Clock)

theorem viewed_selectNext : Viewed app app.selectNext := by
  rw [selectNext]
  split_ifs with hnil
  · exact .refl app
  · exact ⟨rfl, rfl, fun _ => Nat.mod_lt _ (List.length_pos_iff.mpr hnil)⟩

theorem viewed_selectPrev : Viewed app app.selectPrev := by
  rw [selectPrev]
  split_ifs with hnil hzero
  · exact .refl app
  · exact ⟨rfl, rfl, fun hplace => Nat.sub_lt (Nat.zero_lt_of_lt hplace) Nat.one_pos⟩
  · exact ⟨rfl, rfl, fun hplace => (Nat.sub_le _ _).trans_lt hplace⟩

theorem viewed_confirmFilter : Viewed app (app.confirmFilter disk names clocks) := by
  rw [confirmFilter]
  split_ifs
  · exact ⟨rfl, rfl, id⟩
  · have hbuilt := (reindexed_buildFilteredIndices
      { app with inputMode := .normal, filter := some app.filterBuf } disk names clocks).viewed
    exact ⟨hbuilt.buffers, hbuilt.processes, hbuilt.place⟩

theorem viewed_cycleStreamMode : Viewed app (app.cycleStreamMode disk names clocks) := by
  rw [cycleStreamMode]
  simp only
  split_ifs
  · have hbuilt := (reindexed_buildFilteredIndices
      { app with streamMode := nextMode app.streamMode } disk names clocks).viewed
    exact ⟨hbuilt.buffers, hbuilt.processes, hbuilt.place⟩
  · exact ⟨rfl, rfl, id⟩

theorem viewed_handleFilterAction (action : FilterAction) :
    Viewed app (app.handleFilterAction disk names clocks action) := by
  cases action with
  | confirm => exact viewed_confirmFilter ..
  | char c => exact ⟨rfl, rfl, id⟩
  | backspace => exact ⟨rfl, rfl, id⟩
  | cancel => exact ⟨rfl, rfl, id⟩

theorem viewed_handleAction (action : Action) :
    Viewed app (app.handleAction disk names clocks action).1 := by
  cases action with
  | selectNext => exact viewed_selectNext app
  | selectPrev => exact viewed_selectPrev app
  | cycleStream => exact viewed_cycleStreamMode ..
  | togglePause => exact (scrolled_togglePause app).viewed
  | scrollUp => exact (scrolled_scrollUpBy ..).viewed
  | scrollDown => exact (scrolled_scrollDownBy ..).viewed
  | scrollToTop => exact (scrolled_scrollToTop ..).viewed
  | scrollToBottom => exact (scrolled_scrollToBottom app).viewed
  | startFilter | clearFilter | quit | quitAndStop | stop | stopAll | restart | none =>
    exact ⟨rfl, rfl, id⟩

theorem viewed_handleMouse (mouse : MouseEvent) : Viewed app (app.handleMouse disk clocks mouse) := by
  rw [handleMouse]
  cases mouse.kind with
  | scrollUp => exact (scrolled_scrollUpBy ..).viewed
  | scrollDown => exact (scrolled_scrollDownBy ..).viewed
  | downLeft =>
    simp only
    split_ifs with hrow
    · exact ⟨rfl, rfl, fun _ => hrow.2⟩
    · exact .refl app
  | other => exact .refl app

/-- What an event brings in: a line for its buffer, or a new list. -/
def brought (event : AppEvent) (app : App) : App :=
  match event with
  | .outputLine process stream line => app.bufferOutput process stream line
  | .statusUpdate processes => (app.addReaders processes).updateProcesses processes
  | _ => app

/-- **An event brings something in, or changes the view.** -/
theorem viewed_handle (event : AppEvent) :
    Viewed (app.brought event) (app.handle disk names clocks event).1 := by
  cases event with
  | key key =>
    rw [handle, handleKey]
    split
    · exact viewed_handleFilterAction ..
    · exact viewed_handleAction ..
  | mouse mouse => exact viewed_handleMouse ..
  | outputLine process stream line => exact (reindexed_pushOutput ..).viewed
  | statusUpdate processes => exact .refl _
  | outputStreamClosed => exact .refl app

/-- **Only an output line reaches a buffer.** -/
theorem buffers_handle (event : AppEvent) : (app.handle disk names clocks event).1.buffers =
    match event with
    | .outputLine process stream line => (app.bufferOutput process stream line).buffers
    | _ => app.buffers := by
  rw [(viewed_handle app disk names clocks event).buffers]
  cases event with
  | statusUpdate processes =>
    simp only [brought, updateProcesses]
    split_ifs <;> rfl
  | _ => rfl

end View

/-! ## Who fills the buffers -/

/-- A buffer that takes one more line. -/
theorem Buffered.bufferOutput {app : App} (h : app.Buffered) (process : String) (stream : Stream)
    (line : String) : (app.bufferOutput process stream line).Buffered := by
  intro name buf hbuf
  rw [App.bufferOutput] at hbuf
  by_cases hname : name = process
  · subst hname
    simp only [Function.update_self, Option.some.injEq] at hbuf
    have hbefore : ∃ pushed, (app.buffers name).getD (.new MAX_BUFFER_LINES) =
        .filled MAX_BUFFER_LINES pushed := by
      cases hsome : app.buffers name with
      | none => exact ⟨[], rfl⟩
      | some before => exact h name before hsome
    obtain ⟨pushed, heq⟩ := hbefore
    refine ⟨pushed ++ [(stream.source, line)], ?_⟩
    rw [← hbuf, heq, OutputBuffer.filled, OutputBuffer.filled, List.foldl_append]
    rfl
  · simp only [Function.update_of_ne hname] at hbuf
    exact h name buf hbuf

theorem Buffered.counted {app : App} (h : app.Buffered) {name : String} :
    ∀ buf, app.buffers name = some buf → buf.Counted := by
  intro buf hbuf
  obtain ⟨pushed, rfl⟩ := h name buf hbuf
  exact OutputBuffer.counted_filled _ pushed

end App

/-! ## In every reachable state -/

section Reachable

variable {t t' : Tui} {e : TuiEvent}

theorem buffered_init (h : tui.init t) : t.app.Buffered := by
  obtain ⟨files, -, happ⟩ := h
  rw [happ, App.initDiskReaders_eq]
  have hnew : ∀ readers, ({ App.new with diskReaders := readers } : App).Buffered :=
    fun readers name buf hbuf => nomatch hbuf
  induction App.preloaded t.disk (App.logEntries files) using List.reverseRecOn with
  | nil => exact hnew _
  | append_singleton lines l ih =>
    rw [List.foldl_append]
    exact ih.bufferOutput l.1 l.2.1 l.2.2

theorem buffered_step (h : t.app.Buffered) (hstep : TuiStep t e t') : t'.app.Buffered := by
  cases hstep with
  | @handle event names clocks hrunning hnames =>
    intro name buf hbuf
    rw [App.buffers_handle] at hbuf
    cases event with
    | outputLine process stream line => exact h.bufferOutput process stream line name buf hbuf
    | _ => exact h name buf hbuf
  | draw hrunning hdrawn =>
    intro name buf hbuf
    rw [(App.looked_draw hdrawn).buffers] at hbuf
    exact h name buf hbuf
  | write => exact h

/-- **Pushes fill the buffers** of every state a run reaches. -/
theorem buffered_of_reachable (h : tui.Reachable t) : t.app.Buffered :=
  h.invariant (fun _ hinit => buffered_init hinit) fun _ _ _ _ hbuf hstep => buffered_step hbuf hstep

/-- **Every hot buffer is a ring**: it holds the last lines pushed for its process, and counts them. -/
theorem holdsLast_of_reachable (h : tui.Reachable t) {name : String} {buf : OutputBuffer}
    (hbuf : t.app.buffers name = some buf) : ∃ pushed, buf.HoldsLast MAX_BUFFER_LINES pushed := by
  obtain ⟨pushed, rfl⟩ := buffered_of_reachable h name buf hbuf
  exact ⟨pushed, OutputBuffer.holdsLast_filled (by decide) pushed⟩

/-- **An index only where there is a reader.** -/
def App.Owned (app : App) : Prop :=
  ∀ name, (app.filteredIndices name).isSome → (app.diskReaders name).isSome

namespace App.Owned

variable {app app' : App} {disk : Disk} {names : List String} {clocks : String → Clock} {clock : Clock}
  {filter process : String}

theorem congr (h : app.Owned) (hindices : app'.filteredIndices = app.filteredIndices)
    (hreaders : ∀ name, (app'.diskReaders name).isSome = (app.diskReaders name).isSome) :
    app'.Owned := by
  intro name hindex
  rw [hreaders]
  exact h name (hindices ▸ hindex)

/-- Every reader gets an index. -/
theorem rebuild (h : app.Owned) (hfilter : app.filter = some filter)
    (hnames : Enumerates names app.diskReaders) :
    (app.buildFilteredIndices disk names clocks).Owned := by
  intro name hindex
  rw [buildFilteredIndices_eq disk clocks hfilter hnames.1
    fun name hname => (hnames.2 name).mp hname] at hindex ⊢
  by_cases hname : name ∈ names
  · simp only [hname, if_true, Option.isSome_map] at hindex ⊢
    exact hindex
  · simp only [hname, if_false] at hindex ⊢
    exact h name hindex

/-- Only an index that is there is extended. -/
theorem extend (h : app.Owned) : (app.updateFilteredIndex disk process clock).Owned := by
  cases hfi : app.filteredIndices process with
  | none => rwa [updateFilteredIndex_of_none (.inl hfi)]
  | some fi =>
    cases hreader : app.diskReaders process with
    | none => rwa [updateFilteredIndex_of_none (.inr hreader)]
    | some reader =>
      intro name hindex
      rw [updateFilteredIndex_eq disk clock hfi hreader] at hindex ⊢
      by_cases hname : name = process
      · simp only [hname, Function.update_self, Option.isSome_some]
      · simp only [Function.update_of_ne hname] at hindex ⊢
        exact h name hindex

end App.Owned

end Reachable

end AgentProcs
