import AgentProcs.Tui.Frozen

/-!
# Tui/Clamped — when the output pane is never blank

    lines   │⋯⋯⋯⋯⋯⋯⋯⋯⋯⋯⋯⋯⋯⋯⋯⋯⋯⋯⋯⋯⋯⋯⋯⋯⋯│
            │ ⋯ │◂ height ▸│◂ offset ▸│        offset ≤ lines - height: the pane is full
            │◂────── offset ─────────▸│        scrolled to the top: the pane is blank

Offsets are stored for each process and clamped only when scrolling up.  The pane stays full while
nobody scrolls to the top, and whatever takes lines away, or adds rows, leaves those that a stored
offset needs: another mode or filter counts enough of what is there, and so on.
-/

namespace AgentProcs

namespace App

section Totals

variable (disk : Disk) (now : ℕ) (name : String) (app : App)

/-- The disk lines of a process that a look at this time shows. -/
def diskTotal : ℕ := (app.diskReaders name).elim 0 fun r => (r.refresh now disk).total app.streamMode

/-- The lines of a process that a look at this time shows. -/
def lineTotal : ℕ :=
  match app.filter with
  | none => max (app.diskTotal disk now name) (app.hotLines name).length
  | some _ => (app.matchesOf name).length

/-- **Each stored offset leaves a full pane** of so many lines, whenever one looks. -/
def Covered (total : ℕ → String → ℕ) (height : ℕ) (app : App) : Prop :=
  ∀ name offset, app.scrollOffsets name = some offset → ∀ now, offset ≤ total now name - height

end Totals

end App

namespace OutputBuffer

/-- A push from this source would drop a line that the mode shows, and show none instead. -/
def Drops (mode : StreamMode) (source : LineSource) (b : OutputBuffer) : Prop :=
  b.lines.length = b.maxLines ∧ (∃ l ∈ b.lines.head?, mode.shows l.1 = true) ∧
    mode.shows source = false

/-- **A push** keeps the lines a mode shows, or as many, unless it drops one. -/
theorem length_linesOf_push (mode : StreamMode) (source : LineSource) (line : String)
    (b : OutputBuffer) :
    (b.linesOf mode).length ≤ ((b.push source line).linesOf mode).length ∨
      b.Drops mode source ∧
        (b.linesOf mode).length - 1 ≤ ((b.push source line).linesOf mode).length := by
  rw [linesOf_eq, linesOf_eq, lines_push, ringPush, List.filter_append, List.length_append]
  by_cases hfull : b.lines.length = b.maxLines
  · rw [if_pos hfull]
    cases hlines : b.lines with
    | nil => exact .inl (Nat.zero_le _)
    | cons l lines =>
      rw [List.tail_cons, List.filter_cons, List.filter_singleton]
      cases hoff : mode.shows l.1 with
      | false => exact .inl (by simp)
      | true =>
        cases hon : mode.shows source with
        | false => exact .inr ⟨⟨hfull, ⟨l, by simp [hlines], hoff⟩, hon⟩, by simp⟩
        | true => exact .inl (by simp)
  · rw [if_neg hfull]
    exact .inl (Nat.le_add_right _ _)

end OutputBuffer

/-- What an event does to the lines a pane counts and to the offsets. -/
inductive ViewChange where
  | keep
  | up (lines : ℕ)
  | top
  /-- This mode and this filter are asked for. -/
  | view (mode : StreamMode) (filter : Option String)
  | push (process : String) (source : LineSource)
  deriving DecidableEq, Repr

namespace App

def viewChange (event : AppEvent) (app : App) : ViewChange :=
  match event, app.inputMode with
  | .key key, .filterInput =>
    match handleFilterKey key with
    | .confirm => .view app.streamMode (if app.filterBuf = "" then none else some app.filterBuf)
    | _ => .keep
  | .key key, .normal =>
    match AgentProcs.handleKey key with
    | .cycleStream => .view (nextMode app.streamMode) app.filter
    | .clearFilter => .view app.streamMode none
    | .scrollUp => .up app.halfPage
    | .scrollToTop => .top
    | _ => .keep
  | .mouse mouse, _ =>
    match mouse.kind with
    | .scrollUp => .up App.MOUSE_SCROLL_LINES
    | _ => .keep
  | .outputLine process stream _, _ => .push process stream.source
  | _, _ => .keep

/-- The lines of a process that there are for another mode and filter. -/
def available (mode : StreamMode) (filter : Option String) (disk : Disk) (clock : Clock) (now : ℕ)
    (name : String) (app : App) : ℕ :=
  match filter with
  | none => max ((app.diskReaders name).elim 0 fun r => (r.refresh now disk).total mode)
      ((app.buffers name).elim [] (·.linesOf mode)).length
  | some filter => (app.diskReaders name).elim 0 fun r =>
      (ClockedReader.scanMatchingLines disk filter mode ⟨r, clock⟩).1.length

/-- What remains of the lines is all of them, or enough for the offset that is stored. -/
def Spares (total remaining : ℕ → String → ℕ) (app : App) : Prop :=
  ∀ name offset, app.scrollOffsets name = some offset → ∀ now,
    total now name ≤ remaining now name ∨ offset + app.visibleHeight ≤ remaining now name ∨
      offset = 0

end App

/-- **A gentle step**, judged by what is there before it: the user scrolls up by the lines there
are, and to the top only of an empty pane; the mode or the filter that is asked for has lines enough
for the offsets stored; so have the lines that a full buffer, or a disk that changes, leaves; and
there are lines for the rows that are added. -/
def Gentle (t : Tui) : TuiEvent → Prop
  | .handle event _ clocks =>
    let total now name := t.app.lineTotal t.disk now name
    match t.app.viewChange event with
    | .keep => True
    | .up lines => ∀ name, t.app.selectedName = some name → ∀ now,
        total (clocks name 0) name ≤ total now name ∨
          (t.app.scrollOffsets name).getD 0 + lines ≤ total now name - t.app.visibleHeight
    | .top => ∀ name, t.app.selectedName = some name → ∀ now,
        total (clocks name 0) name ≤ total now name ∧
          (total (clocks name 0) name = 0 ∨ t.app.visibleHeight = 0)
    | .view mode filter => t.app.Spares total fun now name =>
        t.app.available mode filter t.disk (clocks name) now name
    | .push process source => t.app.filter = none →
        (∃ b, t.app.buffers process = some b ∧ b.Drops t.app.streamMode source) →
        t.app.Spares total fun now name =>
          max (t.app.diskTotal t.disk now name)
            ((t.app.hotLines name).length - if name = process then 1 else 0)
  | .draw height _ => ∀ name offset, t.app.scrollOffsets name = some offset → ∀ now,
      height ≤ t.app.visibleHeight ∨ offset + height ≤ t.app.lineTotal t.disk now name ∨ offset = 0
  | .write disk => t.app.Spares (fun now name => t.app.lineTotal t.disk now name) fun now name =>
      t.app.lineTotal disk now name

/-- The offsets leave every process a full pane. -/
def Clamped (t : Tui) : Prop :=
  t.app.Covered (fun now name => t.app.lineTotal t.disk now name) t.app.visibleHeight

/-! ## Looking again -/

section Looking

variable {disk : Disk} {name : String} {app app' app'' : App} {clock clock' : Clock}

/-- **Two looks show what one of them shows.** -/
theorem refresh_look (first now : ℕ) (disk : Disk) (r : DiskLogReader) : ∃ once, ∀ s,
    ((r.refresh first disk).refresh now disk).segments s = (r.refresh once disk).segments s := by
  by_cases hstale : r.Stale first
  · refine ⟨first, fun s => ?_⟩
    rw [DiskLogReader.refresh]
    split_ifs with hagain
    · rw [DiskLogReader.refresh, if_pos hstale]
      cases s <;> rfl
    · rfl
  · have hsame : r.refresh first disk = r := if_neg hstale
    exact ⟨now, fun s => by rw [hsame]⟩

/-- Looking at readers changes what they show to what another look would have shown. -/
structure Relooked (disk : Disk) (app app' : App) : Prop extends Looked app app' where
  total : ∀ name now, ∃ once, app'.diskTotal disk now name = app.diskTotal disk once name

theorem Relooked.refl (disk : Disk) (app : App) : Relooked disk app app :=
  ⟨.refl app, fun _ now => ⟨now, rfl⟩⟩

theorem Relooked.trans (h : Relooked disk app app') (h' : Relooked disk app' app'') :
    Relooked disk app app'' := by
  refine ⟨h.toLooked.trans h'.toLooked, fun name now => ?_⟩
  obtain ⟨once, honce⟩ := h'.total name now
  obtain ⟨once', honce'⟩ := h.total name once
  exact ⟨once', honce.trans honce'⟩

namespace App

/-- **One look.** -/
theorem relooked_withReader {α : Type} (absent : α) {ask : ClockedReader → α × ClockedReader}
    (hask : ∀ r, (ask r).2 = r.look disk) :
    Relooked disk app (app.withReader name absent ask clock).2.1 := by
  refine ⟨looked_withReader app name clock absent fun r => by rw [hask, ClockedReader.look_process],
    fun name' now => ?_⟩
  rw [withReader]
  cases hreader : app.diskReaders name with
  | none => exact ⟨now, rfl⟩
  | some reader =>
    by_cases hname : name' = name
    · subst hname
      obtain ⟨once, honce⟩ := refresh_look (clock 0) now disk reader
      refine ⟨once, ?_⟩
      simp only [diskTotal, Function.update_self, hreader, Option.elim_some, hask]
      exact DiskLogReader.total_congr honce app.streamMode
    · exact ⟨now, by simp only [diskTotal, Function.update_of_ne hname]⟩

theorem relooked_lineCountFor : Relooked disk app (app.lineCountFor disk name clock).2.1 := by
  rw [lineCountFor]
  split_ifs
  · exact .refl disk app
  · exact relooked_withReader 0 fun _ => rfl

/-- **Looking changes no total** but to that of another look. -/
theorem lineTotal_of_relooked (h : Relooked disk app app') (name : String) (now : ℕ) :
    ∃ once, app'.lineTotal disk now name = app.lineTotal disk once name := by
  obtain ⟨once, honce⟩ := h.total name now
  refine ⟨once, ?_⟩
  rw [lineTotal, lineTotal, h.filter, honce, hotLines, hotLines, h.buffers, h.streamMode, matchesOf,
    matchesOf, h.filteredIndices]

variable {height : ℕ} {window : List (LineSource × String)}

theorem relooked_visibleLines (hfilter : app.filter = none)
    (h : app.visibleLines disk name height clock = .ok (window, app', clock')) :
    Relooked disk app app' := by
  have hcount : Relooked disk app (app.totalLineCount disk name clock).2.1 :=
    relooked_withReader 0 fun _ => rfl
  have hboth : Relooked disk app ((app.totalLineCount disk name clock).2.1.diskLineCount disk name
      (app.totalLineCount disk name clock).2.2).2.1 :=
    hcount.trans (relooked_withReader 0 fun _ => rfl)
  have hread : ∀ start count, Relooked disk app
      (((app.totalLineCount disk name clock).2.1.diskLineCount disk name
        (app.totalLineCount disk name clock).2.2).2.1.diskReadRange disk name start count
        ((app.totalLineCount disk name clock).2.1.diskLineCount disk name
          (app.totalLineCount disk name clock).2.2).2.2).2.1 :=
    fun start count => hboth.trans (relooked_withReader [] fun _ => rfl)
  rw [visibleLines_eq hfilter rfl rfl rfl rfl rfl] at h
  have happ := congrArg (fun shown : Except ReadError _ => shown.map (·.2.1)) h
  simp only [Except.map] at happ
  split_ifs at happ <;> obtain rfl := Except.ok.inj happ
  · exact hcount
  · exact hboth
  · exact hread ..
  · exact hread ..

/-- **Drawing changes no total** but to that of another look. -/
theorem lineTotal_draw (h : app.draw disk height clock = .ok (window, app')) (name : String)
    (now : ℕ) : ∃ once, app'.lineTotal disk now name = app.lineTotal disk once name := by
  cases hfilter : app.filter with
  | some filter =>
    have hlooked := looked_draw h
    refine ⟨now, ?_⟩
    have hfilter' : app'.filter = some filter := hlooked.filter.trans hfilter
    rw [lineTotal, lineTotal, hfilter, hfilter', matchesOf, matchesOf, hlooked.filteredIndices]
  | none =>
    obtain ⟨clock', hshown⟩ := visibleLines_of_draw h
    have hlooked : Relooked disk { app with visibleHeight := height } app' :=
      relooked_visibleLines hfilter hshown
    exact lineTotal_of_relooked hlooked name now

end App

end Looking

/-! ## Steps that take nothing away -/

/-- No offset grows, no line is taken away, and the height stays. -/
structure NothingLost (disk : Disk) (app app' : App) : Prop where
  offset : ∀ name offset, app'.scrollOffsets name = some offset →
    offset ≤ (app.scrollOffsets name).getD 0
  total : ∀ now name, app.lineTotal disk now name ≤ app'.lineTotal disk now name
  height : app'.visibleHeight = app.visibleHeight

namespace App

section Keep

variable {disk : Disk} {app app' : App}

theorem Covered.kept (h : app.Covered (fun now name => app.lineTotal disk now name) app.visibleHeight)
    (hkept : NothingLost disk app app') :
    app'.Covered (fun now name => app'.lineTotal disk now name) app'.visibleHeight := by
  intro name offset hoffset now
  have hle := hkept.offset name offset hoffset
  have htotal := hkept.total now name
  simp only [hkept.height]
  cases hbefore : app.scrollOffsets name with
  | none =>
    rw [hbefore, Option.getD_none] at hle
    omega
  | some before =>
    have hcovered : before ≤ app.lineTotal disk now name - app.visibleHeight :=
      h name before hbefore now
    rw [hbefore, Option.getD_some] at hle
    omega

theorem kept_of_same (hoffsets : app'.scrollOffsets = app.scrollOffsets)
    (htotal : ∀ now name, app.lineTotal disk now name ≤ app'.lineTotal disk now name)
    (hheight : app'.visibleHeight = app.visibleHeight) : NothingLost disk app app' := by
  refine ⟨fun name offset hoffset => ?_, htotal, hheight⟩
  rw [hoffsets] at hoffset
  rw [hoffset, Option.getD_some]

theorem kept_refl : NothingLost disk app app := kept_of_same rfl (fun _ _ => le_rfl) rfl

/-- One offset is set, and not to a greater one. -/
theorem kept_setOffset (paused : Bool) {name : String} {offset : Option ℕ}
    (hle : ∀ n, offset = some n → n ≤ (app.scrollOffsets name).getD 0) : NothingLost disk app
      { app with paused, scrollOffsets := Function.update app.scrollOffsets name offset } := by
  refine ⟨fun name' n hoffset => ?_, fun _ _ => le_rfl, rfl⟩
  by_cases hname : name' = name
  · subst hname
    exact hle n (by simpa using hoffset)
  · simp only [Function.update_of_ne hname] at hoffset
    rw [hoffset, Option.getD_some]

theorem kept_togglePause : NothingLost disk app app.togglePause := by
  rw [togglePause]
  simp only
  split_ifs
  · exact kept_of_same rfl (fun _ _ => le_rfl) rfl
  · split
    · exact kept_of_same rfl (fun _ _ => le_rfl) rfl
    · exact kept_setOffset _ (by simp)

theorem kept_scrollToBottom : NothingLost disk app app.scrollToBottom := by
  rw [scrollToBottom]
  split
  · exact kept_refl
  · exact kept_setOffset _ (by simp)

theorem kept_scrollDownBy (lines : ℕ) : NothingLost disk app (app.scrollDownBy lines) := by
  rw [scrollDownBy]
  split
  · exact kept_refl
  · exact kept_setOffset _ (by simp)

theorem kept_selectNext : NothingLost disk app app.selectNext := by
  rw [selectNext]
  split_ifs <;> exact kept_of_same rfl (fun _ _ => le_rfl) rfl

theorem kept_selectPrev : NothingLost disk app app.selectPrev := by
  rw [selectPrev]
  split_ifs <;> exact kept_of_same rfl (fun _ _ => le_rfl) rfl

/-- **A status update** may bring readers, and with them lines. -/
theorem kept_statusUpdate (processes : List ProcessInfo) :
    NothingLost disk app ((app.addReaders processes).updateProcesses processes) := by
  have hadded : NothingLost disk app (app.addReaders processes) := by
    refine kept_of_same rfl (fun now name => ?_) rfl
    have hdisk : app.diskTotal disk now name ≤ (app.addReaders processes).diskTotal disk now name := by
      rw [diskTotal, diskTotal, addReaders_diskReaders]
      cases app.diskReaders name with
      | none => exact Nat.zero_le _
      | some reader => exact le_rfl
    cases hfilter : app.filter with
    | some filter =>
      have hfilter' : (app.addReaders processes).filter = some filter := hfilter
      rw [lineTotal, lineTotal, hfilter, hfilter']
      exact le_rfl
    | none =>
      have hfilter' : (app.addReaders processes).filter = none := hfilter
      rw [lineTotal, lineTotal, hfilter, hfilter']
      exact max_le_max_right _ hdisk
  rw [updateProcesses]
  split_ifs <;> exact ⟨hadded.offset, hadded.total, hadded.height⟩

/-- **Most events keep the pane full.** -/
theorem kept_handle (names : List String) (clocks : String → Clock) {event : AppEvent}
    (h : app.viewChange event = .keep) : NothingLost disk app (app.handle disk names clocks event).1 := by
  cases event with
  | key key =>
    rw [handle, handleKey]
    cases hmode : app.inputMode with
    | filterInput =>
      simp only [viewChange, hmode] at h
      cases haction : handleFilterKey key with
      | confirm => simp [haction] at h
      | char c => exact kept_of_same rfl (fun _ _ => le_rfl) rfl
      | backspace => exact kept_of_same rfl (fun _ _ => le_rfl) rfl
      | cancel => exact kept_of_same rfl (fun _ _ => le_rfl) rfl
    | normal =>
      simp only [viewChange, hmode] at h
      cases haction : AgentProcs.handleKey key with
      | cycleStream => simp [haction] at h
      | clearFilter => simp [haction] at h
      | scrollUp => simp [haction] at h
      | scrollToTop => simp [haction] at h
      | selectNext => exact kept_selectNext
      | selectPrev => exact kept_selectPrev
      | togglePause => exact kept_togglePause
      | scrollDown => exact kept_scrollDownBy _
      | scrollToBottom => exact kept_scrollToBottom
      | _ => exact kept_of_same rfl (fun _ _ => le_rfl) rfl
  | mouse mouse =>
    simp only [viewChange] at h
    simp only [handle, handleMouse]
    cases hkind : mouse.kind with
    | scrollUp => simp [hkind] at h
    | scrollDown => exact kept_scrollDownBy _
    | downLeft =>
      simp only
      split_ifs <;> exact kept_of_same rfl (fun _ _ => le_rfl) rfl
    | other => exact kept_refl
  | outputLine process stream line => simp [viewChange] at h
  | statusUpdate processes => exact kept_statusUpdate processes
  | outputStreamClosed => exact kept_refl

end Keep

/-! ## Scrolling up -/

section Scroll

variable {disk : Disk} {app app' : App} {clock : Clock}

theorem lineCountFor_eq (hbuf : app.Buffered) (name : String) :
    (app.lineCountFor disk name clock).1 = app.lineTotal disk (clock 0) name := by
  rw [lineCountFor, lineTotal]
  cases app.filter with
  | some filter => exact matchCount_eq name app
  | none =>
    have hdisk : (app.diskLineCount disk name clock).1 = app.diskTotal disk (clock 0) name := by
      rw [diskLineCount, withReader, diskTotal]
      cases app.diskReaders name <;> rfl
    simp only [Option.isSome_none, Bool.false_eq_true, if_false, totalLineCount, hdisk,
      hotLineCount_eq hbuf.counted]

/-- An offset is stored after a look. -/
theorem Covered.store (h : app.Covered (fun now name => app.lineTotal disk now name)
    app.visibleHeight) (hlooked : Relooked disk app app') {name : String} {offset : ℕ}
    (hoffset : ∀ now, offset ≤ app.lineTotal disk now name - app.visibleHeight) :
    ({ app' with scrollOffsets := Function.update app'.scrollOffsets name (some offset) } :
      App).Covered (fun now name => app'.lineTotal disk now name) app'.visibleHeight := by
  intro name' offset' hoffset' now
  obtain ⟨once, honce⟩ := lineTotal_of_relooked hlooked name' now
  simp only [honce, hlooked.visibleHeight]
  by_cases hname : name' = name
  · subst hname
    simp only [Function.update_self, Option.some.injEq] at hoffset'
    exact hoffset' ▸ hoffset once
  · simp only [Function.update_of_ne hname, hlooked.scrollOffsets] at hoffset'
    exact h name' offset' hoffset' once

/-- Count the lines of the selected process, and store the offset that comes of it. -/
theorem Covered.scrolled (hbuf : app.Buffered)
    (h : app.Covered (fun now name => app.lineTotal disk now name) app.visibleHeight)
    (store : String → ℕ → App → ℕ)
    (hstore : ∀ name, app.selectedName = some name → ∀ app', Relooked disk app app' → ∀ now,
      store name (app.lineTotal disk (clock 0) name) app' ≤
        app.lineTotal disk now name - app.visibleHeight) :
    let app' := match app.selectedName with
      | none => app
      | some name =>
        let counted := app.lineCountFor disk name clock
        { counted.2.1 with
          scrollOffsets := Function.update counted.2.1.scrollOffsets name
            (some (store name counted.1 counted.2.1)) }
    app'.Covered (fun now name => app'.lineTotal disk now name) app'.visibleHeight := by
  cases hname : app.selectedName with
  | none => exact h
  | some name =>
    have hlooked : Relooked disk app (app.lineCountFor disk name clock).2.1 := relooked_lineCountFor
    refine Covered.store h hlooked fun now => ?_
    rw [lineCountFor_eq hbuf]
    exact hstore name hname _ hlooked now

/-- **Scrolling up** by the lines there are keeps the pane full. -/
theorem Covered.scrollUpBy (hbuf : app.Buffered)
    (h : app.Covered (fun now name => app.lineTotal disk now name) app.visibleHeight) {lines : ℕ}
    (hgentle : ∀ name, app.selectedName = some name → ∀ now,
      app.lineTotal disk (clock 0) name ≤ app.lineTotal disk now name ∨
        (app.scrollOffsets name).getD 0 + lines ≤ app.lineTotal disk now name - app.visibleHeight) :
    (app.scrollUpBy disk lines clock).Covered
      (fun now name => (app.scrollUpBy disk lines clock).lineTotal disk now name)
      (app.scrollUpBy disk lines clock).visibleHeight := by
  refine @Covered.scrolled disk { app with paused := true } clock hbuf h (fun name count app =>
    min (min ((app.scrollOffsets name).getD 0 + lines) USIZE_MAX) (count - app.visibleHeight))
      fun name hname app' hlooked now => ?_
  have hgentle' := hgentle name hname now
  rw [hlooked.scrollOffsets, hlooked.visibleHeight]
  change min (min ((app.scrollOffsets name).getD 0 + lines) USIZE_MAX)
    (app.lineTotal disk (clock 0) name - app.visibleHeight) ≤
      app.lineTotal disk now name - app.visibleHeight
  omega

/-- **Scrolling to the top** of a pane with nothing in it. -/
theorem Covered.scrollToTop (hbuf : app.Buffered)
    (h : app.Covered (fun now name => app.lineTotal disk now name) app.visibleHeight)
    (hgentle : ∀ name, app.selectedName = some name → ∀ now,
      app.lineTotal disk (clock 0) name ≤ app.lineTotal disk now name ∧
        (app.lineTotal disk (clock 0) name = 0 ∨ app.visibleHeight = 0)) :
    (app.scrollToTop disk clock).Covered
      (fun now name => (app.scrollToTop disk clock).lineTotal disk now name)
      (app.scrollToTop disk clock).visibleHeight := by
  refine @Covered.scrolled disk { app with paused := true } clock hbuf h (fun _ count _ => count)
    fun name hname app' _ now => ?_
  have hgentle' := hgentle name hname now
  change app.lineTotal disk (clock 0) name ≤ app.lineTotal disk now name - app.visibleHeight
  omega

end Scroll

/-! ## Other views -/

section Recount

variable {disk : Disk} {app app' : App} {total remaining : ℕ → String → ℕ}

/-- **What remains covers the offsets**, as all the lines did. -/
theorem Covered.spared (h : app.Covered total app.visibleHeight)
    (hspares : app.Spares total remaining) : app.Covered remaining app.visibleHeight := by
  intro name offset hoffset now
  have hbefore := h name offset hoffset now
  have hremaining := hspares name offset hoffset now
  omega

/-- The offsets are the same, and so many lines are counted. -/
structure Recounted (app app' : App) (disk : Disk) (total : ℕ → String → ℕ) : Prop where
  scrollOffsets : app'.scrollOffsets = app.scrollOffsets
  visibleHeight : app'.visibleHeight = app.visibleHeight
  lineTotal : ∀ now name, app'.lineTotal disk now name = total now name

theorem Covered.recounted (h : app.Covered total app.visibleHeight)
    (hrecounted : Recounted app app' disk total) :
    app'.Covered (fun now name => app'.lineTotal disk now name) app'.visibleHeight := by
  intro name offset hoffset now
  rw [hrecounted.scrollOffsets] at hoffset
  simp only [hrecounted.visibleHeight, hrecounted.lineTotal]
  exact h name offset hoffset now

/-- **Indices that are rebuilt** count what there is for their filter. -/
theorem recounted_buildFilteredIndices {filter : String} {names : List String}
    {clocks : String → Clock} (hfilter : app.filter = some filter) (howned : app.Owned)
    (hnames : Enumerates names app.diskReaders) :
    Recounted app (app.buildFilteredIndices disk names clocks) disk fun now name =>
      app.available app.streamMode (some filter) disk (clocks name) now name := by
  have hreindexed := reindexed_buildFilteredIndices app disk names clocks
  refine ⟨hreindexed.scrollOffsets, hreindexed.visibleHeight, fun now name => ?_⟩
  rw [lineTotal, hreindexed.filter, hfilter]
  simp only [available, matchesOf]
  rw [buildFilteredIndices_eq disk clocks hfilter hnames.1 fun name hname =>
    (hnames.2 name).mp hname]
  cases hreader : app.diskReaders name with
  | some reader =>
    have hname : name ∈ names := (hnames.2 name).mpr (Option.isSome_of_eq_some hreader)
    simp only [hname, if_true, hreader, Option.map_some, Option.elim_some, indexFor]
  | none =>
    have hname : name ∉ names := fun hmem => by
      have := (hnames.2 name).mp hmem
      rw [hreader] at this
      exact absurd this (by simp)
    -- without a reader there was no index to begin with
    have hindex : app.filteredIndices name = none := by
      by_contra hsome
      have howner := howned name (Option.isSome_iff_ne_none.mpr hsome)
      rw [hreader] at howner
      exact absurd howner (by simp)
    simp only [hname, if_false, hindex, Option.elim_none, List.length_nil]

/-- **A push** drops at most one line that is counted, and that only if the buffer is full. -/
theorem length_hotLines_bufferOutput (process line name : String) (stream : Stream) :
    (app.hotLines name).length ≤ ((app.bufferOutput process stream line).hotLines name).length ∨
      name = process ∧ (∃ b, app.buffers process = some b ∧ b.Drops app.streamMode stream.source) ∧
        (app.hotLines name).length - 1 ≤
          ((app.bufferOutput process stream line).hotLines name).length := by
  by_cases hname : name = process
  · subst hname
    have hafter : (app.bufferOutput name stream line).hotLines name =
        (((app.buffers name).getD (.new MAX_BUFFER_LINES)).push stream.source line).linesOf
          app.streamMode := by
      simp only [bufferOutput, hotLines, Function.update_self, Option.elim_some]
    rw [hafter, hotLines]
    cases hbuf : app.buffers name with
    | none => exact .inl (Nat.zero_le _)
    | some b =>
      exact (b.length_linesOf_push app.streamMode stream.source line).imp_right fun h =>
        ⟨rfl, ⟨b, rfl, h.1⟩, h.2⟩
  · refine .inl (le_of_eq (congrArg List.length ?_))
    simp only [bufferOutput, hotLines, Function.update_of_ne hname]

/-- Without a filter, the lines counted after a push are those on disk, or in the buffer. -/
theorem lineTotal_bufferOutput (hfilter : app.filter = none) (process line : String)
    (stream : Stream) (now : ℕ) (name : String) :
    (app.bufferOutput process stream line).lineTotal disk now name =
      max (app.diskTotal disk now name)
        ((app.bufferOutput process stream line).hotLines name).length := by
  have hfilter' : (app.bufferOutput process stream line).filter = none := hfilter
  rw [lineTotal, hfilter']
  rfl

/-- A push takes one line of its process from the buffer, at most. -/
theorem length_hotLines_le (app : App) (process line : String) (stream : Stream) (name : String) :
    (app.hotLines name).length - (if name = process then 1 else 0) ≤
      ((app.bufferOutput process stream line).hotLines name).length := by
  rcases app.length_hotLines_bufferOutput process line name stream with hkept | ⟨rfl, -, hlost⟩
  · exact (Nat.sub_le ..).trans hkept
  · rwa [if_pos rfl]

/-- **A gentle push** keeps the panes full. -/
theorem Covered.pushOutput {process line : String} {stream : Stream} {clock : Clock}
    (h : app.Covered (fun now name => app.lineTotal disk now name) app.visibleHeight)
    (hgentle : app.filter = none →
      (∃ b, app.buffers process = some b ∧ b.Drops app.streamMode stream.source) →
      app.Spares (fun now name => app.lineTotal disk now name) fun now name =>
        max (app.diskTotal disk now name)
          ((app.hotLines name).length - if name = process then 1 else 0)) :
    (app.pushOutput disk process stream line clock).Covered
      (fun now name => (app.pushOutput disk process stream line clock).lineTotal disk now name)
      (app.pushOutput disk process stream line clock).visibleHeight := by
  cases hfilter : app.filter with
  | some filter =>
    have hfollowed := followed_pushOutput app disk process stream line clock
    have hreindexed := reindexed_pushOutput app disk clock process stream line
    refine Covered.kept h (kept_of_same hfollowed.scrollOffsets (fun now name => ?_)
      hreindexed.visibleHeight)
    rw [lineTotal, lineTotal, hfollowed.filter, hfilter]
    exact (hfollowed.extended name).length_le
  | none =>
    rw [pushOutput_of_none hfilter]
    by_cases hdrops : ∃ b, app.buffers process = some b ∧ b.Drops app.streamMode stream.source
    · intro name offset hoffset now
      have hremaining := Covered.spared h (hgentle hfilter hdrops) name offset hoffset now
      have hhot := app.length_hotLines_le process line stream name
      simp only [lineTotal_bufferOutput hfilter]
      exact hremaining.trans (Nat.sub_le_sub_right (max_le_max_left _ hhot) _)
    · refine Covered.kept h (kept_of_same rfl (fun now name => ?_) rfl)
      rw [lineTotal_bufferOutput hfilter, lineTotal, hfilter]
      have hhot := (app.length_hotLines_bufferOutput process line name stream).resolve_right
        fun hlost => hdrops hlost.2.1
      exact max_le_max_left _ hhot

end Recount

end App

/-! ## Every run -/

section Run

variable {t t' : Tui} {e : TuiEvent}

/-- **What an event does** to the offsets and to what is counted, unless it keeps the pane full. -/
theorem App.handle_of_viewChange {app : App} (howned : app.Owned) (disk : Disk)
    {names : List String} (hnames : Enumerates names app.diskReaders) (clocks : String → Clock)
    (event : AppEvent) :
    match app.viewChange event with
    | .keep => True
    | .up lines => (app.handle disk names clocks event).1 =
        app.scrollUpBy disk lines (app.selectedClock clocks)
    | .top => (app.handle disk names clocks event).1 =
        app.scrollToTop disk (app.selectedClock clocks)
    | .view mode filter => Recounted app (app.handle disk names clocks event).1 disk fun now name =>
        app.available mode filter disk (clocks name) now name
    | .push process source => ∃ stream line, stream.source = source ∧
        (app.handle disk names clocks event).1 =
          app.pushOutput disk process stream line (clocks process) := by
  cases event with
  | key key =>
    rw [handle, handleKey]
    cases hmode : app.inputMode with
    | filterInput =>
      simp only [viewChange, hmode]
      cases AgentProcs.handleFilterKey key with
      | confirm =>
        simp only [handleFilterAction, confirmFilter]
        split_ifs
        · exact ⟨rfl, rfl, fun _ _ => rfl⟩
        · let confirmed : App := { app with inputMode := .normal, filter := some app.filterBuf }
          have h : Recounted confirmed (confirmed.buildFilteredIndices disk names clocks) disk _ :=
            recounted_buildFilteredIndices rfl howned hnames
          exact ⟨h.scrollOffsets, h.visibleHeight, h.lineTotal⟩
      | _ => trivial
    | normal =>
      simp only [viewChange, hmode]
      cases AgentProcs.handleKey key with
      | cycleStream =>
        simp only [handleAction, cycleStreamMode]
        split_ifs with hsome
        · obtain ⟨filter, hfilter⟩ := Option.isSome_iff_exists.mp hsome
          let cycled : App := { app with streamMode := nextMode app.streamMode }
          have h : Recounted cycled (cycled.buildFilteredIndices disk names clocks) disk _ :=
            recounted_buildFilteredIndices hfilter howned hnames
          refine ⟨h.scrollOffsets, h.visibleHeight, fun now name => (h.lineTotal now name).trans ?_⟩
          rw [hfilter]
          rfl
        · have hfilter := Option.not_isSome_iff_eq_none.mp hsome
          refine ⟨rfl, rfl, fun _ _ => ?_⟩
          simp only [lineTotal, hfilter]
          rfl
      | clearFilter => exact ⟨rfl, rfl, fun _ _ => rfl⟩
      | scrollUp => rfl
      | scrollToTop => rfl
      | _ => trivial
  | mouse mouse =>
    simp only [viewChange, handle, handleMouse]
    cases mouse.kind with
    | scrollUp => rfl
    | _ => trivial
  | outputLine process stream line => exact ⟨stream, line, rfl, rfl⟩
  | statusUpdate processes => trivial
  | outputStreamClosed => trivial

/-- **One gentle step** keeps the panes full. -/
theorem Clamped.step (hbuf : t.app.Buffered) (howned : t.app.Owned) (h : Clamped t)
    (hstep : TuiStep t e t') (hgentle : Gentle t e) : Clamped t' := by
  cases hstep with
  | @handle event names clocks hrunning hnames =>
    have hhandle := t.app.handle_of_viewChange howned t.disk hnames clocks event
    simp only [Gentle] at hgentle
    have hclock : ∀ name, t.app.selectedName = some name →
        t.app.selectedClock clocks = clocks name := fun name hname => by
      rw [App.selectedClock, hname, Option.getD_some]
    cases hchange : t.app.viewChange event with
    | keep => exact App.Covered.kept h (App.kept_handle names clocks hchange)
    | up lines =>
      rw [hchange] at hhandle hgentle
      rw [Clamped, hhandle]
      exact App.Covered.scrollUpBy hbuf h fun name hname now =>
        hclock name hname ▸ hgentle name hname now
    | top =>
      rw [hchange] at hhandle hgentle
      rw [Clamped, hhandle]
      exact App.Covered.scrollToTop hbuf h fun name hname now =>
        hclock name hname ▸ hgentle name hname now
    | view mode filter =>
      rw [hchange] at hhandle hgentle
      exact App.Covered.recounted (App.Covered.spared h hgentle) hhandle
    | push process source =>
      rw [hchange] at hhandle hgentle
      obtain ⟨stream, line, rfl, hpush⟩ := hhandle
      rw [Clamped, hpush]
      exact App.Covered.pushOutput h hgentle
  | @draw height clock window app' hrunning hdrawn =>
    have hlooked := App.looked_draw hdrawn
    intro name offset hoffset now
    obtain ⟨once, honce⟩ := App.lineTotal_draw hdrawn name now
    rw [hlooked.scrollOffsets] at hoffset
    have hbefore := h name offset hoffset once
    have hrows := hgentle name offset hoffset once
    rw [hlooked.visibleHeight]
    simp only [honce] at hbefore ⊢
    omega
  | write => exact App.Covered.spared h hgentle

end Run

/-! ## Scrolling to the top -/

end AgentProcs
