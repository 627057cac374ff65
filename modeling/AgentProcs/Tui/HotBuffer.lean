import AgentProcs.Tui.Preload

/-!
# Tui/HotBuffer — when the hot buffer is the end of the disk history

    disk   … l₀ l₁ l₂ l₃ │ l₄ l₅        as far as the indexes, both streams by number
    hot          l₂ l₃     l₄ l₅        loaded file by file, then as they arrive

`visible_lines` stitches the two at `disk_count - hot_len`, which is right if the hot lines are the
last ones on disk.  They are when every one of them is indexed, was read back as printed, and they
come in the order of their numbers, behind all the others.
-/

namespace AgentProcs

namespace App

/-- The hot lines of a process in this mode. -/
def hotIn (mode : StreamMode) (name : String) (app : App) : List (LineSource × String) :=
  { app with streamMode := mode }.hotLines name

/-- Lines delivered one by one. -/
def receive (disk : Disk) (clock : Clock) (lines : List OutputLine) (app : App) : App :=
  lines.foldl (fun app o => app.pushOutput disk o.process o.stream o.line clock) app

/-- **The hot buffer stitches**: in every mode it is the end of what the reader yields. -/
def Stitches (disk : Disk) (name : String) (now : ℕ) (app : App) : Prop :=
  ∃ reader, app.diskReaders name = some reader ∧
    ∀ mode, app.hotIn mode name <:+ (reader.refresh now disk).listing disk mode

end App

/-! ## Two orders -/

/-- Where two lines stand before the sort by number. -/
def CollectedBefore (a b : LineSource × Printed) : Prop :=
  a.1 = .stdout ∧ b.1 = .stderr ∨ a.1 = b.1 ∧ a.2.Before b.2

/-- Where they stand after it. -/
def MergedBefore (a b : LineSource × Printed) : Prop :=
  a.2.entry.seq < b.2.entry.seq ∨ a.2.entry.seq = b.2.entry.seq ∧ CollectedBefore a b

/-- The lines that reach the hot buffer, as they come. -/
def incoming (name : String) (maxBytes : ℕ) (files : List FileName) (p : ProcessLogs)
    (ts : List (Transition ProcessLogs LogsEvent)) : List (LineSource × Printed) :=
  loaded name maxBytes files p ++ arrived ts

/-- **The hot lines line up with the disk.** -/
structure LinedUp (shown : LineSource → List Printed) (hot : List (LineSource × Printed)) :
    Prop where
  indexed : ∀ x ∈ hot, x.2 ∈ shown x.1
  ordered : hot.Pairwise MergedBefore
  last : ∀ source, ∀ x ∈ shown source, (source, x) ∉ hot → ∀ y ∈ hot, MergedBefore (source, x) y

theorem Printed.Before.asymm {x y : Printed} (h : x.Before y) : ¬y.Before x := by
  rcases h with hlt | ⟨heq, hlt⟩
  · rintro (hlt' | ⟨heq', -⟩) <;> omega
  · rintro (hlt' | ⟨-, hlt'⟩) <;> omega

theorem CollectedBefore.asymm {a b : LineSource × Printed} (h : CollectedBefore a b) :
    ¬CollectedBefore b a := by
  rcases h with ⟨ha, hb⟩ | ⟨heq, hlt⟩
  · rintro (⟨hb', -⟩ | ⟨heq, -⟩)
    · exact LineSource.noConfusion (hb.symm.trans hb')
    · exact LineSource.noConfusion (hb.symm.trans (heq.trans ha))
  · rintro (⟨hb, ha⟩ | ⟨-, hlt'⟩)
    · exact LineSource.noConfusion (ha.symm.trans (heq.trans hb))
    · exact hlt.asymm hlt'

theorem MergedBefore.asymm {a b : LineSource × Printed} (h : MergedBefore a b) :
    ¬MergedBefore b a := by
  rcases h with hlt | ⟨heq, hbefore⟩
  · rintro (hlt' | ⟨heq, -⟩) <;> omega
  · rintro (hlt' | ⟨-, hbefore'⟩)
    · omega
    · exact hbefore.asymm hbefore'

section Listed

variable {shown : LineSource → List Printed} {hot : List (LineSource × Printed)}
  {a : LineSource × Printed}

theorem mem_interleaved : a ∈ interleaved shown ↔ a.2 ∈ shown a.1 := by
  obtain ⟨source, x⟩ := a
  rw [interleaved, List.mem_mergeSort]
  cases source <;> simp

/-- **Both streams together** stand in merged order. -/
theorem pairwise_interleaved (h : ∀ s, (shown s).Pairwise Printed.Before) :
    (interleaved shown).Pairwise MergedBefore := by
  refine pairwise_mergeSort_lex (T := CollectedBefore) ?_ fun a ha => ha.asymm ha
  refine List.pairwise_append.mpr ⟨?_, ?_, fun a ha b hb => .inl ?_⟩
  · exact List.pairwise_map.mpr ((h .stdout).imp fun hab => .inr ⟨rfl, hab⟩)
  · exact List.pairwise_map.mpr ((h .stderr).imp fun hab => .inr ⟨rfl, hab⟩)
  · obtain ⟨x, -, rfl⟩ := List.mem_map.mp ha
    obtain ⟨y, -, rfl⟩ := List.mem_map.mp hb
    exact ⟨rfl, rfl⟩

/-- **Both streams**: the hot lines are the end of the listing if and only if they line up. -/
theorem suffix_interleaved_iff (h : ∀ s, (shown s).Pairwise Printed.Before) :
    hot <:+ interleaved shown ↔ LinedUp shown hot := by
  rw [suffix_iff_of_ordered (pairwise_interleaved h) fun a b hab => hab.asymm]
  refine ⟨fun ⟨hmem, hordered, hlast⟩ => ⟨fun x hx => mem_interleaved.mp (hmem x hx), hordered,
    fun source x hx hnot => hlast (source, x) (mem_interleaved.mpr hx) hnot⟩, fun hlined => ?_⟩
  exact ⟨fun x hx => mem_interleaved.mpr (hlined.indexed x hx), hlined.ordered,
    fun x hx hnot => hlined.last x.1 x.2 (mem_interleaved.mp hx) hnot⟩

/-- **One stream**: the end of what was written is the end of the listing if all of it is shown. -/
theorem suffix_shown {written ending shown : List Printed} (h : written.Pairwise Printed.Before)
    (hshown : shown.Sublist written) (hending : ending <:+ written)
    (hindexed : ∀ x ∈ ending, x ∈ shown) : ending <:+ shown := by
  obtain ⟨-, hordered, hlast⟩ := (suffix_iff_of_ordered h fun x y hxy => hxy.asymm).mp hending
  exact (suffix_iff_of_ordered (h.sublist hshown) fun x y hxy => hxy.asymm).mpr
    ⟨hindexed, hordered, fun x hx => hlast x (hshown.subset hx)⟩

/-- The hot lines of one stream. -/
theorem filter_stream (s : Stream) : hot.filter (·.1 = s.source) =
    (ofStream s hot).map (s.source, ·) := by
  rw [ofStream, List.map_map]
  refine ((List.map_congr_left fun x hx => ?_).trans (List.map_id _)).symm
  exact Prod.ext (of_decide_eq_true (List.mem_filter.mp hx).2).symm rfl

end Listed

/-! ## What the buffer holds -/

namespace App

section Hot

variable {name : String} {mode : StreamMode} {app : App}

/-- Without a filter, lines delivered are lines buffered. -/
theorem receive_eq (hfilter : app.filter = none) (disk : Disk) (clock : Clock)
    (lines : List OutputLine) : app.receive disk clock lines =
      (lines.map fun o => (o.process, o.stream, o.line)).foldl
        (fun app l => app.bufferOutput l.1 l.2.1 l.2.2) app := by
  rw [receive]
  induction lines generalizing app with
  | nil => rfl
  | cons o lines ih =>
    rw [List.foldl_cons, pushOutput_of_none hfilter, List.map_cons, List.foldl_cons]
    exact ih hfilter

/-- **The buffer holds the end** of the lines pushed. -/
theorem hotIn_foldl (lines : List (String × Stream × String)) :
    (lines.foldl (fun app l => app.bufferOutput l.1 l.2.1 l.2.2) app).hotIn mode name <:+
      app.hotIn mode name ++ heard name mode lines := by
  induction lines using List.reverseRecOn with
  | nil => exact (List.append_nil _).symm ▸ List.suffix_refl _
  | append_singleton lines l ih =>
    rw [List.foldl_append, heard_append, ← List.append_assoc]
    generalize lines.foldl (fun app l => app.bufferOutput l.1 l.2.1 l.2.2) app = before at ih ⊢
    have hpush := hotLines_bufferOutput { before with streamMode := mode } l.1 l.2.1 l.2.2 name
    refine hpush.trans ?_
    have hone : heard name mode [l] =
        if l.1 = name ∧ mode.shows l.2.1.source then [(l.2.1.source, l.2.2)] else [] := by
      rw [heard, List.filterMap_cons, List.filterMap_nil]
      split_ifs <;> rfl
    rw [hone]
    exact List.suffix_append_self_iff.mpr ih

/-- A reader is created for each process that has a log. -/
theorem foldl_readers {entries : List ((String × Stream) × FileName)}
    {readers : String → Option DiskLogReader} (h : (∃ e ∈ entries, e.1.1 = name) ∨
      readers name = some (.new name)) :
    entries.foldl (fun (readers : String → Option DiskLogReader) e =>
      Function.update readers e.1.1 (some (.new e.1.1))) readers name = some (.new name) := by
  induction entries generalizing readers with
  | nil => exact h.resolve_left fun ⟨_, he, _⟩ => List.not_mem_nil he
  | cons e entries ih =>
    refine ih ?_
    by_cases hname : e.1.1 = name
    · subst hname
      exact .inr (Function.update_self ..)
    · refine h.imp (fun ⟨e', he', hname'⟩ => ⟨e', (List.mem_cons.mp he').resolve_left ?_, hname'⟩)
        (Function.update_of_ne (Ne.symm hname) _ _).trans
      rintro rfl
      exact hname hname'

theorem diskReaders_initDiskReaders {files : List FileName} {disk : Disk} {s : Stream}
    (hmem : logPathOf name s ∈ files) :
    (App.new.initDiskReaders files disk).diskReaders name = some (.new name) := by
  rw [initDiskReaders_eq]
  obtain ⟨buffers, hbuffers⟩ := foldl_bufferOutput { App.new with
    diskReaders := (logEntries files).foldl (fun readers e =>
      Function.update readers e.1.1 (some (.new e.1.1))) fun _ => none }
    (preloaded disk (logEntries files))
  rw [hbuffers]
  refine foldl_readers (.inl ⟨((name, s), logPathOf name s), ?_, rfl⟩)
  exact List.mem_filterMap.mpr ⟨_, hmem, by rw [currentLog_eq_some.mpr rfl]; rfl⟩

end Hot

end App

/-! ## Watching a process -/

section Watch

variable {name : String} {maxBytes : ℕ} {files : List FileName} {p p' : ProcessLogs}
  {ts : List (Transition ProcessLogs LogsEvent)} {mode : StreamMode} {s : Stream}

/-- The current logs of a process are in the directory. -/
theorem logPathOf_mem {directory : Disk → Prop} {maxRotatedFiles : ℕ}
    (h : (processLogs name maxBytes maxRotatedFiles directory).Reachable p)
    (hfiles : Lists files p.shared.disk) (s : Stream) : logPathOf name s ∈ files := by
  have hsound : LogsSound False name maxBytes maxRotatedFiles p :=
    LogsSound.of_reachable False.elim False.elim False.elim h
  obtain ⟨k, cur, old, hlog⟩ := hsound.log s
  obtain ⟨i, -, hdir⟩ := hlog.head.file
  exact (hfiles.2 _).mpr (hdir ▸ rfl)

/-- **A process that is watched**: its logs when the interface starts, as the directory lists them,
and what is captured after.  It is not called `.`: of such a process the reader never finds all. -/
structure Watching (name : String) (maxBytes : ℕ) (files : List FileName) (p : ProcessLogs)
    (ts : List (Transition ProcessLogs LogsEvent)) (p' : ProcessLogs) : Prop where
  reachable : (processLogs name maxBytes DEFAULT_MAX_ROTATED_FILES (NoLogs name)).Reachable p
  lists : Lists files p.shared.disk
  run : (processLogs name maxBytes DEFAULT_MAX_ROTATED_FILES (NoLogs name)).Run p ts p'
  newlineFree : ∀ s, ∀ x ∈ p'.written s, NewlineFree x.entry.line
  fits : FitsMemory ((p'.shown name .stdout).length + (p'.shown name .stderr).length)
  named : name ≠ "."

namespace Watching

theorem sound (h : Watching name maxBytes files p ts p') :
    LogsSound False name maxBytes DEFAULT_MAX_ROTATED_FILES p' :=
  LogsSound.of_reachable False.elim False.elim False.elim (h.reachable.run h.run)

theorem extends_arrived (h : Watching name maxBytes files p ts p') :
    Extends name p (arrived ts) p' := extends_run h.reachable h.run

theorem newlineFree_start (h : Watching name maxBytes files p ts p') (s : Stream) :
    ∀ x ∈ p.written s, NewlineFree x.entry.line := fun x hx =>
  h.newlineFree s x (h.extends_arrived.written s ▸ List.mem_append_left _ hx)

/-- What a reader that looks for the first time yields. -/
theorem listing (h : Watching name maxBytes files p ts p') (now : ℕ) (mode : StreamMode) :
    ((DiskLogReader.new name).refresh now p'.shared.disk).listing p'.shared.disk mode =
      (listed (p'.shown name) mode).map tagged :=
  (yields_of_reachable h.named (h.reachable.run h.run) h.newlineFree h.fits (r := .new name) rfl
    nofun mode).listing

end Watching

/-- **Of each stream** the buffer gets the last lines written. -/
theorem ofStream_incoming_suffix (h : Watching name maxBytes files p ts p')
    (s : Stream) : ofStream s (incoming name maxBytes files p ts) <:+ p'.written s := by
  have hsound : LogsSound False name maxBytes DEFAULT_MAX_ROTATED_FILES p :=
    LogsSound.of_reachable False.elim False.elim False.elim h.reachable
  rw [incoming, ofStream_append, ofStream_loaded h.lists.1 (logPathOf_mem h.reachable h.lists s),
    h.extends_arrived.written]
  exact List.suffix_append_self_iff.mpr
    ((List.drop_suffix _ _).trans (current_suffix hsound.drawn maxBytes s))

theorem mem_written_of_mem_incoming (h : Watching name maxBytes files p ts p')
    {x : LineSource × Printed} (hx : x ∈ incoming name maxBytes files p ts) :
    x.2 ∈ p'.written x.1.stream := by
  refine (ofStream_incoming_suffix h _).subset (List.mem_map_of_mem ?_)
  exact List.mem_filter.mpr ⟨hx, decide_eq_true (LineSource.source_stream x.1).symm⟩

/-- **Hot lines that line up** are the end of every listing. -/
theorem suffix_listed (h : Watching name maxBytes files p ts p')
    (hlined : LinedUp (p'.shown name) (incoming name maxBytes files p ts)) (mode : StreamMode) :
    (incoming name maxBytes files p ts).filter (fun x => mode.shows x.1) <:+
      listed (p'.shown name) mode := by
  have hordered : ∀ source, (p'.shown name source).Pairwise Printed.Before := fun source =>
    (h.sound.drawn.ordered _).sublist (shown_suffix name p' source)
  have hstream : ∀ s : Stream, (incoming name maxBytes files p ts).filter (·.1 = s.source) <:+
      (p'.shown name s.source).map (s.source, ·) := by
    intro s
    rw [filter_stream]
    refine List.IsSuffix.map _ (suffix_shown (h.sound.drawn.ordered s) ?_
      (ofStream_incoming_suffix h s) fun x hx => ?_)
    · have hshown := shown_suffix name p' s.source
      rwa [Stream.stream_source] at hshown
    · obtain ⟨y, hy, rfl⟩ := List.mem_map.mp hx
      obtain ⟨hy, hsource⟩ := List.mem_filter.mp hy
      exact of_decide_eq_true hsource ▸ hlined.indexed y hy
  have hmode : ∀ s : Stream, (∀ source, mode.shows source = decide (source = s.source)) →
      (incoming name maxBytes files p ts).filter (fun x => mode.shows x.1) =
        (incoming name maxBytes files p ts).filter (·.1 = s.source) := fun s hshows =>
    List.filter_congr fun x _ => hshows x.1
  cases mode with
  | stdout =>
    rw [hmode .stdout fun source => by cases source <;> rfl]
    exact hstream .stdout
  | stderr =>
    rw [hmode .stderr fun source => by cases source <;> rfl]
    exact hstream .stderr
  | both =>
    have hall : (incoming name maxBytes files p ts).filter (fun x => StreamMode.both.shows x.1) =
        incoming name maxBytes files p ts := List.filter_eq_self.mpr fun _ _ => rfl
    rw [hall]
    exact (suffix_interleaved_iff hordered).mpr hlined

theorem heard_arrived (lines : List (LineSource × Printed)) : heard name mode
    ((lines.map (broadcastOf name)).map fun o => (o.process, o.stream, o.line)) =
      (lines.filter fun x => mode.shows x.1).map tagged := by
  rw [heard, List.map_map, List.filterMap_map, ← List.filterMap_eq_map, List.filterMap_filter]
  refine List.filterMap_congr fun x _ => ?_
  simp [broadcastOf, tagged]

/-- A line without a carriage return at its end is read back as it was printed. -/
theorem reread_of_plain {x : LineSource × Printed}
    (h : x.2.entry.line.toList.getLast? ≠ some '\r') : reread x = tagged x := by
  rw [reread, withoutReturn, if_neg h]
  rfl

/-- The interface, started on the logs and fed with what is captured after. -/
def watched (files : List FileName) (p p' : ProcessLogs) (disk : Disk)
    (clock : Clock) : App :=
  (App.new.initDiskReaders files p.shared.disk).receive disk clock
    (p'.shared.sent.drop p.shared.sent.length)

/-- **The hot buffer is aligned**: what was loaded has no carriage return at its end, and all of it
lines up with the disk. -/
structure Aligned (name : String) (maxBytes : ℕ) (files : List FileName) (p : ProcessLogs)
    (ts : List (Transition ProcessLogs LogsEvent)) (p' : ProcessLogs) : Prop where
  plain : ∀ x ∈ loaded name maxBytes files p, x.2.entry.line.toList.getLast? ≠ some '\r'
  linedUp : LinedUp (p'.shown name) (incoming name maxBytes files p ts)

/-- The lines pushed since the interface started. -/
def pushes (name : String) (files : List FileName) (p : ProcessLogs)
    (ts : List (Transition ProcessLogs LogsEvent)) : List (String × Stream × String) :=
  App.preloaded p.shared.disk (App.logEntries files) ++
    ((arrived ts).map (broadcastOf name)).map fun o => (o.process, o.stream, o.line)

theorem heard_pushes (h : Watching name maxBytes files p ts p') :
    heard name mode (pushes name files p ts) =
      ((loaded name maxBytes files p).filter fun x => mode.shows x.1).map reread ++
        ((arrived ts).filter fun x => mode.shows x.1).map tagged := by
  rw [pushes, heard_append, heard_preloaded h.reachable h.newlineFree_start, heard_arrived]

/-- The interface has a reader for the process, and has pushed the lines into an empty buffer. -/
theorem watched_eq (h : Watching name maxBytes files p ts p')
    (disk : Disk) (clock : Clock) :
    (watched files p p' disk clock).diskReaders name = some (.new name) ∧
      ∃ app : App, app.buffers = (fun _ => none) ∧ watched files p p' disk clock =
        (pushes name files p ts).foldl (fun app l => app.bufferOutput l.1 l.2.1 l.2.2) app := by
  have hfilter : (App.new.initDiskReaders files p.shared.disk).filter = none := by
    obtain ⟨diskReaders, buffers, happ⟩ := App.exists_initDiskReaders files p.shared.disk
    rw [happ]
    rfl
  rw [watched, App.receive_eq hfilter, h.extends_arrived.sent, List.drop_left]
  refine ⟨?_, _, ?_, by rw [pushes, List.foldl_append, App.initDiskReaders_eq]⟩
  · obtain ⟨buffers, hbuffers⟩ := App.foldl_bufferOutput
      (App.new.initDiskReaders files p.shared.disk)
      (((arrived ts).map (broadcastOf name)).map fun o => (o.process, o.stream, o.line))
    rw [hbuffers]
    exact App.diskReaders_initDiskReaders (logPathOf_mem h.reachable h.lists .stdout)
  · rfl

/-- **An aligned buffer stitches.** -/
theorem stitches_of_aligned (h : Watching name maxBytes files p ts p')
    (haligned : Aligned name maxBytes files p ts p') (disk : Disk) (clock : Clock) (now : ℕ) :
    (watched files p p' disk clock).Stitches p'.shared.disk name now := by
  obtain ⟨hreader, app, hempty, happ⟩ := watched_eq h disk clock
  refine ⟨.new name, hreader, fun mode => ?_⟩
  have hnone : app.hotIn mode name = [] := by
    rw [App.hotIn, App.hotLines, hempty]
    rfl
  have hplain : ((loaded name maxBytes files p).filter fun x => mode.shows x.1).map reread =
      ((loaded name maxBytes files p).filter fun x => mode.shows x.1).map tagged :=
    List.map_congr_left fun x hx => reread_of_plain (haligned.plain x (List.mem_filter.mp hx).1)
  rw [h.listing, happ]
  refine (App.hotIn_foldl _).trans ?_
  rw [hnone, List.nil_append, heard_pushes h, hplain, ← List.map_append, ← List.filter_append]
  exact (suffix_listed h haligned.linedUp mode).map tagged

/-! ## The other direction -/

/-- What is left of a line without the carriage returns at its end, backwards. -/
def bare (line : String) : List Char := line.toList.reverse.dropWhile (· = '\r')

theorem bare_withoutReturn (line : String) : bare (withoutReturn line) = bare line := by
  rw [withoutReturn]
  split_ifs with hlast
  · obtain ⟨cs, hcs⟩ := List.getLast?_eq_some_iff.mp hlast
    rw [bare, bare, String.toList_ofList, hcs, List.dropLast_concat, List.reverse_append,
      List.reverse_singleton, List.singleton_append]
    rfl
  · rfl

/-- No two lines of a stream read the same, whatever their ends of line. -/
def Legible (p : ProcessLogs) : Prop :=
  ∀ s, ∀ x ∈ p.written s, ∀ y ∈ p.written s, bare x.entry.line = bare y.entry.line → x = y

theorem eq_of_map_eq {α β : Type} {f : α → β} {P : α → Prop}
    (hinj : ∀ x, P x → ∀ y, P y → f x = f y → x = y) {l m : List α} (hl : ∀ x ∈ l, P x)
    (hm : ∀ x ∈ m, P x) (h : l.map f = m.map f) : l = m := by
  induction l generalizing m with
  | nil => exact (List.map_eq_nil_iff.mp h.symm).symm
  | cons x l ih =>
    cases m with
    | nil => cases h
    | cons y m =>
      obtain ⟨hx, hl⟩ := List.forall_mem_cons.mp hl
      obtain ⟨hy, hm⟩ := List.forall_mem_cons.mp hm
      obtain ⟨hxy, hlm⟩ := List.cons.inj h
      rw [hinj x hx y hy hxy, ih hl hm hlm]

/-- The buffer of a process, an empty one if there is none. -/
def App.bufferOf (name : String) (app : App) : OutputBuffer :=
  (app.buffers name).getD (.new MAX_BUFFER_LINES)

theorem hotIn_both (app : App) : app.hotIn .both name = (app.bufferOf name).lines := by
  rw [App.hotIn, App.hotLines, App.bufferOf]
  cases app.buffers name <;> rfl

/-- While there is room, the buffer drops nothing. -/
theorem lines_foldl {app : App} (lines : List (String × Stream × String))
    (hmax : (app.bufferOf name).maxLines = MAX_BUFFER_LINES)
    (hroom : ((app.bufferOf name).lines ++ heard name .both lines).length ≤ MAX_BUFFER_LINES) :
    ((lines.foldl (fun app l => app.bufferOutput l.1 l.2.1 l.2.2) app).bufferOf name).lines =
      (app.bufferOf name).lines ++ heard name .both lines := by
  induction lines generalizing app with
  | nil => exact (List.append_nil _).symm
  | cons l lines ih =>
    rw [List.foldl_cons, ← List.singleton_append, heard_append, ← List.append_assoc]
    rw [← List.singleton_append, heard_append, ← List.append_assoc] at hroom
    by_cases hname : l.1 = name
    · have hone : heard name .both [l] = [(l.2.1.source, l.2.2)] :=
        List.filterMap_cons_some (if_pos ⟨hname, rfl⟩)
      have hbuffer : (app.bufferOutput l.1 l.2.1 l.2.2).bufferOf name =
          (app.bufferOf name).push l.2.1.source l.2.2 := by
        subst hname
        rw [App.bufferOf, App.bufferOutput]
        simp only [Function.update_self]
        rfl
      have hlines : ((app.bufferOutput l.1 l.2.1 l.2.2).bufferOf name).lines =
          (app.bufferOf name).lines ++ heard name .both [l] := by
        rw [hone, List.length_append, List.length_append, List.length_singleton] at hroom
        rw [hbuffer, hone, OutputBuffer.lines_push, ringPush_of_lt (by omega)]
      rw [← hlines] at hroom ⊢
      exact ih (by rw [hbuffer, OutputBuffer.maxLines_push, hmax]) hroom
    · have hone : heard name .both [l] = [] :=
        List.filterMap_cons_none (if_neg fun h => hname h.1)
      have hbuffer : (app.bufferOutput l.1 l.2.1 l.2.2).bufferOf name = app.bufferOf name := by
        rw [App.bufferOf, App.bufferOutput]
        simp only [Function.update_of_ne (Ne.symm hname)]
        rfl
      rw [hone, List.append_nil, ← hbuffer] at hroom ⊢
      exact ih (hbuffer ▸ hmax) hroom

/-- **A buffer that stitches is aligned**, if no two lines of a stream read the same and nothing was
dropped. -/
theorem aligned_of_stitches (h : Watching name maxBytes files p ts p')
    (hlegible : Legible p') (hroom : (incoming name maxBytes files p ts).length ≤ MAX_BUFFER_LINES)
    {disk : Disk} {clock : Clock} {now : ℕ}
    (hstitches : (watched files p p' disk clock).Stitches p'.shared.disk name now) :
    Aligned name maxBytes files p ts p' := by
  obtain ⟨hreader, app, hempty, happ⟩ := watched_eq h disk clock
  obtain ⟨reader, hown, hsuffix⟩ := hstitches
  obtain rfl : .new name = reader := Option.some.inj (hreader.symm.trans hown)
  have hbuffer : (app.bufferOf name) = .new MAX_BUFFER_LINES := by rw [App.bufferOf, hempty]; rfl
  have hheard : heard name .both (pushes name files p ts) =
      (loaded name maxBytes files p).map reread ++ (arrived ts).map tagged := by
    rw [heard_pushes h]
    simp only [StreamMode.shows, List.filter_true]
  have hhot : (loaded name maxBytes files p).map reread ++ (arrived ts).map tagged <:+
      (interleaved (p'.shown name)).map tagged := by
    have hboth := hsuffix .both
    rw [h.listing, happ, hotIn_both, lines_foldl _ (by rw [hbuffer]; rfl), hbuffer,
      hheard] at hboth
    · exact hboth
    · rw [hbuffer, hheard]
      simpa [OutputBuffer.new, incoming] using hroom
  -- ends of line apart, the buffer reads like the end of the listing, and so is it
  have hsame : incoming name maxBytes files p ts <:+ interleaved (p'.shown name) := by
    have hread : ((loaded name maxBytes files p).map reread ++ (arrived ts).map tagged).map
        (fun y => (y.1, bare y.2)) =
          (incoming name maxBytes files p ts).map fun x => (x.1, bare x.2.entry.line) := by
      rw [incoming, List.map_append, List.map_append, List.map_map, List.map_map]
      refine congrArg (· ++ _) (List.map_congr_left fun x _ => ?_)
      exact Prod.ext rfl (bare_withoutReturn _)
    have hbare := hhot.map fun y : LineSource × String => (y.1, bare y.2)
    rw [hread, List.map_map, List.suffix_iff_eq_drop, ← List.map_drop] at hbare
    have heq : incoming name maxBytes files p ts = _ :=
      eq_of_map_eq (P := fun x => x.2 ∈ p'.written x.1.stream) (fun x hx y hy hxy => ?_)
        (fun x hx => mem_written_of_mem_incoming h hx)
        (fun x hx => (shown_suffix name p' x.1).subset
          (mem_interleaved.mp (List.mem_of_mem_drop hx))) hbare
    · exact heq ▸ List.drop_suffix _ _
    · obtain ⟨hsource, htext⟩ := Prod.mk.inj hxy
      exact Prod.ext hsource (hlegible x.1.stream x.2 hx y.2 (hsource ▸ hy) htext)
  have hordered : ∀ source, (p'.shown name source).Pairwise Printed.Before := fun source =>
    (h.sound.drawn.ordered _).sublist (shown_suffix name p' source)
  refine ⟨fun x hx hlast => ?_, (suffix_interleaved_iff hordered).mp hsame⟩
  -- the same end of the listing, as it was read back and as it was printed
  have htexts : (loaded name maxBytes files p).map reread ++ (arrived ts).map tagged =
      (incoming name maxBytes files p ts).map tagged := by
    refine (List.suffix_of_suffix_length_le hhot (hsame.map tagged) ?_).eq_of_length ?_
    all_goals simp [incoming]
  rw [incoming, List.map_append] at htexts
  have hloaded := List.append_inj_left htexts (by rw [List.length_map, List.length_map])
  have htext : withoutReturn x.2.entry.line = x.2.entry.line :=
    congrArg Prod.snd (List.map_inj_left.mp hloaded x hx)
  have hlength := congrArg (fun line : String => line.toList.length) htext
  simp only [withoutReturn, if_pos hlast, String.toList_ofList, List.length_dropLast] at hlength
  have hpos : 0 < x.2.entry.line.toList.length :=
    List.length_pos_iff.mpr fun hnil => by rw [hnil] at hlast; cases hlast
  omega

/-- **When the hot buffer is the end of the disk history**, in every mode: if it is aligned; and
only then, where no two lines of a stream read the same. -/
theorem stitches_iff_aligned (h : Watching name maxBytes files p ts p')
    (hroom : (incoming name maxBytes files p ts).length ≤ MAX_BUFFER_LINES)
    (disk : Disk) (clock : Clock) (now : ℕ) :
    (Aligned name maxBytes files p ts p' →
      (watched files p p' disk clock).Stitches p'.shared.disk name now) ∧
    (Legible p' → (watched files p p' disk clock).Stitches p'.shared.disk name now →
      Aligned name maxBytes files p ts p') :=
  ⟨fun haligned => stitches_of_aligned h haligned disk clock now,
    fun hlegible => aligned_of_stitches h hlegible hroom⟩

end Watch

/-! ## A line that is not indexed yet -/

/-- What is in the directory when the captures of `web` have opened its logs. -/
def webFiles : List FileName :=
  [logPathOf "web" .stdout, idxPathFor (logPathOf "web" .stdout), logPathOf "web" .stderr,
    idxPathFor (logPathOf "web" .stderr)]

theorem lists_webFiles : Lists webFiles webLogs.shared.disk := by
  refine ⟨by decide, fun name => ?_⟩
  have hdir : webLogs.shared.disk.dir = Function.update (Function.update (Function.update
      (Function.update (fun _ => none) (logPathOf "web" .stdout) (some 0))
        (idxPathFor (logPathOf "web" .stdout)) (some 1)) (logPathOf "web" .stderr) (some 2))
          (idxPathFor (logPathOf "web" .stderr)) (some 3) := rfl
  rw [hdir]
  simp only [webFiles, Function.update_apply, List.mem_cons, List.not_mem_nil, or_false]
  split_ifs <;> simp_all

/-- `web` prints `a`. -/
def printingA : ProcessLogs :=
  webLogs.emit (.of "web" .stdout DEFAULT_MAX_LOG_BYTES DEFAULT_MAX_ROTATED_FILES) .stdout "a"

/-- Its transition. -/
def printsA : Transition ProcessLogs LogsEvent := ⟨webLogs, .write .stdout "a", printingA⟩

theorem run_printingA : (processLogs "web" DEFAULT_MAX_LOG_BYTES DEFAULT_MAX_ROTATED_FILES
    (NoLogs "web")).Run webLogs ([] ++ [printsA]) printingA :=
  Machine.Run.refl.snoc (@LogsStep.write _ _ _ _ .stdout "a" rfl rfl (by decide +kernel))

/-- Nothing was there to load. -/
theorem incoming_webLogs (ts : List (Transition ProcessLogs LogsEvent)) :
    incoming "web" DEFAULT_MAX_LOG_BYTES webFiles webLogs ts = arrived ts := by
  have hloaded : loaded "web" DEFAULT_MAX_LOG_BYTES webFiles webLogs = [] := by decide +kernel
  rw [incoming, hloaded, List.nil_append]

theorem written_printingA (s : Stream) : ∀ x ∈ printingA.written s, x = ⟨0, "a", 0⟩ := by
  have hstdout : printingA.written .stdout = [⟨0, "a", 0⟩] := by decide +kernel
  have hstderr : printingA.written .stderr = [] := by decide +kernel
  cases s with
  | stdout =>
    rw [hstdout]
    exact fun x hx => List.mem_singleton.mp hx
  | stderr =>
    rw [hstderr]
    exact fun x hx => absurd hx List.not_mem_nil

theorem newlineFree_printingA (s : Stream) : ∀ x ∈ printingA.written s, NewlineFree x.entry.line :=
  fun x hx => by
    rw [written_printingA s x hx]
    decide +kernel

/-- Standard error prints `b` after it, and both captures end. -/
def printedAB : ProcessLogs :=
  ((printingA.emit (.of "web" .stderr DEFAULT_MAX_LOG_BYTES DEFAULT_MAX_ROTATED_FILES) .stderr
    "b").finish .stdout).finish .stderr

theorem run_printedAB : ∃ ts, (processLogs "web" DEFAULT_MAX_LOG_BYTES DEFAULT_MAX_ROTATED_FILES
    (NoLogs "web")).Run printingA ts printedAB ∧ arrived ts = [(.stderr, ⟨0, "b", 1⟩)] := by
  have hb : (processLogs "web" DEFAULT_MAX_LOG_BYTES DEFAULT_MAX_ROTATED_FILES
      (NoLogs "web")).Run printingA _ _ :=
    Machine.Run.refl.snoc (@LogsStep.write _ _ _ _ .stderr "b" rfl rfl (by decide +kernel))
  have hend := (hb.snoc (@LogsStep.finish _ _ _ _ .stdout rfl rfl)).snoc
    (@LogsStep.finish _ _ _ _ .stderr rfl rfl)
  exact ⟨_, hend, by decide +kernel⟩

/-- `a` is loaded at the start, `b` is received; once both are indexed the hot buffer stitches. -/
theorem stitches_iff_aligned_indexed :
    (watched webFiles printingA printedAB webLogs.shared.disk fun _ => 0).Stitches
      printedAB.shared.disk "web" 0 := by
  have hout : printedAB.shown "web" .stdout = [⟨0, "a", 0⟩] := by decide +kernel
  have herr : printedAB.shown "web" .stderr = [⟨0, "b", 1⟩] := by decide +kernel
  have hloaded : loaded "web" DEFAULT_MAX_LOG_BYTES webFiles printingA =
      [(.stdout, ⟨0, "a", 0⟩)] := by decide +kernel
  have hfree : ∀ s, ∀ x ∈ printedAB.written s, NewlineFree x.entry.line := fun s => by
    cases s <;> decide +kernel
  obtain ⟨ts, hrun, harrived⟩ := run_printedAB
  have hincoming : incoming "web" DEFAULT_MAX_LOG_BYTES webFiles printingA ts =
      [(.stdout, ⟨0, "a", 0⟩), (.stderr, ⟨0, "b", 1⟩)] := by
    rw [incoming, hloaded, harrived]
    rfl
  have hstart : (processLogs "web" DEFAULT_MAX_LOG_BYTES DEFAULT_MAX_ROTATED_FILES
      (NoLogs "web")).Reachable printingA := reachable_webLogs.run run_printingA
  refine (stitches_iff_aligned ⟨hstart, lists_webFiles, hrun, hfree, by rw [hout, herr]; decide,
    by decide⟩ (by rw [hincoming]; decide) _ _ _).1 ⟨?_, ?_⟩
  · rw [hloaded]
    intro x hx
    rw [List.mem_singleton.mp hx]
    decide +kernel
  · rw [hincoming]
    refine ⟨fun x hx => ?_, ?_, fun source x hx hnot => ?_⟩
    · simp only [List.mem_cons, List.not_mem_nil, or_false] at hx
      obtain rfl | rfl := hx
      · rw [hout]
        exact List.mem_singleton_self _
      · rw [herr]
        exact List.mem_singleton_self _
    · exact List.pairwise_pair.mpr (.inl Nat.zero_lt_one)
    · cases source with
      | stdout =>
        rw [hout] at hx
        exact absurd (List.mem_singleton.mp hx ▸ List.mem_cons_self) hnot
      | stderr =>
        rw [herr] at hx
        exact absurd (List.mem_singleton.mp hx ▸ List.mem_cons_of_mem _ List.mem_cons_self) hnot

/-- The hot buffer is always the end of the disk history. -/
def AlwaysStitches : Prop :=
  ∀ name maxBytes files p ts p' disk clock now,
    Watching name maxBytes files p ts p' →
    (incoming name maxBytes files p ts).length ≤ MAX_BUFFER_LINES →
    (watched files p p' disk clock).Stitches p'.shared.disk name now

/-- **It is not**: `a` is in the buffer, and no reader yields it before it is indexed. -/
theorem not_alwaysStitches : ¬AlwaysStitches := by
  intro hstitches
  have hout : printingA.shown "web" .stdout = [] := by decide +kernel
  have herr : printingA.shown "web" .stderr = [] := by decide +kernel
  have hincoming : incoming "web" DEFAULT_MAX_LOG_BYTES webFiles webLogs ([] ++ [printsA]) =
      [(.stdout, ⟨0, "a", 0⟩)] := incoming_webLogs _
  have hwatching : Watching "web" DEFAULT_MAX_LOG_BYTES webFiles webLogs ([] ++ [printsA])
      printingA := ⟨reachable_webLogs, lists_webFiles, run_printingA, newlineFree_printingA, by
    rw [hout, herr]
    decide, by decide⟩
  have hroom : (incoming "web" DEFAULT_MAX_LOG_BYTES webFiles webLogs ([] ++ [printsA])).length ≤
      MAX_BUFFER_LINES := by
    rw [hincoming]
    decide
  have hlegible : Legible printingA := fun s x hx y hy _ =>
    (written_printingA s x hx).trans (written_printingA s y hy).symm
  have haligned := aligned_of_stitches hwatching hlegible hroom
    (hstitches _ _ _ _ _ _ webLogs.shared.disk (fun _ => 0) 0 hwatching hroom)
  have hshown := haligned.linedUp.indexed (.stdout, ⟨0, "a", 0⟩) (by rw [hincoming]; simp)
  rw [hout] at hshown
  cases hshown

end AgentProcs
