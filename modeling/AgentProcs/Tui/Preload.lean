import AgentProcs.Logs.Arrivals
import AgentProcs.Logs.ReadPaths
import AgentProcs.Tui.Frozen

/-!
# Tui/Preload — which lines the interface loads when it starts

    web.stdout   a₀ a₁ … aₙ      ─┐
    db.stdout    …                ├─ init_disk_readers ──▸  aₙ₋₉₉₉ … aₙ  b₀ … bₘ
    web.stderr   b₀ … bₘ         ─┘

Of each current log file the last thousand lines are loaded, file by file as the directory lists
them.  A line comes back as it was printed, less one carriage return at its end.
-/

namespace AgentProcs

/-! ## The end of a file -/

/-- The lines of a stream that are loaded. -/
def ProcessLogs.tail (maxBytes : ℕ) (s : Stream) (p : ProcessLogs) : List Printed :=
  (p.current maxBytes s).drop ((p.current maxBytes s).length - PRELOAD_LINES)

/-- A line as it is loaded. -/
def reread (x : LineSource × Printed) : LineSource × String := (x.1, withoutReturn x.2.entry.line)

section Files

variable {name : String} {maxBytes maxRotatedFiles : ℕ} {directory : Disk → Prop}
  {p : ProcessLogs} {s : Stream}

/-- **The end of a current log file**, read back. -/
theorem tailFile_logPathOf
    (h : (processLogs name maxBytes maxRotatedFiles directory).Reachable p)
    (hfree : ∀ x ∈ p.written s, NewlineFree x.entry.line) :
    tailFile (logPathOf name s) PRELOAD_LINES p.shared.disk =
      some ((p.tail maxBytes s).map fun x => withoutReturn x.entry.line) := by
  have hsound : LogsSound False name maxBytes maxRotatedFiles p :=
    LogsSound.of_reachable False.elim False.elim False.elim h
  have hnewest : ∀ e ∈ p.newest maxBytes s, NewlineFree e.line := fun e he =>
    hfree _ ((current_suffix hsound.drawn maxBytes s).subset (List.mem_map_of_mem he))
  have hraw : splitLines NEWLINE ((p.newest maxBytes s).flatMap Entry.bytes) =
      (p.newest maxBytes s).map fun e => utf8 e.line ++ [NEWLINE] :=
    splitLines_text (s := ⟨0, p.newest maxBytes s⟩) hnewest
  have hlines : (splitLines NEWLINE ((p.newest maxBytes s).flatMap Entry.bytes)).mapM decodeLine =
      some ((p.newest maxBytes s).map fun e => withoutReturn e.line) := by
    rw [hraw]
    exact mapM_map_pure fun e _ => decodeLine_utf8 e.line
  rw [tailFile, if_neg (by decide), read_newest h s]
  simp only [Option.bind_eq_bind, Option.bind_some, Content.bytes, hlines]
  rw [ProcessLogs.tail, ProcessLogs.current, List.length_map, List.length_map, ← List.map_drop,
    ← List.map_drop, List.map_map]
  rfl

/-! ## The files in their order -/

/-- A current log file is named after its process and stream. -/
theorem currentLog_eq_some {file : FileName} :
    currentLog file = some (name, s) ↔ file = logPathOf name s := by
  have hstem : ∀ t : Stream, '.' :: t.extension <:+ logPathOf name s → t = s := by
    intro t ht
    have heq := List.IsSuffix.eq_of_length ((List.suffix_of_suffix_length_le ht
      (List.suffix_append name.toList ('.' :: s.extension)) (by cases t <;> cases s <;> decide)))
      (by cases t <;> cases s <;> rfl)
    cases t <;> cases s <;> first | rfl | exact absurd heq (by decide)
  have hname : ∀ t : Stream, String.ofList ((logPathOf name t).take
      ((logPathOf name t).length - ('.' :: t.extension).length)) = name := fun t => by
    rw [logPathOf, List.length_append, Nat.add_sub_cancel, List.take_left, String.ofList_toList]
  have hpath : ∀ t : Stream, '.' :: t.extension <:+ file →
      file = logPathOf
        (String.ofList (file.take (file.length - ('.' :: t.extension).length))) t := by
    intro t ht
    rw [logPathOf, String.toList_ofList]
    exact (List.suffix_iff_eq_append.mp ht).symm
  refine ⟨fun h => ?_, ?_⟩
  · rw [currentLog] at h
    simp only at h
    split_ifs at h with hout herr
    · obtain ⟨rfl, rfl⟩ := Prod.mk.inj (Option.some.inj h)
      exact hpath .stdout hout
    · obtain ⟨rfl, rfl⟩ := Prod.mk.inj (Option.some.inj h)
      exact hpath .stdout hout
    · obtain ⟨rfl, rfl⟩ := Prod.mk.inj (Option.some.inj h)
      exact hpath .stderr ‹_›
  · rintro rfl
    have hown : '.' :: s.extension <:+ logPathOf name s := List.suffix_append ..
    rw [currentLog]
    cases s with
    | stdout => simp only [if_pos hown, hname]
    | stderr =>
      have hnot : ¬('.' :: Stream.extension .stdout <:+ logPathOf name .stderr) := fun h =>
        Stream.noConfusion (hstem .stdout h)
      simp only [if_neg hnot, if_pos hown, hname]

end Files

/-- **The lines of a process that are loaded**, in the order of the files. -/
def loaded (name : String) (maxBytes : ℕ) (files : List FileName) (p : ProcessLogs) :
    List (LineSource × Printed) :=
  (files.filterMap currentLog).flatMap fun log =>
    if log.1 = name then (p.tail maxBytes log.2).map (log.2.source, ·) else []

/-- The lines of a process among those delivered that a mode shows. -/
def heard (name : String) (mode : StreamMode) (lines : List (String × Stream × String)) :
    List (LineSource × String) :=
  lines.filterMap fun l =>
    if l.1 = name ∧ mode.shows l.2.1.source then some (l.2.1.source, l.2.2) else none

section Order

variable {name : String} {maxBytes maxRotatedFiles : ℕ} {directory : Disk → Prop}
  {p : ProcessLogs} {s : Stream} {files : List FileName} {mode : StreamMode}

theorem heard_append (name : String) (mode : StreamMode) (xs ys : List (String × Stream × String)) :
    heard name mode (xs ++ ys) = heard name mode xs ++ heard name mode ys :=
  List.filterMap_append ..

/-- The lines of one file. -/
theorem heard_file (process : String) (stream : Stream) (lines : List String) :
    heard name mode (lines.map fun line => (process, stream, line)) =
      if process = name ∧ mode.shows stream.source then lines.map (stream.source, ·) else [] := by
  rw [heard, List.filterMap_map]
  split_ifs with hshown
  · rw [← List.filterMap_eq_map]
    exact List.filterMap_congr fun line _ => if_pos hshown
  · exact List.filterMap_eq_nil_iff.mpr fun line _ => if_neg hshown

theorem loaded_append (xs ys : List FileName) : loaded name maxBytes (xs ++ ys) p =
    loaded name maxBytes xs p ++ loaded name maxBytes ys p := by
  rw [loaded, List.filterMap_append, List.flatMap_append]
  rfl

theorem loaded_singleton {file : FileName} {log : String × Stream}
    (hlog : currentLog file = some log) : loaded name maxBytes [file] p =
      if log.1 = name then (p.tail maxBytes log.2).map (log.2.source, ·) else [] := by
  rw [loaded, List.filterMap_cons_some hlog, List.filterMap_nil, List.flatMap_singleton]

/-- **What is loaded** is the end of each current log, read back. -/
theorem heard_preloaded (h : (processLogs name maxBytes maxRotatedFiles directory).Reachable p)
    (hfree : ∀ s, ∀ x ∈ p.written s, NewlineFree x.entry.line) (files : List FileName) :
    heard name mode (App.preloaded p.shared.disk (App.logEntries files)) =
      ((loaded name maxBytes files p).filter fun x => mode.shows x.1).map reread := by
  induction files with
  | nil => rfl
  | cons file files ih =>
    cases hlog : currentLog file with
    | none =>
      have hentries : App.logEntries (file :: files) = App.logEntries files :=
        List.filterMap_cons_none (by rw [hlog]; rfl)
      rw [hentries, ih, loaded, loaded, List.filterMap_cons_none hlog]
    | some log =>
      obtain ⟨process, stream⟩ := log
      have hentries : App.logEntries (file :: files) =
          ((process, stream), file) :: App.logEntries files :=
        List.filterMap_cons_some (by rw [hlog]; rfl)
      rw [hentries, App.preloaded, List.flatMap_cons, heard_append, ← App.preloaded, ih, heard_file,
        ← List.singleton_append, loaded_append, loaded_singleton hlog, List.filter_append,
        List.map_append]
      refine congrArg (· ++ _) ?_
      by_cases hname : process = name
      · obtain rfl := hname
        have htail : tailFile file PRELOAD_LINES p.shared.disk =
            some ((p.tail maxBytes stream).map fun x => withoutReturn x.entry.line) :=
          currentLog_eq_some.mp hlog ▸ tailFile_logPathOf h (hfree stream)
        have hfilter : ((p.tail maxBytes stream).map (stream.source, ·)).filter
            (fun x => mode.shows x.1) = if mode.shows stream.source then
              (p.tail maxBytes stream).map (stream.source, ·) else [] := by
          rw [List.filter_map]
          split_ifs with hshown <;> simp [Function.comp_def, hshown]
        simp only [htail, Option.getD_some, true_and, if_true, hfilter]
        split_ifs
        · rw [List.map_map, List.map_map]
          rfl
        · rfl
      · simp [hname]

theorem ofStream_loaded_of_notMem (hmem : logPathOf name s ∉ files) :
    ofStream s (loaded name maxBytes files p) = [] := by
  rw [ofStream, List.map_eq_nil_iff, List.filter_eq_nil_iff]
  intro x hx hsource
  obtain ⟨log, hlog, hx⟩ := List.mem_flatMap.mp hx
  obtain ⟨file, hfile, hcurrent⟩ := List.mem_filterMap.mp hlog
  split_ifs at hx with hname
  · obtain ⟨y, -, rfl⟩ := List.mem_map.mp hx
    have hstream : log.2 = s := by
      have hsame := congrArg LineSource.stream (of_decide_eq_true hsource)
      rwa [Stream.stream_source, Stream.stream_source] at hsame
    have hlog' : log = (name, s) := Prod.ext hname hstream
    exact hmem (currentLog_eq_some.mp (hlog' ▸ hcurrent) ▸ hfile)
  · cases hx

/-- **Of each stream** the end of its log is loaded once. -/
theorem ofStream_loaded (hnodup : files.Nodup) (hmem : logPathOf name s ∈ files) :
    ofStream s (loaded name maxBytes files p) = p.tail maxBytes s := by
  obtain ⟨before, after, rfl⟩ := List.append_of_mem hmem
  obtain ⟨-, hrest, hapart⟩ := List.nodup_append.mp hnodup
  have hbefore : logPathOf name s ∉ before := fun h => hapart _ h _ List.mem_cons_self rfl
  have hafter : logPathOf name s ∉ after := (List.nodup_cons.mp hrest).1
  have hone : loaded name maxBytes [logPathOf name s] p =
      (p.tail maxBytes s).map (s.source, ·) := by
    rw [loaded_singleton (currentLog_eq_some.mpr rfl), if_pos rfl]
  rw [← List.singleton_append, loaded_append, loaded_append, hone, ofStream_append, ofStream_append,
    ofStream_loaded_of_notMem hbefore, ofStream_loaded_of_notMem hafter, List.nil_append,
    List.append_nil, ofStream, List.filter_eq_self.mpr, List.map_map]
  · exact List.map_id _
  · intro x hx
    obtain ⟨y, -, rfl⟩ := List.mem_map.mp hx
    exact decide_eq_true rfl

end Order

end AgentProcs
