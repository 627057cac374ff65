import AgentProcs.Logs.Listing

/-!
# Logs/ReadPaths — through the index, or by scanning

    log      a b ␍ ⏎  c ⏎  ⏎                 index:   "ab␍"  "c"  ""        strips the newline
                                             scan:    "ab"   "c"  ""        and a return before it

A segment is read through its index when there is one, line by line from the first record's place,
and else by scanning the log.  The two readers of a line strip different ends: they agree on a window
exactly when no line of it ends with a carriage return.
-/

namespace AgentProcs

/-! ## A line read back -/

def CARRIAGE_RETURN : UInt8 := 13

/-- A line as `lines` returns it: without one carriage return at its end. -/
def withoutReturn (line : String) : String :=
  if line.toList.getLast? = some '\r' then String.ofList line.toList.dropLast else line

/-- Only the carriage return is encoded with its byte. -/
theorem eq_of_mem_utf8EncodeChar {c : Char} (h : CARRIAGE_RETURN ∈ String.utf8EncodeChar c) :
    c = '\r' :=
  Char.toNat_inj.mp (toNat_of_mem_utf8EncodeChar (by decide) h)

theorem chomp_line (l : List UInt8) : chomp (l ++ [NEWLINE]) =
    if l.getLast? = some CARRIAGE_RETURN then l.dropLast else l := by
  rcases l.eq_nil_or_concat' with rfl | ⟨l, b, rfl⟩
  · rfl
  · have hreverse : (l ++ [b] ++ [NEWLINE]).reverse = 10 :: b :: l.reverse := by simp [NEWLINE]
    rw [chomp, hreverse, List.getLast?_concat, List.dropLast_concat]
    split_ifs with hb
    · obtain rfl : b = 13 := Option.some.inj hb
      exact List.reverse_reverse l
    · have hne : b ≠ 13 := fun heq => hb (congrArg some heq)
      simp [hne]

/-- **A line read back** is text again. -/
theorem decodeLine_utf8 (line : String) :
    decodeLine (utf8 line ++ [NEWLINE]) = some (withoutReturn line) := by
  obtain ⟨cs, rfl⟩ : ∃ cs, line = String.ofList cs := ⟨line.toList, String.ofList_toList.symm⟩
  rw [decodeLine, chomp_line, withoutReturn, String.toList_ofList]
  rcases cs.eq_nil_or_concat' with rfl | ⟨cs, c, rfl⟩
  · exact utf8?_utf8 ""
  · have hbytes : utf8 (String.ofList (cs ++ [c])) =
        utf8 (String.ofList cs) ++ String.utf8EncodeChar c := by
      rw [utf8_ofList, utf8_ofList, List.flatMap_append, List.flatMap_singleton]
    rw [List.getLast?_concat, List.dropLast_concat, hbytes]
    by_cases hc : c = '\r'
    · subst hc
      have hreturn : String.utf8EncodeChar '\r' = [CARRIAGE_RETURN] := by decide +kernel
      rw [hreturn, List.getLast?_concat, if_pos rfl, if_pos rfl, List.dropLast_concat, utf8?_utf8]
    · obtain ⟨bs, b, hb⟩ :=
        (String.utf8EncodeChar c).eq_nil_or_concat'.resolve_left String.utf8EncodeChar_ne_nil
      have hne : b ≠ CARRIAGE_RETURN := by
        rintro rfl
        exact hc (eq_of_mem_utf8EncodeChar (hb ▸ by simp))
      have hlast : (utf8 (String.ofList cs) ++ String.utf8EncodeChar c).getLast? = some b := by
        rw [hb, ← List.append_assoc, List.getLast?_concat]
      rw [hlast, if_neg fun heq => hne (Option.some.inj heq),
        if_neg fun heq => hc (Option.some.inj heq), ← hbytes, utf8?_utf8]

/-- **Lines without a return at their end** come back as they were. -/
theorem withoutReturn_eq_iff {line : String} :
    withoutReturn line = line ↔ line.toList.getLast? ≠ some '\r' := by
  rw [withoutReturn]
  split_ifs with hlast
  · refine ⟨fun heq => ?_, fun hne => absurd hlast hne⟩
    obtain ⟨cs, hcs⟩ := List.getLast?_eq_some_iff.mp hlast
    have hlist := congrArg String.toList heq
    rw [String.toList_ofList, hcs, List.dropLast_concat] at hlist
    exact absurd (congrArg List.length hlist) (by simp)
  · exact ⟨fun _ => hlast, fun _ => rfl⟩

/-! ## Reading a segment -/

/-- `readLinesFromSegment` where the caller's numbers may be any: the range of the index adds them
first. -/
def readLinesFromSegmentAt (seg : DiskSegment) (start count : ℕ) (disk : Disk) :
    Except ReadError (List String) :=
  if count = 0 then .ok []
  else if (IndexReader.openAt seg.idxPath disk).isSome then do
    let _ ← windowEnd start count
    readLinesFromSegment seg start count disk
  else readLinesFromSegment seg start count disk

section Paths

variable {path : FileName} {disk : Disk} {s : Segment} {seg : DiskSegment} {start count : ℕ}

/-- The reader's own windows fit, and are read as they are. -/
theorem readLinesFromSegmentAt_of_fits (h : start + count ≤ USIZE_MAX) :
    readLinesFromSegmentAt seg start count disk = readLinesFromSegment seg start count disk := by
  rw [readLinesFromSegmentAt, windowEnd, if_pos h]
  split_ifs with hzero
  · rw [readLinesFromSegment, if_pos hzero]
  · rfl
  · rfl

/-- What a segment's log and its complete index are read as. -/
theorem read_indexed (hfree : ∀ e ∈ s.entries, NewlineFree e.line)
    (hlog : disk.read path = some (.text s.text))
    (hidx : disk.read (idxPathFor path) = some s.fullIndex) (hcount : count ≠ 0) :
    readLinesFromSegmentAt ⟨path, idxPathFor path, s.entries.length⟩ start count disk =
      if start + count ≤ USIZE_MAX then .ok (((s.entries.drop start).take count).map Entry.line)
      else .error .panic := by
  have hfull : disk.read (idxPathFor path) =
      some (.index s.seqBase ((recordsFrom 0 s.entries).take s.entries.length)) := by
    rw [hidx, List.take_of_length_le (Nat.le_of_eq (length_recordsFrom 0 s.entries))]
    rfl
  have hshows := (shows_of_read hlog hfull hfree).lines start count
  rw [List.take_length, ← List.map_drop, ← List.map_take] at hshows
  rw [readLinesFromSegmentAt, if_neg hcount, openAt_index hidx, if_pos Option.isSome_some,
    windowEnd]
  split_ifs
  · exact hshows
  · rfl

/-- What a segment's log alone is read as. -/
theorem read_scanned (hfree : ∀ e ∈ s.entries, NewlineFree e.line)
    (hlog : disk.read path = some (.text s.text)) (hidx : disk.read (idxPathFor path) = none) :
    readLinesFromSegmentAt ⟨path, idxPathFor path, s.entries.length⟩ start count disk =
      .ok (((s.entries.drop start).take count).map fun e => withoutReturn e.line) := by
  have hopen : IndexReader.openAt (idxPathFor path) disk = none := by
    rw [IndexReader.openAt, hidx]
  have hscan : ((s.entries.drop start).take count).map Entry.bytes =
      ((splitLines NEWLINE s.text).drop start).take count := by
    rw [splitLines_text hfree, List.map_take, List.map_drop]
  by_cases hzero : count = 0
  · rw [readLinesFromSegmentAt, if_pos hzero, hzero, List.take_zero]
    rfl
  · rw [readLinesFromSegmentAt, readLinesFromSegment, hopen, hlog, if_neg hzero, if_neg hzero,
      if_neg (by simp)]
    simp only [Content.bytes, ← hscan]
    refine mapM_map_pure fun e _ => ?_
    rw [Entry.bytes, decodeLine_utf8]
    rfl

/-- **The two paths agree on a window exactly when no line of it ends with a carriage return**, and
its end is a number; of no lines both read none. -/
theorem readPaths_agree_iff (hfree : ∀ e ∈ s.entries, NewlineFree e.line)
    (hlog : disk.read path = some (.text s.text))
    (hidx : disk.read (idxPathFor path) = some s.fullIndex) (start count : ℕ) :
    readLinesFromSegmentAt ⟨path, idxPathFor path, s.entries.length⟩ start count disk =
      readLinesFromSegmentAt ⟨path, idxPathFor path, s.entries.length⟩ start count
        (disk.remove (idxPathFor path)) ↔
    count = 0 ∨ start + count ≤ USIZE_MAX ∧
      ∀ e ∈ (s.entries.drop start).take count, e.line.toList.getLast? ≠ some '\r' := by
  have hne : path ≠ idxPathFor path := fun heq =>
    absurd (congrArg List.length heq) (by simp [idxPathFor])
  have hlog' : (disk.remove (idxPathFor path)).read path = some (.text s.text) := by
    rw [FileSystem.read_remove, Directory.remove, Function.update_of_ne hne, hlog]
  have hidx' : (disk.remove (idxPathFor path)).read (idxPathFor path) = none := by
    rw [FileSystem.read_remove, Directory.remove, Function.update_self]
  rw [read_scanned hfree hlog' hidx']
  by_cases hcount : count = 0
  · rw [readLinesFromSegmentAt, if_pos hcount, hcount, List.take_zero]
    exact iff_of_true rfl (.inl rfl)
  rw [read_indexed hfree hlog hidx hcount, or_iff_right hcount]
  split_ifs with hfit
  · rw [Except.ok.injEq, List.map_inj_left, and_iff_right hfit]
    exact forall₂_congr fun e _ => eq_comm.trans withoutReturn_eq_iff
  · refine iff_of_false ?_ fun h => hfit h.1
    rintro ⟨⟩

/-- **The files of an ended capture are such segments**, all of them. -/
theorem complete_of_ended {ctx : LogContext} {c : Capture} (hrot : Rotatable ctx.logPath)
    (h : (captures ctx []).Reachable c) (hend : c.phase = .ended)
    (hfree : ∀ line ∈ c.lines, NewlineFree line) {i : ℕ} {file : Content}
    (hfile : c.shared.disk.read (logName ctx.logPath i) = some file) :
    ∃ s : Segment, file = .text s.text ∧ (∀ e ∈ s.entries, NewlineFree e.line) ∧
      c.shared.disk.read (idxPathFor (logName ctx.logPath i)) = some s.fullIndex := by
  obtain ⟨cur, old, new, hlog, hfree'⟩ := logged_of_ended hrot h hend hfree
  have hstored := hlog.writing.stored
  have hlogs : c.shared.disk.read (logName ctx.logPath i) = _ := congrFun hstored.logs i
  rw [hfile, Directory.stack, List.getElem?_map] at hlogs
  obtain ⟨s, hs, rfl⟩ := Option.map_eq_some_iff.mp hlogs.symm
  refine ⟨s, rfl, hfree' s (List.mem_of_getElem? hs), ?_⟩
  have hidx : c.shared.disk.read (idxName ctx.logPath i) = _ := congrFun hstored.indexes i
  rw [Directory.stack] at hidx
  refine hidx.trans ?_
  cases i with
  | zero =>
    obtain rfl : cur = s := Option.some_inj.mp hs
    exact congrArg (fun rs => some (Content.index cur.seqBase rs))
      (List.take_of_length_le (Nat.le_of_eq (length_recordsFrom 0 cur.entries)))
  | succ i => rw [indexContents, List.getElem?_cons_succ, List.getElem?_map,
      (List.getElem?_cons_succ ▸ hs : old[i]? = some s)]; rfl

end Paths

/-! ## A progress line -/

/-- A log whose first line ends with a carriage return, and its index. -/
def progressLog : Segment := ⟨0, [⟨"9%\r", 0⟩, ⟨"linked", 2⟩, ⟨"done", 3⟩]⟩

def progressDisk : Disk :=
  (((FileSystem.empty (.text [])).create ['p'] (.text progressLog.text)).2.create
    (idxPathFor ['p']) progressLog.fullIndex).2

theorem read_progress : progressDisk.read ['p'] = some (.text progressLog.text) ∧
    progressDisk.read (idxPathFor ['p']) = some progressLog.fullIndex := by
  rw [progressDisk, FileSystem.read_create, FileSystem.read_create, Function.update_self,
    Function.update_of_ne (by decide), Function.update_self]
  exact ⟨rfl, rfl⟩

theorem newlineFree_progress : ∀ e ∈ progressLog.entries, NewlineFree e.line := by
  intro e he
  simp only [progressLog, List.mem_cons, List.not_mem_nil, or_false] at he
  rcases he with rfl | rfl | rfl <;> decide +kernel

/-- **The index gives the return back, the scan does not.** -/
theorem not_readPaths_agree :
    progressDisk.read ['p'] = some (.text progressLog.text) ∧
    progressDisk.read (idxPathFor ['p']) = some progressLog.fullIndex ∧
    (∀ e ∈ progressLog.entries, NewlineFree e.line) ∧
    readLinesFromSegmentAt ⟨['p'], idxPathFor ['p'], 3⟩ 0 1 progressDisk ≠
      readLinesFromSegmentAt ⟨['p'], idxPathFor ['p'], 3⟩ 0 1
        (progressDisk.remove (idxPathFor ['p'])) := by
  refine ⟨read_progress.1, read_progress.2, newlineFree_progress, fun h => ?_⟩
  have hlog : (progressDisk.remove (idxPathFor ['p'])).read ['p'] = some (.text progressLog.text) := by
    rw [FileSystem.read_remove, Directory.remove, Function.update_of_ne (by decide), read_progress.1]
  have hidx : (progressDisk.remove (idxPathFor ['p'])).read (idxPathFor ['p']) = none := by
    rw [FileSystem.read_remove, Directory.remove, Function.update_self]
  have hindexed : readLinesFromSegmentAt ⟨['p'], idxPathFor ['p'], 3⟩ 0 1 progressDisk = _ :=
    read_indexed newlineFree_progress read_progress.1 read_progress.2 one_ne_zero
  rw [if_pos (by decide)] at hindexed
  have hlines := hindexed.symm.trans (h.trans (read_scanned newlineFree_progress hlog hidx))
  have hline := withoutReturn_eq_iff.mp (List.head_eq_of_cons_eq (Except.ok.inj hlines)).symm
  exact hline (by decide +kernel)

/-- Of the lines after it both paths read the same. -/
theorem readPaths_agree_iff_progress :
    readLinesFromSegmentAt ⟨['p'], idxPathFor ['p'], 3⟩ 1 5 progressDisk =
      readLinesFromSegmentAt ⟨['p'], idxPathFor ['p'], 3⟩ 1 5
        (progressDisk.remove (idxPathFor ['p'])) := by
  refine (readPaths_agree_iff newlineFree_progress read_progress.1 read_progress.2 1 5).mpr
    (.inr ⟨by decide, fun e he => ?_⟩)
  simp only [progressLog, List.drop_succ_cons, List.drop_zero, List.take_succ_cons, List.take_nil,
    List.mem_cons, List.not_mem_nil, or_false] at he
  rcases he with rfl | rfl <;> decide

end AgentProcs
