import AgentProcs.Daemon.ProcessManager
import AgentProcs.Logs.DiskLogReader

/-!
# Logs/Naming — whose file is it?

    web · stdout                web.stdout    web.stdout.idx
    web · stdout · 1   ──▸      web.stdout.1  web.stdout.1.idx        no two of them the same

The writer numbers a rotated log behind the extension of its path, the reader behind the name of the
stream.  The two agree on every name but the empty one, whose log is all extension and no stem; and
for a process called `.` both come to the directory above, whatever the number.
-/

namespace AgentProcs

/-- A name that is accepted while the proxy is off. -/
abbrev ProcessName := { name : String // traverses name = false }

inductive LogFileKind where
  | log
  | index
  deriving DecidableEq, Repr

/-- A file that a capture creates; segment 0 is the current one. -/
structure LogFile where
  process : ProcessName
  stream : Stream
  segment : ℕ
  kind : LogFileKind
  deriving DecidableEq

/-- Where the writer puts it. -/
def LogFile.path (f : LogFile) : FileName :=
  match f.kind with
  | .log => logName (logPathOf f.process f.stream) f.segment
  | .index => idxName (logPathOf f.process f.stream) f.segment

/-- Where the reader looks for the `n`-th rotated segment. -/
def probedPath (name : String) (stream : Stream) (n : ℕ) : FileName :=
  withExtension (logPathOf name stream) (stream.extension ++ '.' :: (toString n).toList)

/-- The reader probes one segment after the other. -/
theorem rotatedSegments_logPathOf (name : String) (source : LineSource) (disk : Disk) (fuel n : ℕ) :
    rotatedSegments (logPathOf name source.stream) source.stream.extension disk (fuel + 1) n =
      match segmentAt (probedPath name source.stream n) disk with
      | none => []
      | some seg => seg ::
        rotatedSegments (logPathOf name source.stream) source.stream.extension disk fuel (n + 1) :=
  rfl

/-- A name of one file in a directory. -/
structure InDirectory (f : FileName) : Prop where
  nonempty : f ≠ []
  notSelf : f ≠ ['.']
  notParent : f ≠ ['.', '.']
  noSlash : '/' ∉ f
  noNul : '\x00' ∉ f

/-- **The names of a process's logs do their job**: reader and writer agree on them, nobody else's
file has them, and they lead nowhere else. -/
structure WellNamed (name : ProcessName) : Prop where
  agreed : ∀ stream n, 1 ≤ n →
    rotatedPath (logPathOf name stream) n = probedPath name stream n
  distinct : ∀ f g : LogFile, f.process = name → f.path = g.path → f = g
  inside : ∀ f : LogFile, f.process = name → InDirectory f.path

/-! ## Taking a path apart -/

section Split

variable {name name' : String} {s t : Stream} {m n : ℕ}

theorem rsplitDot_logPathOf (name : String) (s : Stream) :
    rsplitDot (logPathOf name s) = some (name.toList, s.extension) :=
  rsplitDot_append s.dot_notMem_extension name.toList

theorem Stream.extension_injective : Stream.extension.Injective := by
  intro s t h
  cases s <;> cases t <;> first | rfl | exact absurd h (by decide)

theorem logPathOf_inj (h : logPathOf name s = logPathOf name' t) : name = name' ∧ s = t := by
  have hsplit := congrArg rsplitDot h
  rw [rsplitDot_logPathOf, rsplitDot_logPathOf, Option.some.injEq, Prod.mk.injEq] at hsplit
  exact ⟨String.toList_inj.mp hsplit.1, Stream.extension_injective hsplit.2⟩

theorem dot_notMem_toString (n : ℕ) : '.' ∉ (toString n).toList := by
  rw [toString_toList]
  intro h
  exact absurd (Nat.isDigit_of_mem_toDigits (by omega) (by omega) h) (by decide)

/-- What a rotated log is numbered behind. -/
def rotatedStem (name : String) (s : Stream) : FileName :=
  if name = "" then logPathOf name s ++ ['.'] else logPathOf name s

theorem rotatedPath_logPathOf (hdot : name ≠ ".") (s : Stream) (n : ℕ) :
    rotatedPath (logPathOf name s) n = rotatedStem name s ++ '.' :: (toString n).toList := by
  rw [rotatedStem]
  split_ifs with hname
  · subst hname
    have hext : extension (logPathOf "" s) = [] := extension_noStem s.dot_notMem_extension
    have hpath : rotatedPath (logPathOf "" s) n =
        logPathOf "" s ++ '.' :: ([] ++ '.' :: (toString n).toList) := by
      rw [rotatedPath, hext]
      exact withExtension_noStem s.dot_notMem_extension (by simp)
    rw [hpath]
    simp
  · exact rotatedPath_eq (hasExtension_logPathOf hname hdot s)

theorem rsplitDot_rotatedPath (hdot : name ≠ ".") (s : Stream) (n : ℕ) :
    rsplitDot (rotatedPath (logPathOf name s) n) = some (rotatedStem name s, (toString n).toList) := by
  rw [rotatedPath_logPathOf hdot, rsplitDot_append (dot_notMem_toString n)]

/-- The rotated logs of a process called `.`. -/
theorem rsplitDot_rotatedPath_dot (s : Stream) (n : ℕ) :
    rsplitDot (rotatedPath (logPathOf "." s) n) = some (['.'], []) := by
  rw [rotatedPath, show logPathOf "." s = '.' :: '.' :: s.extension from rfl,
    withExtension_dot s.dot_notMem_extension]
  rfl

theorem rotatedStem_inj (h : rotatedStem name s = rotatedStem name' t) : name = name' ∧ s = t := by
  have hlast : ∀ (x : String) (u : Stream), (logPathOf x u).getLast? ≠ some '.' := fun x u => by
    cases u <;> simp [logPathOf, Stream.extension]
  rw [rotatedStem, rotatedStem] at h
  split_ifs at h with hname hname' hname'
  · exact logPathOf_inj (List.append_cancel_right h)
  · exact absurd (h ▸ List.getLast?_concat) (hlast name' t)
  · exact absurd (h ▸ List.getLast?_concat) (hlast name s)
  · exact logPathOf_inj h

/-- What stands behind the last dot of a log's name. -/
def logEnd (name : String) (s : Stream) : ℕ → FileName
  | 0 => s.extension
  | n + 1 => if name = "." then [] else (toString (n + 1)).toList

/-- And what stands before. -/
def logStem (name : String) (s : Stream) : ℕ → FileName
  | 0 => name.toList
  | _ + 1 => if name = "." then ['.'] else rotatedStem name s

theorem rsplitDot_logName (name : String) (s : Stream) (n : ℕ) :
    rsplitDot (logName (logPathOf name s) n) = some (logStem name s n, logEnd name s n) := by
  cases n with
  | zero => exact rsplitDot_logPathOf name s
  | succ n =>
    rw [logName, logStem, logEnd]
    split_ifs with hdot
    · subst hdot
      exact rsplitDot_rotatedPath_dot s _
    · exact rsplitDot_rotatedPath hdot s _

/-- A number is no stream. -/
theorem extension_ne_toString (s : Stream) (n : ℕ) : s.extension ≠ (toString n).toList := by
  intro h
  have hdigit : 's' ∈ (toString n).toList := h ▸ by cases s <;> decide
  rw [toString_toList] at hdigit
  exact absurd (Nat.isDigit_of_mem_toDigits (by omega) (by omega) hdigit) (by decide)

theorem extension_ne_logEnd (s : Stream) (name : String) (t : Stream) (n : ℕ) :
    s.extension ≠ logEnd name t (n + 1) := by
  rw [logEnd]
  split_ifs
  · cases s <;> decide
  · exact extension_ne_toString s _

/-- **A log's path says whose log it is, and which**, unless its process is called `.`. -/
theorem logName_inj (hdot : name ≠ ".") {m n : ℕ}
    (h : logName (logPathOf name s) m = logName (logPathOf name' t) n) :
    name = name' ∧ s = t ∧ m = n := by
  have hsplit := congrArg rsplitDot h
  rw [rsplitDot_logName, rsplitDot_logName, Option.some.injEq, Prod.mk.injEq] at hsplit
  obtain ⟨hstem, hend⟩ := hsplit
  cases m with
  | zero => cases n with
    | zero => exact ⟨(logPathOf_inj h).1, (logPathOf_inj h).2, rfl⟩
    | succ n => exact absurd hend (extension_ne_logEnd s name' t n)
  | succ m => cases n with
    | zero => exact absurd hend.symm (extension_ne_logEnd t name s m)
    | succ n =>
      rw [logEnd, if_neg hdot, logEnd] at hend
      rw [logStem, if_neg hdot, logStem] at hstem
      split_ifs at hend hstem with hdot'
      · rw [toString_toList] at hend
        exact absurd hend Nat.toDigits_ne_nil
      · obtain ⟨hname, hs⟩ := rotatedStem_inj hstem
        exact ⟨hname, hs, toString_injective (String.toList_inj.mp hend)⟩

end Split

/-! ## Every process but one -/

namespace LogFile

/-- What stands behind the last dot of a file's name. -/
def lastPart (f : LogFile) : FileName :=
  match f.kind with
  | .index => ['i', 'd', 'x']
  | .log => logEnd f.process f.stream f.segment

theorem rsplitDot_path (f : LogFile) : ∃ stem, rsplitDot f.path = some (stem, f.lastPart) := by
  obtain ⟨p, s, n, k⟩ := f
  cases k with
  | log => exact ⟨_, rsplitDot_logName p s n⟩
  | index => exact ⟨_, rsplitDot_append (by decide) _⟩

/-- A log ends in a letter of its stream or in a digit, an index in neither. -/
theorem lastPart_eq_idx_iff {f : LogFile} : f.lastPart = ['i', 'd', 'x'] ↔ f.kind = .index := by
  obtain ⟨p, s, n, k⟩ := f
  cases k with
  | index => exact iff_of_true rfl rfl
  | log =>
    refine iff_of_false (fun h => ?_) nofun
    change logEnd p s n = ['i', 'd', 'x'] at h
    cases n with
    | zero =>
      change s.extension = ['i', 'd', 'x'] at h
      exact absurd h (by cases s <;> decide)
    | succ n =>
      rw [logEnd] at h
      split_ifs at h
      have hdigit : 'x' ∈ Nat.toDigits 10 (n + 1) := by
        rw [← toString_toList, h]
        decide
      exact absurd (Nat.isDigit_of_mem_toDigits (by omega) (by omega) hdigit) (by decide)

theorem path_inj {f g : LogFile} (hdot : f.process.val ≠ ".") (h : f.path = g.path) : f = g := by
  have hkind : f.kind = .index ↔ g.kind = .index := by
    obtain ⟨x, hx⟩ := f.rsplitDot_path
    obtain ⟨y, hy⟩ := g.rsplitDot_path
    rw [h, hy, Option.some.injEq, Prod.mk.injEq] at hx
    rw [← lastPart_eq_idx_iff, ← lastPart_eq_idx_iff, hx.2]
  obtain ⟨p, s, m, k⟩ := f
  obtain ⟨q, t, n, l⟩ := g
  obtain rfl : k = l := by cases k <;> cases l <;> simp_all
  have hlog : logName (logPathOf p s) m = logName (logPathOf q t) n := by
    cases k with
    | log => exact h
    | index => exact List.append_cancel_right h
  obtain ⟨hname, rfl, rfl⟩ := logName_inj hdot hlog
  obtain rfl : p = q := Subtype.ext hname
  rfl

/-- What is in a path but in the name of its process is a dot, a letter or a digit. -/
theorem mem_path {f : LogFile} (hdot : f.process.val ≠ ".") {c : Char} (h : c ∈ f.path) :
    c ∈ f.process.val.toList ∨ c = '.' ∨ c.isAlphanum := by
  have hlog : ∀ d ∈ logPathOf f.process f.stream,
      d ∈ f.process.val.toList ∨ d = '.' ∨ d.isAlphanum := fun d hd => by
    refine (List.mem_append.mp hd).imp_right fun hext => (List.mem_cons.mp hext).imp_right fun hd => ?_
    have hletters : f.stream.extension.all Char.isAlphanum = true := by cases f.stream <;> decide
    exact List.all_eq_true.mp hletters d hd
  obtain ⟨sep, -, hdots, hname⟩ := (rotatable_logPathOf hdot f.stream).logName_eq
  have hsegment : ∀ d ∈ logName (logPathOf f.process f.stream) f.segment,
      d ∈ f.process.val.toList ∨ d = '.' ∨ d.isAlphanum := fun d hd => by
    rw [hname] at hd
    refine (List.mem_append.mp hd).elim (hlog d) fun hsuffix => .inr ?_
    refine (mem_segmentSuffix hdots hsuffix).imp_right fun hdigit => ?_
    rw [Char.isAlphanum, hdigit, Bool.or_true]
  rw [LogFile.path] at h
  split at h
  · exact hsegment c h
  · refine (List.mem_append.mp h).elim (hsegment c) fun hidx => .inr ?_
    have hletters : ['.', 'i', 'd', 'x'].all (fun d => d = '.' || d.isAlphanum) = true := by decide
    simpa using List.all_eq_true.mp hletters c hidx

theorem inDirectory {f : LogFile} (hdot : f.process.val ≠ ".") : InDirectory f.path := by
  obtain ⟨hslash, hnul⟩ : '/' ∉ f.process.val.toList ∧ '\x00' ∉ f.process.val.toList := by
    have hname := f.process.property
    simp only [traverses, Bool.or_eq_false_iff, List.contains_eq_mem, decide_eq_false_iff_not] at hname
    exact ⟨hname.1.1.1, hname.2⟩
  have hlen : 3 ≤ f.path.length := by
    have hpre : logPathOf f.process f.stream <+: f.path := by
      rw [LogFile.path]
      split
      · exact prefix_logName (rotatable_logPathOf hdot _) _
      · exact prefix_idxName (rotatable_logPathOf hdot _) _
    refine le_trans ?_ hpre.length_le
    cases f.stream <;> simp [logPathOf, Stream.extension]
  refine ⟨?_, ?_, ?_, fun h => ?_, fun h => ?_⟩
  · exact fun h => absurd (h ▸ hlen) (by decide)
  · exact fun h => absurd (h ▸ hlen) (by decide)
  · exact fun h => absurd (h ▸ hlen) (by decide)
  · exact (mem_path hdot h).elim hslash (by decide)
  · exact (mem_path hdot h).elim hnul (by decide)

end LogFile

/-- The reader's number stands behind the stream. -/
theorem probedPath_eq {name : String} (hname : name ≠ "") (hdot : name ≠ ".") (s : Stream) (n : ℕ) :
    probedPath name s n = logPathOf name s ++ '.' :: (toString n).toList := by
  obtain ⟨c, cs, hlist⟩ : ∃ c cs, name.toList = c :: cs :=
    List.exists_cons_of_ne_nil fun hnil => hname (String.toList_eq_nil_iff.mp hnil)
  have hstem : c :: cs ≠ ['.'] := fun h => hdot (String.toList_inj.mp (hlist.trans h))
  rw [probedPath, logPathOf, hlist, withExtension_append s.dot_notMem_extension hstem (by simp)]
  simp

theorem probedPath_injective {name : String} (hdot : name ≠ ".") (s : Stream) :
    (probedPath name s).Injective := by
  intro m n h
  by_cases hname : name = ""
  · subst hname
    have heq : ∀ n, probedPath "" s n =
        '.' :: s.extension ++ '.' :: (s.extension ++ '.' :: (toString n).toList) := fun n =>
      withExtension_noStem s.dot_notMem_extension (by simp)
    rw [heq, heq] at h
    have hext := (List.cons.inj (List.append_cancel_left h)).2
    exact toString_injective (String.toList_inj.mp (List.cons.inj (List.append_cancel_left hext)).2)
  · rw [probedPath_eq hname hdot, probedPath_eq hname hdot] at h
    exact toString_injective (String.toList_inj.mp (List.cons.inj (List.append_cancel_left h)).2)

/-- The reader's search for the segments of a stream comes upon a number that is missing. -/
def SearchEnds (process : String) (source : LineSource) (disk : Disk) : Prop :=
  ∃ n ≤ disk.next, segmentAt (probedPath process source.stream (n + 1)) disk = none

/-- **It does**, unless the process is called `.`: the names probed are as many files. -/
theorem searchEnds {process : String} (hdot : process ≠ ".") (source : LineSource) (disk : Disk) :
    SearchEnds process source disk := by
  by_contra hnever
  have hfiles : ∀ n < disk.next + 1,
      (disk.dir (probedPath process source.stream (n + 1))).isSome := fun n hn => by
    by_contra hnone
    exact hnever ⟨n, Nat.le_of_lt_succ hn, if_neg hnone⟩
  have hinj : (fun n => probedPath process source.stream (n + 1)).Injective := fun m n h =>
    Nat.succ.inj (probedPath_injective hdot _ h)
  exact absurd (FileSystem.le_next hinj hfiles) (Nat.not_succ_le_self _)

/-- **The names do their job exactly when the process has one**, and it is not a dot. -/
theorem wellNamed_iff (name : ProcessName) : WellNamed name ↔ name.val ≠ "" ∧ name.val ≠ "." := by
  refine ⟨fun h => ⟨fun hempty => ?_, fun hdot => ?_⟩, fun ⟨hname, hdot⟩ =>
    ⟨fun s n _ => ?_, ?_, ?_⟩⟩
  · have hagreed := h.agreed .stdout 1 le_rfl
    rw [hempty] at hagreed
    exact absurd hagreed (by decide)
  · -- the first rotated log is the directory above
    have hparent : logName (logPathOf name .stdout) 1 = ['.', '.'] := by
      rw [hdot]
      decide
    exact (h.inside ⟨name, .stdout, 1, .log⟩ rfl).notParent hparent
  · rw [rotatedPath_logPathOf hdot, rotatedStem, if_neg hname, probedPath_eq hname hdot]
  · rintro f g rfl heq
    exact LogFile.path_inj hdot heq
  · rintro f rfl
    exact LogFile.inDirectory hdot

/-- **The reader of a process without a name looks at another's file.** -/
theorem not_wellNamed_empty : ¬WellNamed ⟨"", by decide⟩ ∧
    probedPath "" .stdout 1 = (⟨⟨".stdout", by decide⟩, .stdout, 1, .log⟩ : LogFile).path :=
  ⟨fun h => absurd (h.agreed .stdout 1 le_rfl) (by decide), by decide⟩

end AgentProcs
