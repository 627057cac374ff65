import AgentProcs.Daemon.EventFilter
import AgentProcs.Logs.Arrivals
import AgentProcs.Logs.ReadPaths
import AgentProcs.Supervision.Annotations

/-!
# Logs/InStep — one record for each physical line

    written    "a"   "b⏎c"   "d"
    log        a⏎    b⏎  c⏎   d⏎           four lines
    records    0     2        6             three records

A record is made for each call of `write_line`, a line of the file by each newline.  They stay in step
as long as no call is given a newline.  What the pipe gives has none; what the actor gives has none
either, except where it quotes what is wrong with a watch.
-/

namespace AgentProcs

/-- The records of an index. -/
def Content.records : Content → List IndexRecord
  | text _ => []
  | index _ records => records

/-- The records appended for the log numbered `i`; of the newest log the last ones may still be
buffered. -/
def ProcessLogs.appended (name : String) (s : Stream) (i : ℕ) (p : ProcessLogs) : List IndexRecord :=
  (p.shared.disk.read (idxName (logPathOf name s) i)).elim [] Content.records ++
    if i = 0 then (p.state s).idxWriter.buffer else []

/-- **Records and lines in step**: the records were made for `lines`, and reading on from one of them
gives the lines of those that follow. -/
structure InStep (records : List IndexRecord) (bytes : List UInt8) (lines : List String) : Prop where
  made : records.length = lines.length
  newlines : bytes.count NEWLINE = records.length
  starts : records.map (·.byteOffset) = lineStarts 0 (splitLines NEWLINE bytes)
  window : ∀ start n record, records[start]? = some record → start + n ≤ records.length →
    readSequence n (bytes.drop record.byteOffset) = .ok ((lines.drop start).take n)

/-- **One record per physical line**, in every log of the process. -/
def ProcessLogs.OneRecordPerLine (name : String) (p : ProcessLogs) : Prop :=
  ∀ s i bytes, p.shared.disk.read (logName (logPathOf name s) i) = some (.text bytes) →
    ∃ lines, lines <:+: (p.written s).map (·.entry.line) ∧ InStep (p.appended name s i) bytes lines

/-- The rotated logs that earlier captures of a process of this name have left, and their lines. -/
structure InheritedLogs (name : String) (disk : Disk) (incarnation : ℕ)
    (written : Stream → List Printed) : Prop where
  rotated : ∀ s, ∃ older, Older (logPathOf name s) disk older ∧
    older.length ≤ DEFAULT_MAX_ROTATED_FILES ∧ entriesOf older = (written s).map (·.entry)
  past : ∀ s, ∀ x ∈ written s, x.incarnation < incarnation
  ordered : ∀ s, (written s).Pairwise Printed.Before
  distinct : ∀ x ∈ written .stdout, ∀ y ∈ written .stderr, x.incarnation = y.incarnation →
    x.entry.seq ≠ y.entry.seq

/-- What `write_line` may be called with: a line of a pipe, or one the actor sends. -/
inductive Loggable : String → Prop
  | pipe {unread rest : List UInt8} {closed : Bool} {text : String}
      (h : nextLine unread closed = some (.line text, rest)) : Loggable text
  | supervisor {w : World} {inc : Incarnation} {msg : String} (h : daemon.Reachable w)
      (hmem : (inc, msg) ∈ w.actor.annotations) : Loggable msg

/-! ## Where newlines come from -/

section Newline

theorem newlineFree_iff {line : String} : NewlineFree line ↔ '\n' ∉ line.toList :=
  not_congr newline_mem_utf8

theorem newlineFree_append {s t : String} : NewlineFree (s ++ t) ↔ NewlineFree s ∧ NewlineFree t := by
  rw [NewlineFree, utf8_append, List.mem_append, not_or]
  rfl

theorem newlineFree_toString (n : ℕ) : NewlineFree (toString n) := by
  rw [newlineFree_iff, toString_toList]
  exact fun h => absurd (Nat.isDigit_of_mem_toDigits (by decide) (by decide) h) (by decide)

theorem newlineFree_toString_int (n : ℤ) : NewlineFree (toString n) := by
  cases n with
  | ofNat n => exact newlineFree_toString n
  | negSucc n => exact newlineFree_append.mpr ⟨by decide +kernel, newlineFree_toString (n + 1)⟩

/-- Without a newline there is no end of line to take off. -/
theorem chomp_of_notMem {raw : List UInt8} (h : NEWLINE ∉ raw) : chomp raw = raw := by
  have hreverse : NEWLINE ∉ raw.reverse := mt List.mem_reverse.mp h
  rw [chomp]
  split
  · rename_i heq
    exact absurd (heq ▸ List.mem_cons_self) hreverse
  · rename_i heq
    exact absurd (heq ▸ List.mem_cons_self) hreverse
  · rfl

/-- **A line of a pipe** ends before its newline. -/
theorem newlineFree_of_nextLine {unread rest : List UInt8} {closed : Bool} {text : String}
    (h : nextLine unread closed = some (.line text, rest)) : NewlineFree text := by
  have hraw : ∃ raw, NextLine.ofRaw raw = .line text ∧ NEWLINE ∉ chomp raw := by
    rw [nextLine] at h
    split_ifs at h
    refine ⟨_, (Prod.mk.inj (Option.some.inj h)).1, ?_⟩
    rcases line_or_more NEWLINE unread with hnone | ⟨l, r, hl, rfl⟩
    · rwa [takeLine_of_notMem hnone, chomp_of_notMem hnone]
    · rw [takeLine_line hl, chomp_line]
      split_ifs
      · exact fun hmem => hl (List.dropLast_subset l hmem)
      · exact hl
  obtain ⟨raw, hline, hfree⟩ := hraw
  rw [NextLine.ofRaw] at hline
  split_ifs at hline
  cases hdecode : decodeLine raw with
  | none =>
    rw [hdecode] at hline
    cases hline
  | some t =>
    rw [hdecode] at hline
    obtain rfl : t = text := NextLine.line.inj hline
    rwa [NewlineFree, utf8_of_utf8? hdecode]

theorem newlineFree_restartMarker (p : ManagedProcess) (prevCode : Option ℤ) :
    NewlineFree (Actor.restartMarker p prevCode) := by
  unfold Actor.restartMarker
  extract_lets exit
  have hexit : NewlineFree exit := by
    cases prevCode with
    | none => decide +kernel
    | some c => exact newlineFree_toString_int c
  have hattempt : NewlineFree (toString "[agent-procs] Restarted (exit " ++ toString exit ++
      toString ", attempt " ++ toString p.restartCount) := by
    refine newlineFree_append.mpr ⟨newlineFree_append.mpr ⟨newlineFree_append.mpr ⟨?_, hexit⟩, ?_⟩,
      newlineFree_toString _⟩ <;> decide +kernel
  cases p.restartPolicy.bind (·.maxRestarts) with
  | none => exact newlineFree_append.mpr ⟨hattempt, by decide +kernel⟩
  | some m =>
    have hslash : NewlineFree (toString "/") := by decide +kernel
    have hof := newlineFree_append.mpr ⟨newlineFree_append.mpr ⟨hattempt, hslash⟩,
      newlineFree_toString m⟩
    exact newlineFree_append.mpr ⟨hof, by decide +kernel⟩

/-- What the actor makes up itself has no newline. -/
theorem SupervisorMessage.newlineFree_or {msg : String} (h : SupervisorMessage msg) :
    NewlineFree msg ∨ ∃ e, msg = AgentProcs.watchSetupFailed e := by
  cases h with
  | watchSetupFailed e => exact .inr ⟨e, rfl⟩
  | fileChanged => exact .inl (by decide +kernel)
  | restarted p prevCode => exact .inl (newlineFree_restartMarker p prevCode)
  | exhausted max =>
    refine .inl (newlineFree_append.mpr ⟨newlineFree_append.mpr ⟨?_, newlineFree_toString max⟩, ?_⟩)
      <;> decide +kernel

/-- **A line that is logged** has a newline only from what it says about a watch. -/
theorem Loggable.newlineFree_iff {line : String} (h : Loggable line) :
    NewlineFree line ↔ ∀ e, line = watchSetupFailed e → NewlineFree e := by
  have hpart : ∀ e, NewlineFree (watchSetupFailed e) ↔ NewlineFree e := fun e =>
    newlineFree_append.trans (and_iff_right (by decide +kernel))
  refine ⟨fun hfree e heq => (hpart e).mp (heq ▸ hfree), fun hwatch => ?_⟩
  cases h with
  | pipe hnext => exact newlineFree_of_nextLine hnext
  | supervisor hreach hmem =>
    rcases (supervisorMessage_of_reachable hreach _ hmem).newlineFree_or with hfree | ⟨e, rfl⟩
    · exact hfree
    · exact (hpart e).mpr (hwatch e rfl)

end Newline

/-! ## One file -/

section File

variable {es : List Entry}

theorem lineStarts_bytes (offset : ℕ) (es : List Entry) :
    lineStarts offset (es.map Entry.bytes) = (recordsFrom offset es).map (·.byteOffset) := by
  induction es generalizing offset with
  | nil => rfl
  | cons e es ih => exact congrArg (offset :: ·) (ih _)

/-- **Without newlines in the lines**, they and the records are in step. -/
theorem inStep_of_newlineFree (hfree : ∀ e ∈ es, NewlineFree e.line) :
    InStep (recordsFrom 0 es) (es.flatMap Entry.bytes) (es.map Entry.line) where
  made := by rw [length_recordsFrom, List.length_map]
  newlines := by rw [count_newline hfree, length_recordsFrom]
  starts := by
    have hlines : splitLines NEWLINE (es.flatMap Entry.bytes) = es.map Entry.bytes :=
      splitLines_text (s := ⟨0, es⟩) hfree
    rw [hlines, lineStarts_bytes]
  window start n record hrecord hn := by
    rw [getElem?_recordsFrom] at hrecord
    obtain ⟨e, -, rfl⟩ := Option.map_eq_some_iff.mp hrecord
    rw [length_recordsFrom] at hn
    rw [Nat.zero_add, drop_flatMap_bytes, readSequence_flatMap
      (fun e he => hfree e (List.mem_of_mem_drop he)) (by rw [List.length_drop]; omega),
      List.map_take, List.map_drop]

theorem length_le_count_newline (es : List Entry) :
    es.length ≤ (es.flatMap Entry.bytes).count NEWLINE := by
  induction es with
  | nil => exact le_rfl
  | cons e es ih =>
    have hone : 0 < e.bytes.count NEWLINE := List.count_pos_iff.mpr (by simp [Entry.bytes])
    rw [List.flatMap_cons, List.count_append, List.length_cons]
    omega

/-- **As many newlines as lines**: there is none in a line. -/
theorem newlineFree_of_count (h : (es.flatMap Entry.bytes).count NEWLINE = es.length) :
    ∀ e ∈ es, NewlineFree e.line := by
  induction es with
  | nil => exact nofun
  | cons e es ih =>
    have hbytes : e.bytes.count NEWLINE = (utf8 e.line).count NEWLINE + 1 := by
      rw [Entry.bytes, List.count_append, List.count_singleton_self]
    have hle := length_le_count_newline es
    rw [List.flatMap_cons, List.count_append, hbytes, List.length_cons] at h
    refine List.forall_mem_cons.mpr ⟨List.count_eq_zero.mp (by omega), ih (by omega)⟩

end File

/-! ## The logs of a process -/

section Process

variable {name : String} {maxBytes maxRotatedFiles k i : ℕ} {p p' : ProcessLogs} {s : Stream}
  {cur : Segment} {old : List Segment} {bytes : List UInt8} {clean clean' : Prop}

theorem LogsSound.mono (h : LogsSound clean name maxBytes maxRotatedFiles p)
    (hclean : clean' → clean) : LogsSound clean' name maxBytes maxRotatedFiles p where
  drawn := h.drawn
  log s := by
    obtain ⟨k, cur, old, hlog⟩ := h.log s
    exact ⟨k, cur, old, hlog.head, hlog.newest, hlog.flushed, hlog.stored ∘ hclean,
      hlog.room ∘ hclean, hlog.kept ∘ hclean⟩
  idle := h.idle
  named := h.named ∘ hclean

/-- **A log and its records** are those of a segment. -/
theorem LogOf.appended (h : LogOf True name maxBytes maxRotatedFiles p s k cur old) {seg : Segment}
    (hseg : (cur :: old)[i]? = some seg) :
    p.shared.disk.read (logName (logPathOf name s) i) = some (.text seg.text) ∧
      p.appended name s i = seg.records := by
  have hlog : p.shared.disk.read (logName (logPathOf name s) i) = _ :=
    congrFun (h.stored trivial).logs i
  have hidx : p.shared.disk.read (idxName (logPathOf name s) i) = _ :=
    congrFun (h.stored trivial).indexes i
  refine ⟨by rw [hlog, Directory.stack, List.getElem?_map, hseg]; rfl, ?_⟩
  rw [ProcessLogs.appended, hidx]
  cases i with
  | zero =>
    obtain rfl : cur = seg := Option.some.inj hseg
    rw [if_pos rfl, h.head.buffer]
    exact List.take_append_drop k cur.records
  | succ i =>
    have hold : (old.map Segment.fullIndex)[i]? = some seg.fullIndex := by
      rw [List.getElem?_map, ← List.getElem?_cons_succ, hseg]
      rfl
    rw [if_neg (Nat.succ_ne_zero i), List.append_nil]
    exact congrArg (fun c => Option.elim c [] Content.records) hold

/-- **Without newlines in what was written**, every log is in step. -/
theorem oneRecordPerLine_of_newlineFree (h : LogsSound True name maxBytes maxRotatedFiles p)
    (hfree : ∀ s, ∀ x ∈ p.written s, NewlineFree x.entry.line) : p.OneRecordPerLine name := by
  intro s i bytes hread
  obtain ⟨k, cur, old, hlog⟩ := h.log s
  obtain ⟨seg, hseg⟩ : ∃ seg, (cur :: old)[i]? = some seg := by
    have hstack : p.shared.disk.read (logName (logPathOf name s) i) = _ :=
      congrFun (hlog.stored trivial).logs i
    rw [hread, Directory.stack, List.getElem?_map] at hstack
    obtain ⟨seg, hseg, -⟩ := Option.map_eq_some_iff.mp hstack.symm
    exact ⟨seg, hseg⟩
  obtain ⟨htext, happended⟩ := hlog.appended hseg
  obtain rfl : seg.text = bytes := Content.text.inj (Option.some.inj (htext.symm.trans hread))
  have hwithin : seg.entries <:+: (p.written s).map (·.entry) := by
    have hmem : seg.entries ∈ ((cur :: old).map Segment.entries).reverse :=
      List.mem_reverse.mpr (List.mem_map_of_mem (List.mem_of_getElem? hseg))
    exact (List.infix_of_mem_flatten hmem).trans (hlog.kept trivial).isInfix
  refine ⟨seg.entries.map Entry.line, ?_, ?_⟩
  · have hlines := hwithin.map Entry.line
    rwa [List.map_map] at hlines
  · rw [happended]
    refine inStep_of_newlineFree fun e he => ?_
    obtain ⟨x, hx, rfl⟩ := List.mem_map.mp (hwithin.subset he)
    exact hfree s x hx

/-- **In step**, a log has no newline but at the end of a line. -/
theorem LogOf.newlineFree (h : LogOf True name maxBytes maxRotatedFiles p s k cur old)
    (hone : p.OneRecordPerLine name) : ∀ seg ∈ cur :: old, ∀ e ∈ seg.entries, NewlineFree e.line := by
  intro seg hmem
  obtain ⟨i, hseg⟩ := List.mem_iff_getElem?.mp hmem
  obtain ⟨htext, happended⟩ := h.appended hseg
  obtain ⟨lines, -, hstep⟩ := hone s i _ htext
  refine newlineFree_of_count ?_
  rw [← Segment.length_records, ← happended]
  exact hstep.newlines

/-- A line that is written, and leaves the logs in step, has no newline. -/
theorem newlineFree_of_emit (h : LogsSound True name maxBytes maxRotatedFiles p)
    (hopen : p.ended s = false) {line : String}
    (hone : (p.emit (.of name s maxBytes maxRotatedFiles) s line).OneRecordPerLine name) :
    NewlineFree line := by
  obtain ⟨k, cur, old, hlog⟩ := h.log s
  obtain ⟨k', hlog'⟩ := hlog.emit h.named hopen line
  exact hlog'.newlineFree hone _ List.mem_cons_self ⟨line, p.shared.seq⟩ (by simp)

/-- **The line of a step** that leaves the logs in step has no newline. -/
theorem newlineFree_of_arrival (h : LogsSound True name maxBytes maxRotatedFiles p) {e : LogsEvent}
    (hstep : LogsStep name maxBytes maxRotatedFiles p e p') (hone : p'.OneRecordPerLine name) :
    ∀ x ∈ arrival ⟨p, e, p'⟩, NewlineFree x.2.entry.line := by
  cases hstep with
  | @write s line hidle hopen hfits =>
    rintro x hx
    obtain rfl := Option.some.inj hx
    exact newlineFree_of_emit h hopen hone
  | @resume s line hline =>
    rintro x hx
    simp only [arrival, hline, Option.map_some] at hx
    obtain rfl := Option.some.inj hx
    exact newlineFree_of_emit (h.calm s) (h.ended_of_pending hline) hone
  | rotate | finish | respawn => rintro _ ⟨⟩

/-! ## Along a run -/

/-- **A process just spawned** among the logs left behind. -/
theorem InheritedLogs.sound (hdot : name ≠ ".") {disk : Disk} {sent : List OutputLine} {n : ℕ}
    {written : Stream → List Printed} (h : InheritedLogs name disk n written) :
    LogsSound True name maxBytes DEFAULT_MAX_ROTATED_FILES (.opened name disk sent n written) where
  drawn := .opened disk sent h.past h.ordered h.distinct
  log s := by
    obtain ⟨older, holder, hroom, hlines⟩ := h.rotated s
    exact ⟨0, ⟨0, []⟩, older, .opened (fun _ => hdot) h.past (fun _ => holder) (fun _ => hroom)
      fun _ => hlines ▸ List.suffix_rfl⟩
  idle _ _ := rfl
  named _ := hdot

/-- What the logs left behind hold, while they are in step. -/
theorem InheritedLogs.newlineFree (hdot : name ≠ ".") {disk : Disk} {sent : List OutputLine} {n : ℕ}
    {written : Stream → List Printed} (h : InheritedLogs name disk n written)
    (hone : ProcessLogs.OneRecordPerLine name (.opened name disk sent n written)) :
    ∀ s, ∀ x ∈ written s, NewlineFree x.entry.line := by
  intro s x hx
  obtain ⟨older, holder, hroom, hlines⟩ := h.rotated s
  have hlog : LogOf True name 0 DEFAULT_MAX_ROTATED_FILES (.opened name disk sent n written) s 0
      ⟨0, []⟩ older :=
    .opened (fun _ => hdot) h.past (fun _ => holder) (fun _ => hroom) fun _ =>
      hlines ▸ List.suffix_rfl
  have hmem : x.entry ∈ entriesOf older := hlines ▸ List.mem_map_of_mem hx
  obtain ⟨entries, hentries, he⟩ := List.mem_flatten.mp hmem
  obtain ⟨seg, hseg, rfl⟩ := List.mem_map.mp (List.mem_reverse.mp hentries)
  exact hlog.newlineFree hone seg (List.mem_cons_of_mem _ hseg) _ he

/-- **In step all along, exactly if** no line was written with a newline in it. -/
theorem oneRecordPerLine_iff_newlineFree (hdot : name ≠ ".") {directory : Disk → Prop} {disk : Disk}
    {sent : List OutputLine} {n : ℕ} {written : Stream → List Printed}
    {ts : List (Transition ProcessLogs LogsEvent)} (h : InheritedLogs name disk n written)
    (hrun : (processLogs name maxBytes DEFAULT_MAX_ROTATED_FILES directory).Run
      (.opened name disk sent n written) ts p) :
    LogsSound True name maxBytes DEFAULT_MAX_ROTATED_FILES p ∧
      ((ProcessLogs.OneRecordPerLine name (.opened name disk sent n written) ∧
        ∀ τ ∈ ts, τ.dst.OneRecordPerLine name) ↔
        ∀ s, ∀ x ∈ p.written s, NewlineFree x.entry.line) := by
  induction hrun with
  | refl =>
    have hsound : LogsSound True name maxBytes DEFAULT_MAX_ROTATED_FILES
        (.opened name disk sent n written) := h.sound hdot
    exact ⟨hsound, fun hone => h.newlineFree hdot hone.1, fun hfree =>
      ⟨oneRecordPerLine_of_newlineFree hsound hfree, nofun⟩⟩
  | @snoc ts t u e hrun hstep ih =>
    obtain ⟨hsound, ih⟩ := ih
    have hsound' := hsound.step (fun _ => rfl) hstep
    have hwritten := (extends_step (hsound.mono False.elim) hstep).written
    refine ⟨hsound', fun ⟨hone, hall⟩ => ?_, fun hfree => ?_⟩
    · obtain ⟨hts, hlast⟩ := List.forall_mem_append.mp hall
      have hu := hlast _ (List.mem_singleton_self _)
      intro s x hx
      rw [hwritten] at hx
      rcases List.mem_append.mp hx with hx | hx
      · exact ih.mp ⟨hone, hts⟩ s x hx
      · obtain ⟨y, hy, rfl⟩ := List.mem_map.mp hx
        have hy := Option.mem_toList.mp (List.mem_of_mem_filter hy)
        exact newlineFree_of_arrival hsound hstep hu y hy
    · have ht : ∀ s, ∀ x ∈ t.written s, NewlineFree x.entry.line := fun s x hx =>
        hfree s x (hwritten s ▸ List.mem_append_left _ hx)
      obtain ⟨hone, hts⟩ := ih.mpr ht
      refine ⟨hone, List.forall_mem_append.mpr ⟨hts, fun τ hτ => ?_⟩⟩
      obtain rfl := List.mem_singleton.mp hτ
      exact oneRecordPerLine_of_newlineFree hsound' hfree

/-- **One record per physical line, exactly if** no line quotes a watch error with a newline in it. -/
theorem oneRecordPerLine_iff (hdot : name ≠ ".") {directory : Disk → Prop} {disk : Disk}
    {sent : List OutputLine}
    {n : ℕ} {written : Stream → List Printed} {ts : List (Transition ProcessLogs LogsEvent)}
    (h : InheritedLogs name disk n written)
    (hrun : (processLogs name maxBytes DEFAULT_MAX_ROTATED_FILES directory).Run
      (.opened name disk sent n written) ts p)
    (hloggable : ∀ s, ∀ x ∈ p.written s, Loggable x.entry.line) :
    (ProcessLogs.OneRecordPerLine name (.opened name disk sent n written) ∧
      ∀ τ ∈ ts, τ.dst.OneRecordPerLine name) ↔
      ∀ s, ∀ x ∈ p.written s, ∀ e, x.entry.line = watchSetupFailed e → NewlineFree e := by
  rw [(oneRecordPerLine_iff_newlineFree hdot h hrun).2]
  exact forall_congr' fun s => forall₂_congr fun x hx => (hloggable s x hx).newlineFree_iff

end Process

/-! ## A pattern of two lines -/

def twoLineGlobs : GlobCompiler := fun pattern =>
  if pattern = "a\n[" then
    .error "error parsing glob 'a\n[': unclosed character class; missing ']'"
  else sampleGlobs pattern

theorem inheritedLogs_empty : InheritedLogs "web" (.empty (.text [])) 0 fun _ => [] where
  rotated _ := ⟨[], ⟨fun _ => rfl, fun _ => rfl⟩, Nat.zero_le _, rfl⟩
  past := nofun
  ordered _ := .nil
  distinct := nofun

/-- What is wrong with the watch of a process that is run, its log is told. -/
theorem loggable_watchSetupFailed (config : WatchConfig) (e : String) :
    Loggable (watchSetupFailed e) := by
  have hreach := @World.reachable_receive (.new "s") { Os.quiet 1 with watch := .error e }
    (.spawn "true" (some "web") none none none none (some config) 0) (World.reachable_new "s") rfl rfl
  exact .supervisor hreach (List.mem_singleton.mpr rfl)

/-- The pattern `a⏎[`, quoted in the log. -/
theorem not_oneRecordPerLine : ∃ e, createWatcher twoLineGlobs ⟨["a\n["], none⟩ none = .error e ∧
    Loggable (watchSetupFailed e) ∧ ∃ ts p,
      (processLogs "web" DEFAULT_MAX_LOG_BYTES DEFAULT_MAX_ROTATED_FILES (NoLogs "web")).Run
        (.opened "web" (.empty (.text [])) [] 0 fun _ => []) ts p ∧
      (p.written .stdout).map (·.entry.line) = [watchSetupFailed e] ∧ ¬p.OneRecordPerLine "web" := by
  refine ⟨_, rfl, loggable_watchSetupFailed ⟨["a\n["], none⟩ _, _, _,
    Machine.Run.refl.snoc (@LogsStep.write _ _ _ _ .stdout _ rfl rfl (by decide +kernel)), rfl,
    fun hone => ?_⟩
  have hsound : LogsSound True "web" DEFAULT_MAX_LOG_BYTES DEFAULT_MAX_ROTATED_FILES
      (.opened "web" (.empty (.text [])) [] 0 fun _ => []) := inheritedLogs_empty.sound (by decide)
  exact absurd (newlineFree_of_emit hsound rfl hone) (by decide +kernel)

/-- A line of the pipe, and a pattern of one line. -/
theorem oneRecordPerLine_one : ∃ ts p,
    (processLogs "web" DEFAULT_MAX_LOG_BYTES DEFAULT_MAX_ROTATED_FILES (NoLogs "web")).Run
      (.opened "web" (.empty (.text [])) [] 0 fun _ => []) ts p ∧
    (p.written .stdout).map (·.entry.line) = ["a", watchSetupFailed "error parsing glob '['"] ∧
    ∀ τ ∈ ts, τ.dst.OneRecordPerLine "web" := by
  have hfirst : (processLogs "web" DEFAULT_MAX_LOG_BYTES DEFAULT_MAX_ROTATED_FILES (NoLogs "web")).Run
      (.opened "web" (.empty (.text [])) [] 0 fun _ => []) _ _ :=
    Machine.Run.refl.snoc (@LogsStep.write _ _ _ _ .stdout "a" rfl rfl (by decide +kernel))
  have hrun := hfirst.snoc (@LogsStep.write _ _ _ _ .stdout
    (watchSetupFailed "error parsing glob '['") rfl rfl (by decide +kernel))
  refine ⟨_, _, hrun, rfl,
    ((oneRecordPerLine_iff (by decide) inheritedLogs_empty hrun ?_).mpr ?_).2⟩
  · rintro (_ | _) x hx
    · obtain rfl | rfl := List.mem_pair.mp hx
      · exact @Loggable.pipe [97, 10] [] false "a" (by decide +kernel)
      · exact loggable_watchSetupFailed ⟨["["], none⟩ _
    · exact absurd hx List.not_mem_nil
  · rintro (_ | _) x hx e heq
    · have hfree : NewlineFree x.entry.line := by
        obtain rfl | rfl := List.mem_pair.mp hx <;> decide +kernel
      exact (newlineFree_append.mp (heq ▸ hfree)).2
    · exact absurd hx List.not_mem_nil

end AgentProcs
