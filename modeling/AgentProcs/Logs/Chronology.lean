import AgentProcs.Logs.IndexLag
import AgentProcs.Machinery.StableSort

/-!
# Logs/Chronology — the merged view and the incarnations in it

    stdout   a₀ a₁ │ b₀ b₁        numbers   0 2 │ 0 1          sorted by number, stdout first in a tie
    stderr   c₀ c₁ │ d₀                     1 3 │ 2            ──▸  a₀ b₀ c₀ b₁ a₁ d₀ c₁
             first │ second incarnation

The merged view sorts what both indexes hold by sequence number, and every incarnation counts from 0.
So the view is chronological exactly when, among the lines retained, an earlier incarnation's numbers
are below a later one's.
-/

namespace AgentProcs

open scoped List

/-! ## Merging two streams -/

/-- A stream's lines with their numbers and places. -/
def numbered (source : LineSource) (es : List Entry) : List (ℕ × LineSource × ℕ) :=
  es.zipIdx.map fun (e, i) => (e.seq, source, i)

/-- Where two lines stand before the sort. -/
def Place (a b : ℕ × LineSource × ℕ) : Prop :=
  a.2.1 = .stdout ∧ b.2.1 = .stderr ∨ a.2.1 = b.2.1 ∧ a.2.2 < b.2.2

/-- Where they stand after it. -/
def Merged (a b : ℕ × LineSource × ℕ) : Prop := a.1 < b.1 ∨ a.1 = b.1 ∧ Place a b

/-- **The numbers follow the incarnations** among these lines; a tie is fine unless standard output
is the later one. -/
def CounterAhead (shown : LineSource → List Printed) : Prop :=
  ∀ s t, ∀ x ∈ shown s, ∀ y ∈ shown t, x.incarnation < y.incarnation →
    x.entry.seq < y.entry.seq ∨ x.entry.seq = y.entry.seq ∧ ¬(s = .stderr ∧ t = .stdout)

section Merge

variable {shown : LineSource → List Printed} {source : LineSource} {es : List Entry}
  {a b : ℕ × LineSource × ℕ}

theorem mem_numbered : a ∈ numbered source es ↔
    a.2.1 = source ∧ ∃ e, es[a.2.2]? = some e ∧ e.seq = a.1 := by
  obtain ⟨q, s, i⟩ := a
  rw [numbered, List.mem_map]
  refine ⟨?_, ?_⟩
  · rintro ⟨⟨e, j⟩, hmem, heq⟩
    obtain ⟨rfl, rfl, rfl⟩ : e.seq = q ∧ source = s ∧ j = i := by simpa using heq
    exact ⟨rfl, e, List.mem_zipIdx_iff_getElem?.mp hmem, rfl⟩
  · rintro ⟨rfl, e, he, rfl⟩
    exact ⟨(e, i), List.mem_zipIdx_iff_getElem?.mpr he, rfl⟩

theorem place_numbered (source : LineSource) (es : List Entry) :
    (numbered source es).Pairwise Place := by
  have hindex : (es.zipIdx.map Prod.snd).Pairwise (· < ·) := by
    rw [List.zipIdx_map_snd]
    exact List.pairwise_lt_range'
  rw [numbered, List.pairwise_map]
  exact (List.pairwise_map.mp hindex).imp fun hlt => .inr ⟨rfl, hlt⟩

theorem Merged.asymm (hab : Merged a b) : ¬Merged b a := by
  rintro hba
  rcases hab with hlt | ⟨heq, hplace⟩
  · rcases hba with hlt' | ⟨heq', -⟩
    · exact lt_asymm hlt hlt'
    · exact hlt.ne heq'.symm
  · rcases hba with hlt' | ⟨-, hplace'⟩
    · exact hlt'.ne heq.symm
    · rcases hplace with ⟨ha, hb⟩ | ⟨hsame, hlt⟩
      · rcases hplace' with ⟨hb', -⟩ | ⟨hsame', -⟩
        · rw [hb] at hb'
          cases hb'
        · rw [ha, hb] at hsame'
          cases hsame'
      · rcases hplace' with ⟨hb', ha'⟩ | ⟨-, hlt'⟩
        · rw [ha', hb'] at hsame
          cases hsame
        · exact lt_asymm hlt hlt'

/-- The records of both streams, as the merged view collects them. -/
def collected (shown : LineSource → List Printed) : List (ℕ × LineSource × ℕ) :=
  numbered .stdout ((shown .stdout).map (·.entry)) ++ numbered .stderr ((shown .stderr).map (·.entry))

theorem mem_collected : a ∈ collected shown ↔
    ∃ x, (shown a.2.1)[a.2.2]? = some x ∧ x.entry.seq = a.1 := by
  have hstream : ∀ source, a ∈ numbered source ((shown source).map (·.entry)) ↔
      a.2.1 = source ∧ ∃ x, (shown source)[a.2.2]? = some x ∧ x.entry.seq = a.1 := fun source => by
    rw [mem_numbered]
    simp only [List.getElem?_map, Option.map_eq_some_iff]
    exact ⟨fun ⟨hs, _, ⟨x, hx, rfl⟩, hseq⟩ => ⟨hs, x, hx, hseq⟩,
      fun ⟨hs, x, hx, hseq⟩ => ⟨hs, _, ⟨x, hx, rfl⟩, hseq⟩⟩
  rw [collected, List.mem_append, hstream, hstream]
  refine ⟨?_, fun h => ?_⟩
  · rintro (⟨hs, h⟩ | ⟨hs, h⟩)
    · rwa [hs]
    · rwa [hs]
  · cases hs : a.2.1 with
    | stdout => exact .inl ⟨rfl, hs ▸ h⟩
    | stderr => exact .inr ⟨rfl, hs ▸ h⟩

theorem place_collected (shown : LineSource → List Printed) :
    (collected shown).Pairwise Place := by
  refine List.pairwise_append.mpr ⟨place_numbered _ _, place_numbered _ _, fun a ha b hb => ?_⟩
  exact .inl ⟨(mem_numbered.mp ha).1, (mem_numbered.mp hb).1⟩

/-- **The merged view stands in merged order.** -/
theorem merged_collected (shown : LineSource → List Printed) :
    ((collected shown).mergeSort fun a b => a.1 ≤ b.1).Pairwise Merged :=
  pairwise_mergeSort_lex (place_collected shown) fun a ha => by
    rcases ha with ⟨ho, he⟩ | ⟨-, hlt⟩
    · rw [ho] at he
      cases he
    · exact lt_irrefl _ hlt

/-- The merged view of the lines shown. -/
def viewOf (shown : LineSource → List Printed) : List (LineSource × ℕ) :=
  ((collected shown).mergeSort fun a b => a.1 ≤ b.1).map (·.2)

/-- **In chronological order**: each stream in its own order, and each incarnation before the next. -/
structure InOrder (shown : LineSource → List Printed) (view : List (LineSource × ℕ)) : Prop where
  own : ∀ s, (view.filter (·.1 = s)).map (·.2) = List.range (shown s).length
  incarnations : view.Pairwise fun a b => ∀ x ∈ (shown a.1)[a.2]?, ∀ y ∈ (shown b.1)[b.2]?,
    x.incarnation ≤ y.incarnation

/-- Of two lines of one stream, the one with the lower place was printed before. -/
theorem before_of_lt {es : List Printed} (h : es.Pairwise Printed.Before) {i j : ℕ} {x y : Printed}
    (hx : es[i]? = some x) (hy : es[j]? = some y) (hij : i < j) : x.Before y := by
  obtain ⟨hi, rfl⟩ := List.getElem?_eq_some_iff.mp hx
  obtain ⟨hj, rfl⟩ := List.getElem?_eq_some_iff.mp hy
  exact List.pairwise_iff_getElem.mp h i j hi hj hij

/-- **The merged order respects the incarnations** if and only if the numbers do. -/
theorem merged_incarnations_iff (hordered : ∀ s, (shown s).Pairwise Printed.Before) :
    (∀ a ∈ collected shown, ∀ b ∈ collected shown, Merged a b → ∀ x ∈ (shown a.2.1)[a.2.2]?,
      ∀ y ∈ (shown b.2.1)[b.2.2]?, x.incarnation ≤ y.incarnation) ↔ CounterAhead shown := by
  refine ⟨fun h s t x hx y hy hlt => ?_, fun h a ha b hb hab x hx y hy => ?_⟩
  · -- were the numbers the other way round, the later line would be sorted to the front
    by_contra hnot
    obtain ⟨hge, htie⟩ := not_or.mp hnot
    obtain ⟨i, hi⟩ := List.getElem?_of_mem hx
    obtain ⟨j, hj⟩ := List.getElem?_of_mem hy
    have hmerged : Merged (y.entry.seq, t, j) (x.entry.seq, s, i) := by
      rcases (Nat.not_lt.mp hge).lt_or_eq with hseq | hseq
      · exact .inl hseq
      · obtain ⟨rfl, rfl⟩ := not_not.mp (not_and.mp htie hseq.symm)
        exact .inr ⟨hseq, .inl ⟨rfl, rfl⟩⟩
    have hle := h _ (mem_collected.mpr ⟨y, hj, rfl⟩) _ (mem_collected.mpr ⟨x, hi, rfl⟩) hmerged y hj
      x hi
    exact absurd hle (Nat.not_le.mpr hlt)
  · obtain ⟨x', hx', hxa⟩ := mem_collected.mp ha
    obtain ⟨y', hy', hyb⟩ := mem_collected.mp hb
    obtain rfl : x' = x := Option.some.inj (hx'.symm.trans hx)
    obtain rfl : y' = y := Option.some.inj (hy'.symm.trans hy)
    by_contra hlt
    have hlt := Nat.not_le.mp hlt
    have hahead := h _ _ y' (List.mem_of_getElem? hy') x' (List.mem_of_getElem? hx') hlt
    rcases hab with hseq | ⟨hseq, hplace⟩
    · rcases hahead with hseq' | ⟨hseq', -⟩ <;> omega
    · rcases hahead with hseq' | ⟨-, hnot⟩
      · omega
      · rcases hplace with ⟨ho, he⟩ | ⟨hsame, hij⟩
        · exact hnot ⟨he, ho⟩
        · rw [hsame] at hx'
          rcases before_of_lt (hordered _) hx' hy' hij with hinc | ⟨hinc, -⟩ <;> omega

/-- Under that condition the merged order of one stream's lines is their own. -/
theorem place_lt_of_merged (hordered : ∀ s, (shown s).Pairwise Printed.Before)
    (h : CounterAhead shown) (ha : a ∈ collected shown) (hb : b ∈ collected shown)
    (hab : Merged a b) (hsame : a.2.1 = b.2.1) : a.2.2 < b.2.2 := by
  obtain ⟨x, hx, hxa⟩ := mem_collected.mp ha
  obtain ⟨y, hy, hyb⟩ := mem_collected.mp hb
  have hplace : a.1 = b.1 → a.2.2 < b.2.2 := fun hseq => by
    rcases hab with hlt | ⟨-, ⟨ho, he⟩ | ⟨-, hij⟩⟩
    · exact absurd hseq hlt.ne
    · rw [hsame, he] at ho
      cases ho
    · exact hij
  have hle : a.1 ≤ b.1 := hab.elim le_of_lt fun ⟨hseq, _⟩ => hseq.le
  rcases lt_trichotomy a.2.2 b.2.2 with hlt | heq | hgt
  · exact hlt
  · rw [hsame, heq, hy] at hx
    obtain rfl := Option.some.inj hx
    exact hplace (hxa.symm.trans hyb)
  · -- printed in the other order, so with numbers in the other order
    rw [← hsame] at hy
    rcases before_of_lt (hordered _) hy hx hgt with hinc | ⟨-, hseq⟩
    · rcases h _ _ y (List.mem_of_getElem? hy) x (List.mem_of_getElem? hx) hinc with
        hseq | ⟨hseq, -⟩
      · omega
      · exact hplace (by omega)
    · omega

/-- One stream's part of what is collected. -/
theorem filter_collected (shown : LineSource → List Printed) (s : LineSource) :
    (collected shown).filter (·.2.1 = s) = numbered s ((shown s).map (·.entry)) := by
  have hall : ∀ t, (numbered t ((shown t).map (·.entry))).filter (·.2.1 = t) =
      numbered t ((shown t).map (·.entry)) := fun t =>
    List.filter_eq_self.mpr fun a ha => decide_eq_true (mem_numbered.mp ha).1
  have hnone : ∀ t, t ≠ s → (numbered t ((shown t).map (·.entry))).filter (·.2.1 = s) = [] :=
    fun t ht => List.filter_eq_nil_iff.mpr fun a ha heq =>
      ht ((mem_numbered.mp ha).1.symm.trans (of_decide_eq_true heq))
  rw [collected, List.filter_append]
  cases s with
  | stdout => rw [hall, hnone .stderr nofun, List.append_nil]
  | stderr => rw [hall, hnone .stdout nofun, List.nil_append]

theorem map_place_numbered (s : LineSource) (es : List Entry) :
    (numbered s es).map (·.2.2) = List.range es.length := by
  have hsnd := List.zipIdx_map_snd 0 es
  rw [← List.range_eq_range'] at hsnd
  rw [numbered, List.map_map]
  exact hsnd

/-- Under that condition each stream keeps its own order. -/
theorem own_of_counterAhead (hordered : ∀ s, (shown s).Pairwise Printed.Before)
    (h : CounterAhead shown) (s : LineSource) :
    ((viewOf shown).filter (·.1 = s)).map (·.2) = List.range (shown s).length := by
  have hperm := List.mergeSort_perm (collected shown) fun a b => a.1 ≤ b.1
  have hview : ((viewOf shown).filter (·.1 = s)).map (·.2) =
      (((collected shown).mergeSort fun a b => a.1 ≤ b.1).filter (·.2.1 = s)).map (·.2.2) := by
    rw [viewOf, List.filter_map, List.map_map]
    rfl
  have hascending : ((((collected shown).mergeSort fun a b => a.1 ≤ b.1).filter
      (·.2.1 = s)).map (·.2.2)).Pairwise (· < ·) := by
    rw [List.pairwise_map]
    refine ((merged_collected shown).filter _).imp_of_mem fun {a b} ha hb hab => ?_
    obtain ⟨ha, has⟩ := List.mem_filter.mp ha
    obtain ⟨hb, hbs⟩ := List.mem_filter.mp hb
    exact place_lt_of_merged hordered h (hperm.subset ha) (hperm.subset hb) hab
      ((of_decide_eq_true has).trans (of_decide_eq_true hbs).symm)
  have hrange : (((collected shown).mergeSort fun a b => a.1 ≤ b.1).filter
      (·.2.1 = s)).map (·.2.2) ~ List.range (shown s).length := by
    have hmap := map_place_numbered s ((shown s).map (·.entry))
    rw [← filter_collected, List.length_map] at hmap
    exact hmap ▸ (hperm.filter _).map _
  rw [hview]
  exact hrange.eq_of_pairwise (fun i j _ _ hij hji => absurd hij (lt_asymm hji)) hascending
    List.pairwise_lt_range

/-- **The merged view is chronological if and only if the numbers follow the incarnations.** -/
theorem inOrder_iff_counterAhead (hordered : ∀ s, (shown s).Pairwise Printed.Before) :
    InOrder shown (viewOf shown) ↔ CounterAhead shown := by
  have hmem : ∀ a, a ∈ ((collected shown).mergeSort fun a b => a.1 ≤ b.1) ↔ a ∈ collected shown :=
    fun a => List.mem_mergeSort
  have hincarnations := pairwise_iff_of_sorted (merged_collected shown)
    (fun _ _ hab => hab.asymm) fun a b => ∀ x ∈ (shown a.2.1)[a.2.2]?,
      ∀ y ∈ (shown b.2.1)[b.2.2]?, x.incarnation ≤ y.incarnation
  simp only [hmem] at hincarnations
  rw [merged_incarnations_iff hordered] at hincarnations
  refine ⟨fun h => hincarnations.mp (List.pairwise_map.mp h.incarnations), fun h =>
    ⟨own_of_counterAhead hordered h, List.pairwise_map.mpr (hincarnations.mpr h)⟩⟩

end Merge

/-! ## What the reader finds -/

/-- A segment found, and the lines its index admits to. -/
structure Indexed (disk : Disk) (seg : DiskSegment) (es : List Entry) : Prop where
  count : seg.lineCount = es.length
  reader : ∃ b, IndexReader.openAt seg.idxPath disk = some ⟨es.length, b, recordsFrom 0 es⟩

/-- A segment found, and what its lines are sorted by. -/
structure Keyed (disk : Disk) (seg : DiskSegment) (keys : List ℕ) : Prop where
  count : seg.lineCount = keys.length
  keys : keys = match IndexReader.openAt seg.idxPath disk with
    | some reader => (reader.readRange 0 seg.lineCount).map (·.seq)
    | none => List.replicate seg.lineCount (2 ^ 64 - 1)

section Find

variable {name : String} {source : LineSource} {disk : Disk} {segs : List Segment} {k : ℕ}
  {segments : List DiskSegment} {parts : List (List Entry)}

theorem Stored.indexed {path : FileName} (h : Stored path k disk segs) {i : ℕ} {es : List Entry}
    (hi : (visible k segs)[i]? = some es) : Indexed disk (describe path i es) es := by
  obtain ⟨s, -, j, rfl, -, hidx⟩ := h.read hi
  refine ⟨rfl, s.seqBase, ?_⟩
  rw [describe, openAt_index hidx, Segment.records, take_recordsFrom, length_recordsFrom]

theorem sum_lineCount_indexed (h : List.Forall₂ (Indexed disk) segments parts) :
    (segments.map (·.lineCount)).sum = parts.flatten.length := by
  induction h with
  | nil => rfl
  | cons hseg _ ih => simp [hseg.count, ih]

/-- **What is collected from a stream**: what each line is sorted by, and its place. -/
theorem mergeEntries_keyed {keys : List (List ℕ)} (h : List.Forall₂ (Keyed disk) segments keys)
    (offset : ℕ) : mergeEntries source disk offset segments =
      (keys.flatten.zipIdx offset).map fun (q, i) => (q, source, i) := by
  induction h generalizing offset with
  | nil => rfl
  | @cons seg qs segments keys hseg _ ih =>
    rw [List.flatten_cons, List.zipIdx_append, List.map_append, ← hseg.count, mergeEntries]
    refine congrArg₂ (· ++ ·) ?_ (ih _)
    rw [hseg.keys]
    cases IndexReader.openAt seg.idxPath disk with
    | none =>
      refine List.ext_getElem (by simp) fun i hi _ => ?_
      simp
    | some reader =>
      refine List.ext_getElem (by simp) fun i hi _ => ?_
      simp

theorem Indexed.keyed {seg : DiskSegment} {es : List Entry} (h : Indexed disk seg es) :
    Keyed disk seg (es.map (·.seq)) where
  count := by rw [h.count, List.length_map]
  keys := by
    obtain ⟨b, hreader⟩ := h.reader
    have hrange : IndexReader.readRange 0 seg.lineCount ⟨es.length, b, recordsFrom 0 es⟩ =
        recordsFrom 0 es := by
      rw [IndexReader.readRange, h.count, List.drop_zero]
      exact List.take_of_length_le (by simp)
    rw [hreader]
    dsimp only
    rw [hrange, map_seq_recordsFrom]

/-- **What is collected from an indexed stream** is numbered as it was written. -/
theorem mergeEntries_eq (h : List.Forall₂ (Indexed disk) segments parts) (offset : ℕ) :
    mergeEntries source disk offset segments =
      (parts.flatten.zipIdx offset).map fun (e, i) => (e.seq, source, i) := by
  have hkeys : List.Forall₂ (Keyed disk) segments (parts.map fun es => es.map (·.seq)) :=
    List.forall₂_map_right_iff.mpr (h.imp fun _ _ => Indexed.keyed)
  rw [mergeEntries_keyed hkeys, ← List.map_flatten, List.zipIdx_map, List.map_map]
  rfl

/-- A name with no stem is probed where none of its own files is. -/
theorem probePath_empty_ne (s : Stream) : (∀ t i, probePath "" s ≠ logName (logPathOf "" t) i) ∧
    ∀ t i, probePath "" s ≠ idxName (logPathOf "" t) i := by
  have hprobe : probePath "" s = logPathOf "" s ++ logPathOf "" s ++ ['.', '1'] := by
    cases s <;> decide +kernel
  have hprefix : logPathOf "" s <+: probePath "" s := by
    rw [hprobe, List.append_assoc]
    exact List.prefix_append _ _
  have hrot : ∀ t, Rotatable (logPathOf "" t) := rotatable_logPathOf (by decide)
  have hletter : ∃ c ∈ logPathOf "" s, ¬(c = '.' ∨ c.isDigit) := by
    cases s <;> exact ⟨'s', by decide, by decide⟩
  refine ⟨fun t i heq => ?_, fun t i heq => ?_⟩
  · by_cases hst : s = t
    · subst hst
      obtain ⟨sep, -, hdots, hname⟩ := (hrot s).logName_eq
      rw [hname, hprobe, List.append_assoc] at heq
      obtain ⟨c, hc, hnot⟩ := hletter
      exact hnot (mem_segmentSuffix hdots
        (List.append_cancel_left heq ▸ List.mem_append_left _ hc))
    · exact ne_of_streams hst hprefix (prefix_logName (hrot t) i) heq
  · have hlast := congrArg List.getLast? heq
    rw [hprobe, idxName, idxPathFor] at hlast
    simp at hlast

/-- **The reader finds** the newest segments: all of them, unless the name is empty. -/
theorem forall₂_newest {cur : Segment} {old : List Segment} {R : DiskSegment → List Entry → Prop}
    (hdot : name ≠ ".") (h : Stored (logPathOf name source.stream) k disk (cur :: old))
    (hprobe : name = "" → disk.dir (probePath name source.stream) = none)
    (hR : ∀ i es, (visible k (cur :: old))[i]? = some es →
      R (describe (logPathOf name source.stream) i es) es) :
    ∃ j, List.Forall₂ R (discoverSegments name source disk)
      ((visible k (cur :: old)).take (j + 1)).reverse := by
  by_cases hname : name = ""
  · refine ⟨0, ?_⟩
    have hcurrent : segmentAt (logPathOf name source.stream) disk = _ := h.segmentAt 0
    have hnone : rotatedSegments (logPathOf name source.stream) source.stream.extension disk
        disk.next 1 = [] := by
      cases disk.next with
      | zero => rfl
      | succ fuel =>
        have habsent : segmentAt (probePath name source.stream) disk = none := by
          rw [segmentAt, hprobe hname]
          rfl
        rw [rotatedSegments]
        unfold probePath at habsent
        simp only [habsent]
    rw [discoverSegments]
    simp only [hnone, hcurrent]
    exact .cons (hR 0 _ rfl) .nil
  · refine ⟨old.length, ?_⟩
    have hall : (visible k (cur :: old)).take (old.length + 1) = visible k (cur :: old) :=
      List.take_of_length_le (by rw [length_visible]; rfl)
    rw [hall]
    exact forall₂_discoverSegments hname hdot h hR

end Find

/-! ## The view of a process -/

/-- The lines of a stream the reader shows: the last ones written may still be buffered for the index,
the first ones may be rotated away. -/
def ProcessLogs.shown (name : String) (p : ProcessLogs) (source : LineSource) : List Printed :=
  let written := p.written source.stream
  let indexed := written.take (written.length - (p.state source.stream).idxWriter.buffer.length)
  indexed.drop
    (indexed.length - ((discoverSegments name source p.shared.disk).map (·.lineCount)).sum)

section Shown

variable {name : String} {maxBytes maxRotatedFiles : ℕ} {p : ProcessLogs} {source : LineSource}
  {k : ℕ} {cur : Segment} {old : List Segment}

theorem shown_suffix (name : String) (p : ProcessLogs) (source : LineSource) :
    p.shown name source <+ p.written source.stream :=
  (List.drop_sublist _ _).trans (List.take_sublist _ _)

theorem visible_take_suffix {j : ℕ} :
    ((visible k (cur :: old)).take (j + 1)).reverse.flatten <:+
      entriesOf old ++ cur.entries.take k := by
  have hall : (visible k (cur :: old)).reverse.flatten = entriesOf old ++ cur.entries.take k := by
    rw [visible, List.reverse_cons, List.flatten_append, List.flatten_singleton]
    rfl
  refine ⟨((visible k (cur :: old)).drop (j + 1)).reverse.flatten, ?_⟩
  rw [← List.flatten_append, ← List.reverse_append, List.take_append_drop, hall]

/-- **What is shown is what is found.** -/
theorem map_shown (h : LogOf True name maxBytes maxRotatedFiles p source.stream k cur old)
    {parts : List (List Entry)} (hparts : parts.flatten <:+ entriesOf old ++ cur.entries.take k)
    (hcount : ((discoverSegments name source p.shared.disk).map (·.lineCount)).sum =
      parts.flatten.length) : (p.shown name source).map (·.entry) = parts.flatten := by
  obtain ⟨gone, hgone⟩ := h.kept trivial
  obtain ⟨hidden, hhidden⟩ := hparts
  have hbuffer : (p.state source.stream).idxWriter.buffer.length = cur.entries.length - k := by
    rw [h.head.buffer, List.length_drop, Segment.length_records]
  have hsplit : (p.written source.stream).map (·.entry) =
      (gone ++ (entriesOf old ++ cur.entries.take k)) ++ cur.entries.drop k := by
    rw [← hgone, entriesOf_cons, List.append_assoc, List.append_assoc, List.take_append_drop]
  have hlength : (p.written source.stream).length - (cur.entries.length - k) =
      (gone ++ (entriesOf old ++ cur.entries.take k)).length := by
    have hlen := congrArg List.length hsplit
    rw [List.length_map, List.length_append, List.length_drop] at hlen
    omega
  have hindexed : ((p.written source.stream).take ((p.written source.stream).length -
      (p.state source.stream).idxWriter.buffer.length)).map (·.entry) =
        gone ++ (entriesOf old ++ cur.entries.take k) := by
    rw [List.map_take, hsplit, hbuffer, hlength, List.take_left]
  rw [ProcessLogs.shown, List.map_drop, hindexed, ← List.length_map (·.entry), hindexed, hcount,
    ← hhidden, ← List.append_assoc, List.length_append, Nat.add_sub_cancel, List.drop_left]

/-- **The merged view is chronological**: restricted to a stream it is that stream, and no line of an
earlier incarnation comes after one of a later. -/
structure Chronological (name : String) (p : ProcessLogs) : Prop where
  own : ∀ (r : DiskLogReader) (now : ℕ) (source : LineSource), r.process = name → r.Stale now →
    (((r.refresh now p.shared.disk).buildMergedIndex p.shared.disk).filter
      (·.1 = source)).map (·.2) = List.range ((r.refresh now p.shared.disk).lineCount source)
  incarnations : ∀ (r : DiskLogReader) (now : ℕ), r.process = name → r.Stale now →
    ((r.refresh now p.shared.disk).buildMergedIndex p.shared.disk).Pairwise fun a b =>
      ∀ x ∈ (p.shown name a.1)[a.2]?, ∀ y ∈ (p.shown name b.1)[b.2]?, x.incarnation ≤ y.incarnation

/-- Nothing is where a process without a name is probed. -/
theorem probe_of_reachable (h : (processLogs "" maxBytes maxRotatedFiles (NoLogs "")).Reachable p)
    (s : Stream) : p.shared.disk.dir (probePath "" s) = none := by
  obtain ⟨hlog, hidx⟩ := probePath_empty_ne s
  refine Machine.Reachable.invariant (P := fun p => p.shared.disk.dir (probePath "" s) = none) h
    ?_ fun p e p' hp hnone hstep => ?_
  · rintro p ⟨disk, hdisk, rfl⟩
    have hnone := Option.map_eq_none_iff.mp (hdisk.probe s)
    exact ((Untouched.openAt _ _ _).dir _ (hlog .stderr) (hidx .stderr)).trans
      (((Untouched.openAt _ _ _).dir _ (hlog .stdout) (hidx .stdout)).trans hnone)
  · have hsound : LogsSound False "" maxBytes maxRotatedFiles p :=
      LogsSound.of_reachable False.elim False.elim False.elim hp
    exact (hsound.foreign hstep hlog hidx).trans hnone

/-- **The segments found** make up the lines shown. -/
theorem found_of_reachable (hdot : name ≠ ".")
    (h : (processLogs name maxBytes DEFAULT_MAX_ROTATED_FILES (NoLogs name)).Reachable p)
    (source : LineSource) :
    ∃ parts, List.Forall₂ (Indexed p.shared.disk) (discoverSegments name source p.shared.disk)
        parts ∧ (p.shown name source).map (·.entry) = parts.flatten ∧
      ((∀ x ∈ p.written source.stream, NewlineFree x.entry.line) →
        List.Forall₂ (Shows p.shared.disk) (discoverSegments name source p.shared.disk) parts) := by
  have hsound : LogsSound True name maxBytes DEFAULT_MAX_ROTATED_FILES p :=
    LogsSound.of_reachable (fun _ => rfl) (fun _ => hdot) (fun _ _ => id) h
  obtain ⟨k, cur, old, hlog⟩ := hsound.log source.stream
  have hstored := hlog.stored trivial
  have hprobe : name = "" → p.shared.disk.dir (probePath name source.stream) = none := fun hname => by
    subst hname
    exact probe_of_reachable h _
  have hshows : (∀ x ∈ p.written source.stream, NewlineFree x.entry.line) → ∀ i es,
      (visible k (cur :: old))[i]? = some es →
        Shows p.shared.disk (describe (logPathOf name source.stream) i es) es := fun hfree i es =>
    hstored.shows fun s hs e he => by
      have hmem : e ∈ entriesOf (cur :: old) :=
        List.mem_flatten.mpr ⟨s.entries, List.mem_reverse.mpr (List.mem_map_of_mem hs), he⟩
      obtain ⟨x, hx, rfl⟩ := List.mem_map.mp ((hlog.kept trivial).subset hmem)
      exact hfree x hx
  obtain ⟨j, hparts⟩ := forall₂_newest (R := fun seg es => Indexed p.shared.disk seg es ∧
      ((∀ x ∈ p.written source.stream, NewlineFree x.entry.line) → Shows p.shared.disk seg es))
    hdot hstored hprobe fun i es hi => ⟨hstored.indexed hi, fun hfree => hshows hfree i es hi⟩
  have hindexed := hparts.imp fun _ _ h => h.1
  exact ⟨_, hindexed, map_shown hlog visible_take_suffix (sum_lineCount_indexed hindexed),
    fun hfree => hparts.imp fun _ _ h => h.2 hfree⟩

/-- **The view is that of the lines shown.** -/
theorem view_of_reachable (hdot : name ≠ ".")
    (h : (processLogs name maxBytes DEFAULT_MAX_ROTATED_FILES (NoLogs name)).Reachable p)
    {r : DiskLogReader} {now : ℕ} (hr : r.process = name)
    (hstale : r.Stale now) :
    (r.refresh now p.shared.disk).buildMergedIndex p.shared.disk = viewOf (p.shown name) ∧
      (∀ source, (r.refresh now p.shared.disk).lineCount source = (p.shown name source).length) ∧
      ∀ source, (p.shown name source).Pairwise Printed.Before := by
  have hsound : LogsSound True name maxBytes DEFAULT_MAX_ROTATED_FILES p :=
    LogsSound.of_reachable (fun _ => rfl) (fun _ => hdot) (fun _ _ => id) h
  refine ⟨?_, fun source => ?_, fun source => (hsound.drawn.ordered _).sublist
    (shown_suffix name p source)⟩
  · obtain ⟨out, hout, hshownOut, -⟩ := found_of_reachable hdot h .stdout
    obtain ⟨err, herr, hshownErr, -⟩ := found_of_reachable hdot h .stderr
    rw [DiskLogReader.buildMergedIndex, DiskLogReader.segments_refresh hr hstale,
      DiskLogReader.segments_refresh hr hstale, mergedIndex, mergeEntries_eq hout,
      mergeEntries_eq herr, viewOf, collected, hshownOut, hshownErr]
    rfl
  · obtain ⟨parts, hparts, hshown, -⟩ := found_of_reachable hdot h source
    rw [DiskLogReader.lineCount, DiskLogReader.segments_refresh hr hstale,
      sum_lineCount_indexed hparts, ← hshown, List.length_map]

/-- **The lines shown are those `read_lines` returns.** -/
theorem readLines_of_reachable (hdot : name ≠ ".")
    (h : (processLogs name maxBytes DEFAULT_MAX_ROTATED_FILES (NoLogs name)).Reachable p)
    (hfree : ∀ s, ∀ x ∈ p.written s, NewlineFree x.entry.line)
    {r : DiskLogReader} {now room start count : ℕ} (hr : r.process = name) (hstale : r.Stale now)
    (hwindow : FitsWindow room start count) :
    (r.refresh now p.shared.disk).readLines p.shared.disk source start count room =
      .ok ((((p.shown name source).map (·.entry.line)).drop start).take count) := by
  obtain ⟨parts, -, hshown, hshows⟩ := found_of_reachable hdot h source
  have hlines : (p.shown name source).map (·.entry.line) = parts.flatten.map Entry.line := by
    rw [← hshown, List.map_map]
    rfl
  rw [DiskLogReader.readLines, DiskLogReader.segments_refresh hr hstale, hlines]
  exact readLinesFromSegments_eq (hshows (hfree _)) hwindow.1 hwindow.2

theorem chronological_iff_inOrder (hdot : name ≠ ".")
    (h : (processLogs name maxBytes DEFAULT_MAX_ROTATED_FILES (NoLogs name)).Reachable p) :
    Chronological name p ↔ InOrder (p.shown name) (viewOf (p.shown name)) := by
  refine ⟨fun hc => ⟨fun s => ?_, ?_⟩, fun hv => ⟨fun r now s hr hstale => ?_,
    fun r now hr hstale => ?_⟩⟩
  · obtain ⟨hview, hcount, -⟩ := view_of_reachable hdot h rfl
      (nofun : (DiskLogReader.new name).Stale 0)
    have hown := hc.own (.new name) 0 s rfl nofun
    rwa [hview, hcount] at hown
  · obtain ⟨hview, -, -⟩ := view_of_reachable hdot h rfl
      (nofun : (DiskLogReader.new name).Stale 0)
    have hincarnations := hc.incarnations (.new name) 0 rfl nofun
    rwa [hview] at hincarnations
  · obtain ⟨hview, hcount, -⟩ := view_of_reachable hdot h hr hstale
    rw [hview, hcount]
    exact hv.own s
  · obtain ⟨hview, -, -⟩ := view_of_reachable hdot h hr hstale
    rw [hview]
    exact hv.incarnations

theorem inOrder_iff_of_reachable (hdot : name ≠ ".")
    (h : (processLogs name maxBytes DEFAULT_MAX_ROTATED_FILES (NoLogs name)).Reachable p) :
    InOrder (p.shown name) (viewOf (p.shown name)) ↔ CounterAhead (p.shown name) := by
  obtain ⟨-, -, hordered⟩ := view_of_reachable hdot h rfl
    (nofun : (DiskLogReader.new name).Stale 0)
  exact inOrder_iff_counterAhead hordered

/-- **The merged view of a process is chronological if and only if**, among the lines shown, the
numbers follow the incarnations. -/
theorem chronological_iff_counterAhead (name : String) (hdot : name ≠ ".") (maxBytes : ℕ)
    (p : ProcessLogs)
    (h : (processLogs name maxBytes DEFAULT_MAX_ROTATED_FILES (NoLogs name)).Reachable p) :
    Chronological name p ↔ CounterAhead (p.shown name) :=
  (chronological_iff_inOrder hdot h).trans (inOrder_iff_of_reachable hdot h)

/-- The logs of `web` in an empty directory. -/
def webLogs : ProcessLogs := .opened "web" (.empty (.text [])) [] 0 fun _ => []

theorem reachable_webLogs : (processLogs "web" DEFAULT_MAX_LOG_BYTES DEFAULT_MAX_ROTATED_FILES
    (NoLogs "web")).Reachable webLogs :=
  .init ⟨_, ⟨fun _ _ => rfl, fun _ _ => rfl, fun _ => rfl⟩, rfl⟩

/-- What standard output writes before a respawn, and what after. -/
def respawned (before after : List String) : ProcessLogs :=
  let ctx := LogContext.of "web" .stdout DEFAULT_MAX_LOG_BYTES DEFAULT_MAX_ROTATED_FILES
  let print := List.foldl fun p line => ProcessLogs.emit ctx .stdout line p
  (print (((print webLogs before).finish .stdout).finish .stderr |>.respawn "web") after).finish
    .stdout

/-- `a`, a respawn, and `b`: a tie on one stream is sorted by place. -/
theorem chronological_iff_counterAhead_respawned :
    (processLogs "web" DEFAULT_MAX_LOG_BYTES DEFAULT_MAX_ROTATED_FILES (NoLogs "web")).Reachable
      (respawned ["a"] ["b"]) ∧ Chronological "web" (respawned ["a"] ["b"]) := by
  have ha := reachable_webLogs.step (@LogsStep.write _ _ _ _ .stdout "a" rfl rfl (by decide +kernel))
  have hend := (ha.step (@LogsStep.finish _ _ _ _ .stdout rfl rfl)).step
    (@LogsStep.finish _ _ _ _ .stderr rfl rfl)
  have hagain := hend.step (.respawn fun s => by cases s <;> rfl)
  have hb : (processLogs "web" DEFAULT_MAX_LOG_BYTES DEFAULT_MAX_ROTATED_FILES
      (NoLogs "web")).Reachable (respawned ["a"] ["b"]) :=
    (hagain.step (@LogsStep.write _ _ _ _ .stdout "b" rfl rfl (by decide +kernel))).step
      (@LogsStep.finish _ _ _ _ .stdout rfl rfl)
  refine ⟨hb, (chronological_iff_counterAhead _ (by decide) _ _ hb).mpr ?_⟩
  have hout : (respawned ["a"] ["b"]).shown "web" .stdout = [⟨0, "a", 0⟩, ⟨1, "b", 0⟩] := by
    decide +kernel
  have herr : (respawned ["a"] ["b"]).shown "web" .stderr = [] := by decide +kernel
  intro s t
  cases s with
  | stdout =>
    cases t with
    | stdout => rw [hout]; decide
    | stderr => rw [hout, herr]; decide
  | stderr => rw [herr]; exact fun x hx => absurd hx List.not_mem_nil

/-- **The counter starts again**: `c` is sorted between `a` and `b`. -/
theorem not_chronological :
    (processLogs "web" DEFAULT_MAX_LOG_BYTES DEFAULT_MAX_ROTATED_FILES (NoLogs "web")).Reachable
      (respawned ["a", "b"] ["c"]) ∧ ¬Chronological "web" (respawned ["a", "b"] ["c"]) := by
  have ha := reachable_webLogs.step (@LogsStep.write _ _ _ _ .stdout "a" rfl rfl (by decide +kernel))
  have hb := ha.step (@LogsStep.write _ _ _ _ .stdout "b" rfl rfl (by decide +kernel))
  have hend := (hb.step (@LogsStep.finish _ _ _ _ .stdout rfl rfl)).step
    (@LogsStep.finish _ _ _ _ .stderr rfl rfl)
  have hagain := hend.step (.respawn fun s => by cases s <;> rfl)
  have hc : (processLogs "web" DEFAULT_MAX_LOG_BYTES DEFAULT_MAX_ROTATED_FILES
      (NoLogs "web")).Reachable (respawned ["a", "b"] ["c"]) :=
    (hagain.step (@LogsStep.write _ _ _ _ .stdout "c" rfl rfl (by decide +kernel))).step
      (@LogsStep.finish _ _ _ _ .stdout rfl rfl)
  refine ⟨hc, fun hchron => ?_⟩
  have hshown : (respawned ["a", "b"] ["c"]).shown "web" .stdout =
      [⟨0, "a", 0⟩, ⟨0, "b", 1⟩, ⟨1, "c", 0⟩] := by decide +kernel
  have hahead := (inOrder_iff_of_reachable (by decide) hc).mp
    ((chronological_iff_inOrder (by decide) hc).mp hchron)
    .stdout .stdout ⟨0, "b", 1⟩ (by rw [hshown]; simp) ⟨1, "c", 0⟩ (by rw [hshown]; simp)
    Nat.zero_lt_one
  revert hahead
  decide

end Shown

end AgentProcs
