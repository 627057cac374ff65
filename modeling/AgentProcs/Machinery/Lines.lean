import Mathlib.Data.List.Basic
import Mathlib.Tactic.SplitIfs

/-!
# Machinery/Lines — a sequence cut into lines, and the text of a line

    splitLines   a b ⏎ c ⏎ d   =   [a b ⏎] [c ⏎] [d]

A line keeps its terminator; only the last one may lack it.  Cutting is compatible with appending
once the first part ends with a terminator, which is what lets a reader consume line by line what a
writer appends piece by piece.  `utf8?` reads bytes as text, or fails.
-/

namespace AgentProcs

section Split

variable {α : Type*} [DecidableEq α]

/-- Up to the first `nl`, and with it; then the rest. -/
def takeLine (nl : α) : List α → List α × List α
  | [] => ([], [])
  | a :: s => if a = nl then ([a], s) else (a :: (takeLine nl s).1, (takeLine nl s).2)

/-- All lines, each with its terminator. -/
def splitLines (nl : α) : List α → List (List α)
  | [] => []
  | a :: s =>
    if a = nl then [a] :: splitLines nl s
    else match splitLines nl s with
      | [] => [[a]]
      | l :: ls => (a :: l) :: ls

variable {nl : α} {l r s : List α}

/-- A sequence is a line in progress, or a whole line and more. -/
theorem line_or_more (nl : α) (s : List α) : nl ∉ s ∨ ∃ l r, nl ∉ l ∧ s = l ++ nl :: r := by
  by_cases h : nl ∈ s
  · obtain ⟨l, r, hs, hl⟩ := List.eq_append_cons_of_mem h
    exact .inr ⟨l, r, hl, hs⟩
  · exact .inl h

theorem takeLine_of_notMem (h : nl ∉ l) : takeLine nl l = (l, []) := by
  induction l with
  | nil => rfl
  | cons a l ih =>
    obtain ⟨ha, hl⟩ := not_or.mp (mt List.mem_cons.mpr h)
    rw [takeLine, if_neg (Ne.symm ha), ih hl]

theorem takeLine_line (h : nl ∉ l) : takeLine nl (l ++ nl :: r) = (l ++ [nl], r) := by
  induction l with
  | nil => simp [takeLine]
  | cons a l ih =>
    obtain ⟨ha, hl⟩ := not_or.mp (mt List.mem_cons.mpr h)
    rw [List.cons_append, takeLine, if_neg (Ne.symm ha), ih hl]
    rfl

@[simp] theorem takeLine_nil : takeLine nl [] = ([], []) := rfl

theorem takeLine_append (nl : α) (s : List α) : (takeLine nl s).1 ++ (takeLine nl s).2 = s := by
  induction s with
  | nil => rfl
  | cons a s ih =>
    rw [takeLine]
    split_ifs
    · rfl
    · exact congrArg (a :: ·) ih

theorem drop_takeLine (nl : α) (s : List α) :
    s.drop (takeLine nl s).1.length = (takeLine nl s).2 :=
  calc s.drop (takeLine nl s).1.length
      = ((takeLine nl s).1 ++ (takeLine nl s).2).drop (takeLine nl s).1.length := by
        rw [takeLine_append]
    _ = (takeLine nl s).2 := List.drop_left

theorem takeLine_append_of_mem (h : nl ∈ s) (r : List α) :
    (takeLine nl (s ++ r)).1 = (takeLine nl s).1 := by
  obtain ⟨l, t, rfl, hl⟩ := List.eq_append_cons_of_mem h
  rw [List.append_assoc, List.cons_append, takeLine_line hl, takeLine_line hl]

theorem takeLine_append_of_notMem (h : nl ∉ s) (r : List α) :
    (takeLine nl (s ++ r)).1 = s ++ (takeLine nl r).1 := by
  obtain hr | ⟨l, t, hl, rfl⟩ := line_or_more nl r
  · have hsr : nl ∉ s ++ r := fun hm => (List.mem_append.mp hm).elim h hr
    rw [takeLine_of_notMem hsr, takeLine_of_notMem hr]
  · have hsl : nl ∉ s ++ l := fun hm => (List.mem_append.mp hm).elim h hl
    rw [← List.append_assoc, takeLine_line hsl, takeLine_line hl, List.append_assoc]

/-- **The first line of a cut sequence** is the first line, cut. -/
theorem takeLine_take (nl : α) (s : List α) (n : ℕ) :
    (takeLine nl (s.take n)).1 = (takeLine nl s).1.take n := by
  induction s generalizing n with
  | nil => simp
  | cons a s ih =>
    cases n with
    | zero => simp
    | succ n =>
      rw [List.take_succ_cons, takeLine, takeLine]
      split_ifs
      · simp
      · exact congrArg (a :: ·) (ih n)

@[simp] theorem splitLines_nil : splitLines nl [] = [] := rfl

theorem splitLines_of_notMem (h : nl ∉ l) (hne : l ≠ []) : splitLines nl l = [l] := by
  induction l with
  | nil => exact absurd rfl hne
  | cons a l ih =>
    obtain ⟨ha, hl⟩ := not_or.mp (mt List.mem_cons.mpr h)
    cases l with
    | nil => simp [splitLines, Ne.symm ha]
    | cons b l => rw [splitLines, if_neg (Ne.symm ha), ih hl (List.cons_ne_nil _ _)]

/-- **The first line** of a sequence, and the others. -/
theorem splitLines_line (h : nl ∉ l) :
    splitLines nl (l ++ nl :: r) = (l ++ [nl]) :: splitLines nl r := by
  induction l with
  | nil => simp [splitLines]
  | cons a l ih =>
    obtain ⟨ha, hl⟩ := not_or.mp (mt List.mem_cons.mpr h)
    rw [List.cons_append, splitLines, if_neg (Ne.symm ha), ih hl]
    rfl

theorem ne_nil_of_mem_splitLines (h : l ∈ splitLines nl s) : l ≠ [] := by
  induction s generalizing l with
  | nil => exact absurd h (List.not_mem_nil)
  | cons a s ih =>
    rw [splitLines] at h
    split_ifs at h
    · obtain rfl | h := List.mem_cons.mp h
      · exact List.cons_ne_nil _ _
      · exact ih h
    · cases hs : splitLines nl s with
      | nil => simp_all
      | cons m ls =>
        rw [hs] at h
        obtain rfl | h := List.mem_cons.mp h
        · exact List.cons_ne_nil _ _
        · exact ih (hs ▸ List.mem_cons_of_mem _ h)

/-- Cutting, line after line. -/
theorem splitLines_takeLine (h : s ≠ []) :
    splitLines nl s = (takeLine nl s).1 :: splitLines nl (takeLine nl s).2 := by
  obtain hs | ⟨l, r, hl, rfl⟩ := line_or_more nl s
  · rw [takeLine_of_notMem hs, splitLines_of_notMem hs h, splitLines_nil]
  · rw [takeLine_line hl, splitLines_line hl]

/-- Ends where a line ends. -/
def Terminated (nl : α) (s : List α) : Prop := s = [] ∨ ∃ t, s = t ++ [nl]

omit [DecidableEq α] in
theorem Terminated.nil : Terminated nl [] := .inl rfl

omit [DecidableEq α] in
theorem Terminated.append_line (l r : List α) : Terminated nl (r ++ (l ++ [nl])) :=
  .inr ⟨r ++ l, (List.append_assoc r l [nl]).symm⟩

theorem splitLines_ne_nil (h : s ≠ []) : splitLines nl s ≠ [] := by
  cases s with
  | nil => exact absurd rfl h
  | cons a s =>
    rw [splitLines]
    split_ifs
    · exact List.cons_ne_nil _ _
    · cases splitLines nl s <;> exact List.cons_ne_nil _ _

/-- **After whole lines**, what follows is cut on its own. -/
theorem splitLines_append (h : Terminated nl s) (r : List α) :
    splitLines nl (s ++ r) = splitLines nl s ++ splitLines nl r := by
  induction s with
  | nil => rfl
  | cons a s ih =>
    obtain ⟨t, ht⟩ := h.resolve_left (List.cons_ne_nil a s)
    cases t with
    | nil =>
      obtain ⟨rfl, rfl⟩ := List.cons_eq_cons.mp ht
      simp [splitLines]
    | cons b t =>
      have hs : s = t ++ [nl] := (List.cons_eq_cons.mp ht).2
      have hne : s ≠ [] := hs ▸ List.append_ne_nil_of_right_ne_nil t (List.cons_ne_nil nl [])
      rw [List.cons_append, splitLines, splitLines, ih (.inr ⟨t, hs⟩)]
      split_ifs
      · rfl
      · obtain ⟨l, ls, hls⟩ := List.exists_cons_of_ne_nil (splitLines_ne_nil hne)
        rw [hls]
        rfl

/-- Where lines start, the first of them at `offset`. -/
def lineStarts (offset : ℕ) : List (List α) → List ℕ
  | [] => []
  | l :: ls => offset :: lineStarts (offset + l.length) ls

omit [DecidableEq α] in
@[simp] theorem length_lineStarts (offset : ℕ) (ls : List (List α)) :
    (lineStarts offset ls).length = ls.length := by
  induction ls generalizing offset with
  | nil => rfl
  | cons l ls ih => rw [lineStarts, List.length_cons, List.length_cons, ih]

omit [DecidableEq α] in
/-- A line starts where the lines before it end. -/
theorem getElem?_lineStarts {offset i : ℕ} {ls : List (List α)} (h : i < ls.length) :
    (lineStarts offset ls)[i]? = some (offset + (ls.take i).flatten.length) := by
  induction ls generalizing offset i with
  | nil => exact absurd h (Nat.not_lt_zero _)
  | cons l ls ih =>
    cases i with
    | zero => rfl
    | succ i =>
      rw [lineStarts, List.getElem?_cons_succ, ih (Nat.lt_of_succ_lt_succ h), List.take_succ_cons,
        List.flatten_cons, List.length_append, Nat.add_assoc]

/-- **From the start of a line on**, there are that line and those behind it. -/
theorem splitLines_drop (nl : α) (s : List α) (i : ℕ) :
    splitLines nl (s.drop ((splitLines nl s).take i).flatten.length) = (splitLines nl s).drop i := by
  induction i generalizing s with
  | zero => rfl
  | succ i ih =>
    cases hs : s with
    | nil => rfl
    | cons a t =>
      rw [← hs]
      have hne : s ≠ [] := hs ▸ List.cons_ne_nil a t
      rw [splitLines_takeLine hne, List.take_succ_cons, List.flatten_cons, List.length_append,
        List.drop_succ_cons, ← ih, ← drop_takeLine nl s, List.drop_drop]

/-- Written lines are read back. -/
theorem splitLines_flatMap {ls : List (List α)} (h : ∀ l ∈ ls, nl ∉ l) :
    splitLines nl (ls.flatMap (· ++ [nl])) = ls.map (· ++ [nl]) := by
  induction ls with
  | nil => rfl
  | cons l ls ih =>
    obtain ⟨hl, hls⟩ := List.forall_mem_cons.mp h
    rw [List.flatMap_cons, List.append_assoc, List.singleton_append, splitLines_line hl, ih hls,
      List.map_cons]

end Split

/-! ## Text -/

def NEWLINE : UInt8 := 10

/-- The bytes of a text. -/
def utf8 (s : String) : List UInt8 := s.toByteArray.data.toList

/-- The text these bytes encode. -/
def utf8? (bs : List UInt8) : Option String := String.fromUTF8? ⟨⟨bs⟩⟩

@[simp] theorem utf8?_utf8 (s : String) : utf8? (utf8 s) = some s := by
  have hbytes : (⟨⟨utf8 s⟩⟩ : ByteArray) = s.toByteArray := rfl
  rw [utf8?, hbytes, String.fromUTF8?, dif_pos s.isValidUTF8]
  rfl

/-- Text that was read is what the bytes encode. -/
theorem utf8_of_utf8? {bs : List UInt8} {text : String} (h : utf8? bs = some text) :
    utf8 text = bs := by
  rw [utf8?, String.fromUTF8?] at h
  split_ifs at h with hvalid
  obtain rfl := Option.some.inj h
  rfl

theorem utf8_append (s t : String) : utf8 (s ++ t) = utf8 s ++ utf8 t := by
  simp [utf8]

@[simp] theorem length_utf8 (s : String) : (utf8 s).length = s.utf8ByteSize := rfl

theorem utf8_ofList (cs : List Char) :
    utf8 (String.ofList cs) = cs.flatMap String.utf8EncodeChar := by
  rw [utf8, String.toByteArray_ofList, List.utf8Encode]
  simp

/-- A byte below 128 stands for one character, and for nothing in another. -/
theorem toNat_of_mem_utf8EncodeChar {b : UInt8} {c : Char} (hb : b.toNat < 128)
    (h : b ∈ String.utf8EncodeChar c) : c.toNat = b.toNat := by
  have hbyte : ∀ n < 256, b = UInt8.ofNat n → n = b.toNat := fun n hn heq => by
    have hmod : b.toNat = n % 256 := congrArg UInt8.toNat heq
    omega
  have hhigh : ∀ n, 128 ≤ n → n < 256 → b ≠ UInt8.ofNat n := fun n hle hlt heq => by
    have := hbyte n hlt heq
    omega
  rw [String.utf8EncodeChar] at h
  split_ifs at h with hone htwo hthree <;>
    simp only [List.mem_cons, List.not_mem_nil, or_false] at h
  · exact hbyte _ (Nat.lt_of_le_of_lt hone (by decide)) h
  · rcases h with h | h <;> exact absurd h (hhigh _ (by omega) (by omega))
  · rcases h with h | h | h <;> exact absurd h (hhigh _ (by omega) (by omega))
  · rcases h with h | h | h | h <;> exact absurd h (hhigh _ (by omega) (by omega))

/-- **The newline of a text** is a newline of its bytes. -/
theorem newline_mem_utf8 {s : String} : NEWLINE ∈ utf8 s ↔ '\n' ∈ s.toList := by
  obtain ⟨cs, rfl⟩ : ∃ cs, s = String.ofList cs := ⟨s.toList, String.ofList_toList.symm⟩
  rw [utf8_ofList, String.toList_ofList, List.mem_flatMap]
  refine ⟨?_, fun h => ⟨_, h, by decide⟩⟩
  rintro ⟨c, hc, hbyte⟩
  obtain rfl : c = '\n' := Char.toNat_inj.mp (toNat_of_mem_utf8EncodeChar (by decide) hbyte)
  exact hc

end AgentProcs
