import Mathlib.Data.List.DropRight
import Mathlib.Data.List.Infix

/-!
# Machinery/Paths — paths as they are written, joined and stripped

    /a/./b/   ──join c/d──▸   /a/./b/c/d   ──strip /a/b──▸   c/d

A path is what stands between its slashes.  An empty piece and a dot name nothing, and are skipped
when paths are compared, but they stay where they are written.
-/

namespace AgentProcs

/-- What stands between the slashes of a path; the one at its start is apart. -/
structure RawPath where
  absolute : Bool
  pieces : List String
  deriving DecidableEq, Repr

namespace RawPath

/-- Cut at the slashes. -/
def splitSlash : List Char → List String
  | [] => [""]
  | c :: cs =>
    if c = '/' then "" :: splitSlash cs
    else match splitSlash cs with
      | [] => [c.toString]
      | p :: ps => (c.toString ++ p) :: ps

/-- A path as it is written. -/
def parse (s : String) : RawPath :=
  match s.toList with
  | '/' :: cs => ⟨true, splitSlash cs⟩
  | cs => ⟨false, splitSlash cs⟩

/-- A piece that names nothing. -/
def skipped (piece : String) : Bool := piece == "" || piece == "."

/-- The names on a path. -/
def names (p : RawPath) : List String := p.pieces.filter fun x => !skipped x

/-- A relative path may start at the current directory, and says so. -/
def fromHere (p : RawPath) : Bool := !p.absolute && p.pieces.head? == some "."

/-- Pieces before the slash that is put behind them, unless there is one. -/
def withoutSlash (ps : List String) : List String :=
  if ps.getLast? = some "" then ps.dropLast else ps

/-- `Path::join` -/
def join (p q : RawPath) : RawPath :=
  if q.absolute then q else ⟨p.absolute, withoutSlash p.pieces ++ q.pieces⟩

/-- What is left behind the first `n` names. -/
def dropNames : ℕ → List String → List String
  | 0, ps => ps
  | _ + 1, [] => []
  | n + 1, p :: ps => if skipped p then dropNames (n + 1) ps else dropNames n ps

/-- `Path::strip_prefix` -/
def stripPrefix (p base : RawPath) : Option RawPath :=
  if base.absolute = false ∧ base.fromHere = false ∧ base.names = [] then some p
  else if p.absolute = base.absolute ∧ p.fromHere = base.fromHere ∧ base.names <+: p.names then
    some ⟨false, ((dropNames base.names.length p.pieces).dropWhile skipped).rdropWhile skipped⟩
  else none

/-- A relative path all of whose pieces are names. -/
structure Clean (p : RawPath) : Prop where
  relative : p.absolute = false
  names : ∀ x ∈ p.pieces, skipped x = false

section Strip

variable {p q base : RawPath}

theorem names_clean (h : q.Clean) : q.names = q.pieces :=
  List.filter_eq_self.mpr fun x hx => by rw [h.names x hx, Bool.not_false]

/-- Behind the names of the first part comes the second. -/
theorem dropWhile_dropNames (bs qs : List String) :
    (dropNames (bs.filter fun x => !skipped x).length (bs ++ qs)).dropWhile skipped =
      qs.dropWhile skipped := by
  induction bs with
  | nil => rw [List.filter_nil, List.length_nil, List.nil_append, dropNames]
  | cons b bs ih =>
    cases hb : skipped b with
    | true =>
      rw [List.filter_cons_of_neg (by simp [hb]), List.cons_append, ← ih]
      cases (bs.filter fun x => !skipped x).length with
      | zero => rw [dropNames, dropNames, List.dropWhile_cons_of_pos hb]
      | succ n => rw [dropNames, if_pos hb]
    | false =>
      rw [List.filter_cons_of_pos (by simp [hb]), List.cons_append, List.length_cons, dropNames,
        if_neg (by simp [hb]), ih]

theorem filter_withoutSlash (ps : List String) :
    ((withoutSlash ps).filter fun x => !skipped x) = ps.filter fun x => !skipped x := by
  rw [withoutSlash]
  split_ifs with hlast
  · obtain ⟨init, rfl⟩ := List.getLast?_eq_some_iff.mp hlast
    rw [List.dropLast_concat, List.filter_append, List.filter_singleton]
    simp [skipped]
  · rfl

theorem join_eq (hq : q.absolute = false) (p : RawPath) :
    p.join q = ⟨p.absolute, withoutSlash p.pieces ++ q.pieces⟩ := by
  rw [join, if_neg (by simp [hq])]

/-- **Stripping undoes joining**, from an absolute path on. -/
theorem stripPrefix_join (hbase : base.absolute = true) (hq : q.Clean) :
    (base.join q).stripPrefix base = some q := by
  have hnames : (base.join q).names = base.names ++ q.pieces := by
    rw [join_eq hq.relative, names, List.filter_append, filter_withoutSlash]
    exact congrArg _ (names_clean hq)
  have hrest : (dropNames base.names.length (base.join q).pieces).dropWhile skipped = q.pieces := by
    rw [join_eq hq.relative, names, ← filter_withoutSlash, dropWhile_dropNames]
    exact List.dropWhile_eq_self_iff.mpr fun hpos => by simp [hq.names _ (List.getElem_mem hpos)]
  have htail : q.pieces.rdropWhile skipped = q.pieces :=
    List.rdropWhile_eq_self_iff.mpr fun hne => by simp [hq.names _ (List.getLast_mem hne)]
  have hjoined : (base.join q).absolute = true := by rw [join_eq hq.relative, hbase]
  rw [stripPrefix, if_neg (by simp [hbase]), if_pos, hrest, htail]
  · exact congrArg some (congrArg (RawPath.mk · q.pieces) hq.relative.symm)
  · exact ⟨hjoined.trans hbase.symm, by simp [fromHere, hjoined, hbase], hnames ▸ List.prefix_append _ _⟩

/-- **Nothing relative is stripped from an absolute path**: at most the empty path, and then there is
nothing to strip. -/
theorem stripPrefix_getD (hp : p.absolute = true) (hbase : base.absolute = false) :
    (p.stripPrefix base).getD p = p := by
  rw [stripPrefix]
  split_ifs with hempty hno
  · rfl
  · exact absurd (hp.symm.trans (hno.1.trans hbase)) Bool.noConfusion
  · rfl

end Strip

end RawPath

end AgentProcs
