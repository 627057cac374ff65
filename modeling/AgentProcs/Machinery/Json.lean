import AgentProcs.Machinery.Traversals
import Mathlib.Algebra.Order.Ring.Int
import Mathlib.Data.List.Nodup

/-!
# Machinery/Json — formats of JSON values

    value ──write──▸ {"mode": "never", "limit": 3} ──read──▸ value      if it fits
                     {"limit": 3, "later": [], "mode": "never"}         the same

A format writes values and reads them, and carries the proof that what fits it reads back.  A record
is read key by key, so neither the order of its keys nor a key it does not know makes a difference.
-/

namespace AgentProcs

/-- A reader goes on with what it has read. -/
theorem bind_of_eq_some {α β : Type*} {x : Option α} {f : α → Option β} {a : α} {y : Option β}
    (hx : x = some a) (hf : f a = y) : x.bind f = y := by rw [hx, Option.bind_some, hf]

/-- A JSON value; the keys of an object may repeat. -/
inductive Json where
  | null
  | bool (b : Bool)
  | int (n : ℤ)
  /-- A number with a fraction or an exponent. -/
  | decimal (mantissa exponent : ℤ)
  | str (s : String)
  | arr (elements : List Json)
  | obj (fields : List (String × Json))

/-- **A format**: how values are written, how they are read, and which read back as they were. -/
structure Format (α : Type) where
  write : α → Json
  read : Json → Option α
  Fits : α → Prop
  read_write : ∀ a, Fits a → read (write a) = some a

namespace Format

variable {α β : Type}

/-- Everything fits. -/
class Total (f : Format α) : Prop where
  fits : ∀ a, f.Fits a

@[simp] theorem read_write_of_total (f : Format α) [h : f.Total] (a : α) :
    f.read (f.write a) = some a := f.read_write a (h.fits a)

def string : Format String where
  write := .str
  read
    | .str s => some s
    | _ => none
  Fits _ := True
  read_write _ _ := rfl

def bool : Format Bool where
  write := .bool
  read
    | .bool b => some b
    | _ => none
  Fits _ := True
  read_write _ _ := rfl

def unsigned (bits : ℕ) : Format ℕ where
  write n := .int n
  read
    | .int n => if 0 ≤ n ∧ n < 2 ^ bits then some n.toNat else none
    | _ => none
  Fits n := n < 2 ^ bits
  read_write n h := by
    have hfits : 0 ≤ (n : ℤ) ∧ (n : ℤ) < 2 ^ bits := ⟨Int.natCast_nonneg n, by exact_mod_cast h⟩
    exact if_pos hfits

def signed (bits : ℕ) : Format ℤ where
  write := .int
  read
    | .int n => if -2 ^ (bits - 1) ≤ n ∧ n < 2 ^ (bits - 1) then some n else none
    | _ => none
  Fits n := -2 ^ (bits - 1) ≤ n ∧ n < 2 ^ (bits - 1)
  read_write _ h := if_pos h

/-- Nothing is written as `null`. -/
class NeverNull (f : Format α) : Prop where
  write_ne_null : ∀ a, f.write a ≠ .null

instance : string.Total := ⟨fun _ => trivial⟩

instance : bool.Total := ⟨fun _ => trivial⟩

instance : string.NeverNull := ⟨nofun⟩

instance : bool.NeverNull := ⟨nofun⟩

instance (bits : ℕ) : (unsigned bits).NeverNull := ⟨nofun⟩

instance (bits : ℕ) : (signed bits).NeverNull := ⟨nofun⟩

/-- `null` is nothing. -/
def readOption (f : Format α) : Json → Option (Option α)
  | .null => some none
  | value => (f.read value).map some

theorem readOption_of_ne_null {f : Format α} {value : Json} (h : value ≠ .null) :
    f.readOption value = (f.read value).map some := by
  cases value with
  | null => exact absurd rfl h
  | _ => rfl

def option (f : Format α) [f.NeverNull] : Format (Option α) where
  write x := x.elim .null f.write
  read := f.readOption
  Fits x := ∀ a ∈ x, f.Fits a
  read_write
    | none, _ => rfl
    | some a, h => by
      rw [Option.elim_some, readOption_of_ne_null (NeverNull.write_ne_null a),
        f.read_write a (h a rfl), Option.map_some]

instance (f : Format α) [f.NeverNull] [h : f.Total] : f.option.Total := ⟨fun _ a _ => h.fits a⟩

def list (f : Format α) : Format (List α) where
  write xs := .arr (xs.map f.write)
  read
    | .arr elements => elements.mapM f.read
    | _ => none
  Fits xs := ∀ x ∈ xs, f.Fits x
  read_write xs h := by
    have hread := mapM_map_pure (m := Option) (g := id) fun x hx => f.read_write x (h x hx)
    rwa [List.map_id] at hread

instance (f : Format α) : f.list.NeverNull := ⟨nofun⟩

instance (f : Format α) [h : f.Total] : f.list.Total := ⟨fun _ a _ => h.fits a⟩

/-- An entry of a map takes the place of the one before it with its key. -/
def insertEntry (m : List (String × α)) (entry : String × α) : List (String × α) :=
  m.filter (·.1 ≠ entry.1) ++ [entry]

theorem foldl_insertEntry {m entries : List (String × α)} (h : ((m ++ entries).map (·.1)).Nodup) :
    entries.foldl insertEntry m = m ++ entries := by
  induction entries generalizing m with
  | nil => exact (List.append_nil m).symm
  | cons entry entries ih =>
    have hnew : m.filter (·.1 ≠ entry.1) = m := List.filter_eq_self.mpr fun e he => by
      rw [List.map_append, List.map_cons] at h
      have hne := (List.nodup_append.mp h).2.2 e.1 (List.mem_map_of_mem he) entry.1
        List.mem_cons_self
      exact decide_eq_true hne
    rw [List.append_cons] at h ⊢
    rw [List.foldl_cons, insertEntry, hnew, ih h]

/-- A map with string keys, as an object. -/
def dict (f : Format α) : Format (List (String × α)) where
  write m := .obj (m.map fun entry => (entry.1, f.write entry.2))
  read
    | .obj fields => do
      let entries ← fields.mapM fun field => (f.read field.2).map (field.1, ·)
      return entries.foldl insertEntry []
    | _ => none
  Fits m := (m.map (·.1)).Nodup ∧ ∀ entry ∈ m, f.Fits entry.2
  read_write m h := by
    have hread : (m.map fun entry => (entry.1, f.write entry.2)).mapM
        (fun field => (f.read field.2).map (field.1, ·)) = some (m.map id) :=
      mapM_map_pure fun entry hentry => by
        rw [f.read_write entry.2 (h.2 entry hentry)]
        rfl
    simp only [hread, List.map_id]
    exact congrArg some (foldl_insertEntry h.1)

instance (f : Format α) : f.dict.NeverNull := ⟨nofun⟩

/-- What another format writes, by way of a conversion. -/
def via (f : Format α) (into : β → α) (back : α → β) (h : ∀ b, back (into b) = b) :
    Format β where
  write b := f.write (into b)
  read value := (f.read value).map back
  Fits b := f.Fits (into b)
  read_write b hb := by rw [f.read_write _ hb, Option.map_some, h]

/-- One of these values, by name. -/
def named (name : β → String) (all : List β) (h : ∀ b, all.find? (name · = name b) = some b) :
    Format β where
  write b := .str (name b)
  read
    | .str s => all.find? (name · = s)
    | _ => none
  Fits _ := True
  read_write b _ := h b

end Format

/-! ## Records -/

/-- The fields of a record. -/
abbrev Fields : Type := List (String × Json)

namespace Fields

variable {α : Type} {key other : String} {f : Format α} {absent : Option α} {fields : Fields}

/-- The values of a key. -/
def valuesOf (key : String) (fields : Fields) : List Json := (fields.filter (·.1 = key)).map (·.2)

/-- **The value of a key**: `absent` where the key is missing; no key may repeat. -/
def member (key : String) (f : Format α) (absent : Option α) (fields : Fields) : Option α :=
  match fields.valuesOf key with
  | [] => absent
  | [value] => f.read value
  | _ => none

/-- A field that has to be there. -/
def required (key : String) (f : Format α) (fields : Fields) : Option α := fields.member key f none

/-- A field of an option type: nothing where it is missing. -/
def optional (key : String) (f : Format α) [f.NeverNull] (fields : Fields) : Option (Option α) :=
  fields.member key f.option (some none)

/-- A field marked with a default. -/
def defaulted (key : String) (f : Format α) (value : α) (fields : Fields) : Option α :=
  fields.member key f (some value)

/-- A record without a key. -/
def without (key : String) (fields : Fields) : Fields := fields.filter (·.1 ≠ key)

/-- A record with another value for a key. -/
def modify (key : String) (g : Json → Json) (fields : Fields) : Fields :=
  fields.map fun field => (field.1, if field.1 = key then g field.2 else field.2)

@[simp] theorem valuesOf_nil : valuesOf key [] = [] := rfl

@[simp] theorem valuesOf_cons (field : String × Json) : valuesOf key (field :: fields) =
    if field.1 = key then field.2 :: valuesOf key fields else valuesOf key fields := by
  rw [valuesOf, List.filter_cons]
  split_ifs with hdecide hkey hkey
  · rfl
  · exact absurd (of_decide_eq_true hdecide) hkey
  · exact absurd (decide_eq_true hkey) hdecide
  · rfl

@[simp] theorem without_nil : without key [] = [] := rfl

@[simp] theorem without_cons (field : String × Json) : without key (field :: fields) =
    if field.1 = key then without key fields else field :: without key fields := by
  rw [without, List.filter_cons]
  split_ifs with hdecide hkey hkey
  · exact absurd hkey (of_decide_eq_true hdecide)
  · rfl
  · rfl
  · exact absurd (decide_eq_true hkey) hdecide

theorem without_of_forall_ne (h : ∀ field ∈ fields, field.1 ≠ key) : fields.without key = fields :=
  List.filter_eq_self.mpr fun field hfield => decide_eq_true (h field hfield)

theorem without_without_comm : (fields.without key).without other =
    (fields.without other).without key := by
  rw [without, without, without, without, List.filter_filter, List.filter_filter]
  exact List.filter_congr fun _ _ => Bool.and_comm ..

/-- A key is not found where it was left out, and found elsewhere as it was. -/
theorem valuesOf_without : valuesOf key (fields.without other) =
    if key = other then [] else valuesOf key fields := by
  induction fields with
  | nil => split_ifs <;> rfl
  | cons field fields ih =>
    rw [without_cons, valuesOf_cons]
    by_cases hother : field.1 = other
    · rw [if_pos hother, ih]
      by_cases hkey : key = other
      · rw [if_pos hkey, if_pos hkey]
      · rw [if_neg hkey, if_neg hkey, if_neg fun h => hkey (h.symm.trans hother)]
    · rw [if_neg hother, valuesOf_cons, ih]
      by_cases hkey : key = other
      · rw [if_pos hkey, if_pos hkey, if_neg fun h => hother (h.trans hkey)]
      · rw [if_neg hkey, if_neg hkey]

theorem valuesOf_modify (g : Json → Json) : valuesOf key (fields.modify other g) =
    if key = other then (valuesOf key fields).map g else valuesOf key fields := by
  induction fields with
  | nil => split_ifs <;> rfl
  | cons field fields ih =>
    rw [modify, List.map_cons, ← modify, valuesOf_cons, valuesOf_cons, ih]
    dsimp only
    by_cases hfield : field.1 = key
    · rw [if_pos hfield, if_pos hfield, hfield]
      split_ifs <;> rfl
    · rw [if_neg hfield, if_neg hfield]

/-- A key that is there once. -/
theorem member_of_valuesOf {value : Json} (h : fields.valuesOf key = [value]) :
    fields.member key f absent = f.read value := by rw [member, h]

theorem member_of_missing (h : fields.valuesOf key = []) : fields.member key f absent = absent := by
  rw [member, h]

theorem member_congr {fields' : Fields} (h : fields.valuesOf key = fields'.valuesOf key) :
    fields.member key f absent = fields'.member key f absent := by rw [member, member, h]

/-! ### Without a key, or with another value for it -/

theorem without_modify_comm (g : Json → Json) :
    (fields.modify key g).without other = (fields.without other).modify key g := by
  rw [without, without, modify, modify, List.filter_map]
  rfl

theorem required_without {k : String} {a : α} (hk : k ≠ key)
    (h : fields.required k f = some a) : (fields.without key).required k f = some a :=
  (member_congr (by rw [valuesOf_without, if_neg hk])).trans h

theorem optional_without {k : String} [f.NeverNull] {a : Option α} (hk : k ≠ key)
    (h : fields.optional k f = some a) : (fields.without key).optional k f = some a :=
  (member_congr (by rw [valuesOf_without, if_neg hk])).trans h

/-- **A field with a default may be left out.** -/
theorem defaulted_without {k : String} {value a : α} (h : fields.defaulted k f value = some a) :
    (fields.without key).defaulted k f value = some (if k = key then value else a) := by
  split_ifs with hk
  · exact member_of_missing (by rw [valuesOf_without, if_pos hk])
  · exact (member_congr (by rw [valuesOf_without, if_neg hk])).trans h

theorem member_modify_of_ne {k : String} (hk : k ≠ key) (g : Json → Json) :
    (fields.modify key g).member k f absent = fields.member k f absent :=
  member_congr (by rw [valuesOf_modify, if_neg hk])

/-- **Another value for a key** that is read. -/
theorem member_modify_self {g : Json → Json} {a b : α}
    (hread : ∀ value, f.read value = some a → f.read (g value) = some b)
    (habsent : absent = some a → absent = some b) (h : fields.member key f absent = some a) :
    (fields.modify key g).member key f absent = some b := by
  rw [member] at h
  rw [member, valuesOf_modify, if_pos rfl]
  cases hvalues : fields.valuesOf key with
  | nil =>
    rw [hvalues] at h
    exact habsent h
  | cons value values =>
    rw [hvalues] at h
    cases values with
    | nil => exact hread value h
    | cons => cases h

end Fields

/-- An object without a key. -/
def Json.without (key : String) : Json → Json
  | .obj fields => .obj (Fields.without key fields)
  | value => value

theorem Json.without_eq_null_iff {key : String} (value : Json) :
    value.without key = .null ↔ value = .null := by
  cases value with
  | obj => exact ⟨nofun, nofun⟩
  | _ => exact Iff.rfl

/-- An object with another value for a key. -/
def Json.modify (key : String) (g : Json → Json) : Json → Json
  | .obj fields => .obj (Fields.modify key g fields)
  | value => value

/-- An array with another value in one place. -/
def Json.modifyNth (i : ℕ) (g : Json → Json) : Json → Json
  | .arr elements => .arr (elements.modify i g)
  | value => value

namespace Format

variable {α : Type}

/-- **Another value in a list** that is read. -/
theorem read_list_modifyNth {f : Format α} {g : Json → Json} {g' : α → α} {value : Json}
    {xs : List α} (hread : ∀ value x, f.read value = some x → f.read (g value) = some (g' x))
    (i : ℕ) (h : f.list.read value = some xs) :
    f.list.read (value.modifyNth i g) = some (xs.modify i g') := by
  cases value with
  | arr elements =>
    change elements.mapM f.read = some xs at h
    change (elements.modify i g).mapM f.read = some (xs.modify i g')
    induction elements generalizing xs i with
    | nil =>
      obtain rfl : [] = xs := Option.some_inj.mp h
      cases i <;> rfl
    | cons element elements ih =>
      rw [List.mapM_cons] at h
      obtain ⟨x, hx, hbind⟩ := Option.bind_eq_some_iff.mp h
      obtain ⟨rest, hrest, heq⟩ := Option.bind_eq_some_iff.mp hbind
      obtain rfl : x :: rest = xs := Option.some_inj.mp heq
      cases i with
      | zero =>
        rw [List.modify_zero_cons, List.modify_zero_cons, List.mapM_cons, hread _ _ hx, hrest]
        rfl
      | succ i =>
        rw [List.modify_succ_cons, List.modify_succ_cons, List.mapM_cons, hx, ih i hrest]
        rfl
  | _ => cases h

/-- Another value, or still nothing. -/
theorem read_option_map {f : Format α} [f.NeverNull] {g : Json → Json} {g' : α → α} {value : Json}
    {x : Option α} (hnull : ∀ value, g value = .null ↔ value = .null)
    (hread : ∀ value a, f.read value = some a → f.read (g value) = some (g' a))
    (h : f.option.read value = some x) : f.option.read (g value) = some (x.map g') := by
  change f.readOption value = some x at h
  change f.readOption (g value) = some (x.map g')
  by_cases hvalue : value = .null
  · rw [hvalue] at h ⊢
    obtain rfl : none = x := Option.some_inj.mp h
    rw [(hnull _).mpr rfl]
    rfl
  · rw [readOption_of_ne_null hvalue] at h
    obtain ⟨a, ha, rfl⟩ := Option.map_eq_some_iff.mp h
    rw [readOption_of_ne_null (mt (hnull value).mp hvalue), hread value a ha]
    rfl

/-- A record. -/
def record (fields : α → Fields) (ofFields : Fields → Option α) (Fits : α → Prop)
    (h : ∀ a, Fits a → ofFields (fields a) = some a) : Format α where
  write a := .obj (fields a)
  read
    | .obj fields => ofFields fields
    | _ => none
  Fits := Fits
  read_write := h

/-- **Internally tagged**: beside the fields of a variant stands its name. -/
def tagged (tag : String) (name : α → String) (fields : α → Fields)
    (ofFields : String → Fields → Option α) (Fits : α → Prop)
    (hne : ∀ a, ∀ field ∈ fields a, field.1 ≠ tag)
    (h : ∀ a, Fits a → ofFields (name a) (fields a) = some a) : Format α where
  write a := .obj ((tag, .str (name a)) :: fields a)
  read
    | .obj fields => do
      let name ← Fields.required tag string fields
      ofFields name (Fields.without tag fields)
    | _ => none
  Fits := Fits
  read_write a ha := by
    have hrest := Fields.without_of_forall_ne (hne a)
    have hvalues : Fields.valuesOf tag ((tag, .str (name a)) :: fields a) = [.str (name a)] := by
      rw [Fields.valuesOf_cons, if_pos rfl, ← hrest, Fields.valuesOf_without, if_pos rfl]
    have hname : Fields.required tag string ((tag, .str (name a)) :: fields a) = some (name a) :=
      Fields.member_of_valuesOf hvalues
    simp only [hname, Option.bind_eq_bind, Option.bind_some, Fields.without_cons, if_true, hrest]
    exact h a ha

/-! ### Another message -/

section Record

variable {key : String} {fields : α → Fields} {ofFields : Fields → Option α} {Fits : α → Prop}
  {h : ∀ a, Fits a → ofFields (fields a) = some a} {value : Json} {a b : α}

theorem read_record_iff : (record fields ofFields Fits h).read value = some a ↔
    ∃ fs, value = .obj fs ∧ ofFields fs = some a := by
  cases value with
  | obj fs => exact ⟨fun hread => ⟨fs, rfl, hread⟩, fun ⟨_, heq, hread⟩ => Json.obj.inj heq ▸ hread⟩
  | _ => exact ⟨nofun, fun ⟨_, heq, _⟩ => nomatch heq⟩

theorem read_record_without
    (hmap : ∀ fs : Fields, ofFields fs = some a → ofFields (fs.without key) = some b)
    (hread : (record fields ofFields Fits h).read value = some a) :
    (record fields ofFields Fits h).read (value.without key) = some b := by
  obtain ⟨fs, rfl, ha⟩ := read_record_iff.mp hread
  exact hmap fs ha

theorem read_record_modify {g : Json → Json}
    (hmap : ∀ fs : Fields, ofFields fs = some a → ofFields (fs.modify key g) = some b)
    (hread : (record fields ofFields Fits h).read value = some a) :
    (record fields ofFields Fits h).read (value.modify key g) = some b := by
  obtain ⟨fs, rfl, ha⟩ := read_record_iff.mp hread
  exact hmap fs ha

end Record

section Tagged

variable {tag key : String} {name : α → String} {fields : α → Fields}
  {ofFields : String → Fields → Option α} {Fits : α → Prop}
  {hne : ∀ a, ∀ field ∈ fields a, field.1 ≠ tag}
  {h : ∀ a, Fits a → ofFields (name a) (fields a) = some a} {message : Json} {a b : α}

theorem read_tagged_iff : (tagged tag name fields ofFields Fits hne h).read message = some a ↔
    ∃ fs : Fields, message = .obj fs ∧ ∃ n, fs.required tag string = some n ∧
      ofFields n (fs.without tag) = some a := by
  cases message with
  | obj fs =>
    have hread : (tagged tag name fields ofFields Fits hne h).read (.obj fs) =
        (Fields.required tag string fs).bind fun n => ofFields n (Fields.without tag fs) := rfl
    rw [hread, Option.bind_eq_some_iff]
    exact ⟨fun hn => ⟨fs, rfl, hn⟩, fun ⟨_, heq, hn⟩ => Json.obj.inj heq ▸ hn⟩
  | _ => exact ⟨nofun, fun ⟨_, heq, _⟩ => nomatch heq⟩

/-- **A message without a key**, if the variants can be read without it. -/
theorem read_tagged_without (hkey : key ≠ tag)
    (hmap : ∀ n fs, ofFields n fs = some a → ofFields n (fs.without key) = some b)
    (hread : (tagged tag name fields ofFields Fits hne h).read message = some a) :
    (tagged tag name fields ofFields Fits hne h).read (message.without key) = some b := by
  obtain ⟨fs, rfl, n, hn, ha⟩ := read_tagged_iff.mp hread
  refine read_tagged_iff.mpr ⟨fs.without key, rfl, n, Fields.required_without hkey.symm hn, ?_⟩
  rw [Fields.without_without_comm]
  exact hmap n _ ha

theorem read_tagged_modify {g : Json → Json} (hkey : key ≠ tag)
    (hmap : ∀ n fs, ofFields n fs = some a → ofFields n (fs.modify key g) = some b)
    (hread : (tagged tag name fields ofFields Fits hne h).read message = some a) :
    (tagged tag name fields ofFields Fits hne h).read (message.modify key g) = some b := by
  obtain ⟨fs, rfl, n, hn, ha⟩ := read_tagged_iff.mp hread
  refine read_tagged_iff.mpr ⟨fs.modify key g, rfl, n,
    (Fields.member_modify_of_ne hkey.symm g).trans hn, ?_⟩
  rw [Fields.without_modify_comm]
  exact hmap n _ ha

end Tagged

end Format

end AgentProcs
