import MigrationSafety.Lib.Json
import MigrationSafety.Lib.Shortest
import Mathlib.Data.List.Nodup

/-! # Records as JSON objects

A record is written as an object of its fields, some of which are left out where they are empty
(`struct`); it is read by taking the members one after another into the field of that name
(`asObject`). On the way the text may be stored in a column that sorts the keys, drops repeated ones
and rewrites the numbers (`jsonb`).

`Reads f a v b`: reading the value `v` into `a` gives `b`, whether `v` has been stored or not. There is
one rule for each kind of field, and `reads_struct` for records. -/

namespace MigrationSafety.Lib.Records

open MigrationSafety.Lib.Json MigrationSafety.Lib.Binary64 MigrationSafety.Lib.Shortest

variable {α β : Type} {name : String} {ms ms' : List (String × Value)}

/-! ### Fields by name -/

/-- Case does not matter, and two characters outside ASCII count as `k` and `s`. -/
def foldChar (c : Char) : Char :=
  if c.toNat = 0x212A then 'k' else if c.toNat = 0x17F then 's' else c.toLower

def fold (s : String) : List Char := s.toList.map foldChar

def keys (ms : List (String × Value)) : List (List Char) := ms.map fun m => fold m.1

/-- The values of a field, in their order. -/
def all (ms : List (String × Value)) (name : String) : List Value :=
  (ms.filter fun m => fold m.1 = fold name).map Prod.snd

theorem all_of_forall_ne (h : ∀ m ∈ ms, fold m.1 ≠ fold name) : all ms name = [] := by
  have hfilter : ms.filter (fun m => fold m.1 = fold name) = [] :=
    List.filter_eq_nil_iff.mpr fun m hm => by simpa using h m hm
  unfold all
  rw [hfilter, List.map_nil]

theorem all_of_mem (hn : (keys ms).Nodup) {m : String × Value} (hm : m ∈ ms)
    (h : fold m.1 = fold name) : all ms name = [m.2] := by
  induction ms with
  | nil => cases hm
  | cons x ms ih =>
    obtain ⟨hx, hms⟩ := List.nodup_cons.mp hn
    rcases List.mem_cons.mp hm with rfl | hm
    · have hrest : all ms name = [] := all_of_forall_ne fun m' hm' heq =>
        hx (List.mem_map.mpr ⟨m', hm', heq.trans h.symm⟩)
      unfold all at hrest ⊢
      rw [List.filter_cons_of_pos (by simpa using h), List.map_cons, hrest]
    · have hne : fold x.1 ≠ fold name := fun heq =>
        hx (List.mem_map.mpr ⟨m, hm, h.trans heq.symm⟩)
      have hrest := ih hms hm
      unfold all at hrest ⊢
      rw [List.filter_cons_of_neg (by simpa using hne), hrest]

/-- The order of different keys does not matter. -/
theorem all_perm (hn : (keys ms).Nodup) (hp : ms'.Perm ms) : all ms' name = all ms name := by
  have hkeys : (keys ms').Perm (keys ms) := hp.map _
  by_cases h : ∃ m ∈ ms, fold m.1 = fold name
  · obtain ⟨m, hm, hk⟩ := h
    rw [all_of_mem hn hm hk, all_of_mem (hkeys.nodup_iff.mpr hn) (hp.mem_iff.mpr hm) hk]
  · push Not at h
    rw [all_of_forall_ne h, all_of_forall_ne fun m hm => h m (hp.mem_iff.mp hm)]

/-! ### A JSON column -/

/-- The text has no NUL character. -/
def NulFree (s : String) : Prop := Char.ofNat 0 ∉ s.toList

instance (s : String) : Decidable (NulFree s) := inferInstanceAs (Decidable (_ ∉ _))

mutual

/-- Nowhere is there a NUL character. -/
def storable : Value → Bool
  | .str s => decide (NulFree s)
  | .arr vs => storableElems vs
  | .obj ms => storableMembers ms
  | .null | .bool _ | .num _ => true

def storableElems : List Value → Bool
  | [] => true
  | v :: vs => storable v && storableElems vs

def storableMembers : List (String × Value) → Bool
  | [] => true
  | (k, v) :: ms => decide (NulFree k) && storable v && storableMembers ms

end

/-- Of repeated keys the last is kept. -/
def dedup : List (String × Value) → List (String × Value)
  | [] => []
  | m :: ms => if ms.any fun m' => m'.1 = m.1 then dedup ms else m :: dedup ms

/-- Shorter keys come first. -/
def keyLE (m m' : String × Value) : Bool :=
  m.1.utf8ByteSize < m'.1.utf8ByteSize || (m.1.utf8ByteSize = m'.1.utf8ByteSize && m.1 ≤ m'.1)

def sortKeys (ms : List (String × Value)) : List (String × Value) := (dedup ms).mergeSort keyLE

mutual

/-- **A value, as it is stored.** -/
def norm : Value → Value
  | .num l => .num l.plain
  | .arr vs => .arr (normElems vs)
  | .obj ms => .obj (sortKeys (normMembers ms))
  | v => v

def normElems : List Value → List Value
  | [] => []
  | v :: vs => norm v :: normElems vs

def normMembers : List (String × Value) → List (String × Value)
  | [] => []
  | (k, v) :: ms => (k, norm v) :: normMembers ms

end

theorem normElems_eq (vs : List Value) : normElems vs = vs.map norm := by
  induction vs with
  | nil => rfl
  | cons v vs ih => rw [normElems, ih, List.map_cons]

theorem normMembers_eq (ms : List (String × Value)) :
    normMembers ms = ms.map fun m => (m.1, norm m.2) := by
  induction ms with
  | nil => rfl
  | cons m ms ih => rw [normMembers, ih, List.map_cons]

theorem dedup_of_nodup (hn : (keys ms).Nodup) : dedup ms = ms := by
  induction ms with
  | nil => rfl
  | cons m ms ih =>
    obtain ⟨hm, hms⟩ := List.nodup_cons.mp hn
    have hno : (ms.any fun m' => m'.1 = m.1) = false := by
      rw [List.any_eq_false]
      intro m' hm' heq
      refine hm (List.mem_map.mpr ⟨m', hm', ?_⟩)
      rw [of_decide_eq_true heq]
    rw [dedup, hno, if_neg Bool.false_ne_true, ih hms]

/-- **A field of a stored object is the stored field.** -/
theorem all_stored (hn : (keys ms).Nodup) :
    all (sortKeys (normMembers ms)) name = (all ms name).map norm := by
  have hkeys : keys (normMembers ms) = keys ms := by
    rw [normMembers_eq]
    simp [keys]
  have hn' : (keys (normMembers ms)).Nodup := hkeys ▸ hn
  unfold sortKeys
  rw [dedup_of_nodup hn', all_perm hn' (List.mergeSort_perm _ _), normMembers_eq]
  simp only [all, List.filter_map, List.map_map, Function.comp_def]

/-! ### Readers -/

/-- A reader reads a value into one that is already there. -/
abbrev Reader (α : Type) := α → Value → Option α

/-- The values of an object, by the names of the fields. -/
abbrev Fields := String → List Value

def asString : Reader String
  | s, .null => some s
  | _, .str s => some s
  | _, _ => none

def asBool : Reader Bool
  | b, .null => some b
  | _, .bool b => some b
  | _, _ => none

/-- An `int` of 64 bits. -/
def IsInt64 (n : ℤ) : Prop := -2 ^ 63 ≤ n ∧ n < 2 ^ 63

instance (n : ℤ) : Decidable (IsInt64 n) := inferInstanceAs (Decidable (_ ∧ _))

/-- A number with neither point nor exponent. -/
def integer (l : Decimal.Literal) : Option ℤ :=
  let n := (if l.neg then -1 else 1) * (l.mantissa : ℤ)
  if l.scale = 0 ∧ l.exp = none ∧ IsInt64 n then some n else none

def asInt : Reader ℤ
  | n, .null => some n
  | _, .num l => integer l
  | _, _ => none

def asFloat : Reader Float64
  | x, .null => some x
  | _, .num l => some (Float64.ofRat l.value)
  | _, _ => none

/-- What is written without point and exponent rounds to the number. -/
theorem val_of_integer {x : Float64} {n : ℤ} (h : integer (formatFloat x) = some n) : x = .ofInt n := by
  unfold integer at h
  obtain ⟨⟨hscale, hexp, -⟩, hn⟩ := Option.ite_none_right_eq_some.mp h
  rw [← ofRat_formatFloat x, ← Option.some.inj hn]
  unfold Float64.ofInt Decimal.Literal.value
  rw [hscale, hexp]
  push_cast
  simp

theorem integer_of_not_whole {x : Float64} (h : ∀ n : ℤ, x.val ≠ n) : integer (formatFloat x) = none := by
  by_contra hne
  obtain ⟨n, hn⟩ := Option.ne_none_iff_exists'.mp hne
  obtain ⟨k, -, hk⟩ := round_int n
  refine h k ?_
  rw [val_of_integer hn]
  exact hk

/-- **A whole number is written as an integer.** -/
theorem integer_formatFloat {x : Float64} {n : ℤ} (hx : x.val = n) (h : |n| < 2 ^ 53) :
    integer (formatFloat x) = some n := by
  obtain ⟨hscale, hexp⟩ := formatFloat_whole hx (by omega)
  generalize hm : (if (formatFloat x).neg then -1 else 1) * ((formatFloat x).mantissa : ℤ) = m
  have hval : (formatFloat x).value = m := by
    unfold Decimal.Literal.value
    rw [hscale, hexp, ← hm]
    push_cast
    simp
  have hround : Binary64.round (m : ℚ) = n := by
    rw [← hval, ← hx]
    exact congrArg Subtype.val (ofRat_formatFloat x)
  obtain rfl := eq_of_round h hround
  unfold integer
  obtain ⟨hlow, hhigh⟩ := abs_lt.mp h
  have hint : IsInt64 m := ⟨by omega, by omega⟩
  simp only [hm, hscale, hexp, hint, and_self, if_true]

/-- A list, each element read into `zero`. -/
def asList (f : Reader α) (zero : α) : Reader (List α)
  | _, .null => some []
  | _, .arr vs => vs.mapM (f zero)
  | _, _ => none

/-- Several values, one after another. -/
def into (f : Reader α) (a : α) (vs : List Value) : Option α := vs.foldlM f a

/-- A record. Fields that it does not have are left alone. -/
def asObject (D : α → Fields → Option α) : Reader α
  | a, .null => some a
  | a, .obj ms => D a (all ms)
  | _, _ => none

/-! ### Writers -/

def int (n : ℤ) : Value := .num { neg := n < 0, mantissa := n.natAbs }

def float (x : Float64) : Value := .num (formatFloat x)

/-- An empty list may be written as null. -/
def list (isNil : Bool) (vs : List Value) : Value := if isNil && vs.isEmpty then .null else .arr vs

/-- The fields of a record, some of which are not written. -/
abbrev Slots := List (String × Option Value)

def members (slots : Slots) : List (String × Value) :=
  slots.filterMap fun s => s.2.map fun v => (s.1, v)

def struct (slots : Slots) : Value := .obj (members slots)

section Members
variable {slots : Slots}

/-- The names of the fields differ. -/
def Distinct (slots : Slots) : Prop := (slots.map fun s => fold s.1).Nodup

instance : Decidable (Distinct slots) := inferInstanceAs (Decidable (List.Nodup _))

theorem mem_members {m : String × Value} : m ∈ members slots ↔ (m.1, some m.2) ∈ slots := by
  unfold members
  simp only [List.mem_filterMap, Option.map_eq_some_iff]
  constructor
  · rintro ⟨⟨k, v⟩, hs, v', rfl, rfl⟩
    exact hs
  · exact fun h => ⟨_, h, m.2, rfl, rfl⟩

theorem nodup_members (hn : Distinct slots) : (keys (members slots)).Nodup := by
  refine List.Nodup.sublist ?_ hn
  unfold keys members
  rw [List.map_filterMap]
  induction slots with
  | nil => exact List.Sublist.refl _
  | cons s slots ih =>
    obtain ⟨k, v⟩ := s
    have hn' := (List.nodup_cons.mp hn).2
    cases v with
    | none => exact (ih hn').cons _
    | some v => exact (ih hn').cons_cons _

/-- **A written field is found, one that is not written is not.** -/
theorem all_members (hn : Distinct slots) {s : String × Option Value} (hs : s ∈ slots) :
    all (members slots) s.1 = s.2.toList := by
  obtain ⟨k, v⟩ := s
  cases v with
  | some v => exact all_of_mem (nodup_members hn) (mem_members (m := (k, v)).mpr hs) rfl
  | none =>
    refine all_of_forall_ne fun m hm heq => ?_
    have := List.inj_on_of_nodup_map hn (mem_members.mp hm) hs heq
    cases congrArg Prod.snd this

end Members

/-! ### Reading what has been written -/

/-- A value reaches its reader as it was sent, or as it was stored. -/
inductive View
  | sent
  | stored

def View.apply : View → Value → Value
  | sent => id
  | stored => norm

/-- **Reading `v` into `a` gives `b`**, stored or not. -/
def Reads (f : Reader α) (a : α) (v : Value) (b : α) : Prop := ∀ w : View, f a (w.apply v) = some b

/-- The same of a field. -/
def Gives (f : Reader α) (a : α) (v : Option Value) (b : α) : Prop :=
  ∀ w : View, into f a (v.toList.map w.apply) = some b

section Rules
variable {f : Reader α} {a b : α} {v : Value}

theorem Reads.gives (h : Reads f a v b) : Gives f a (some v) b := fun w => by
  simp [into, h w]

/-- A field may be left out if nothing is read into it. -/
theorem gives_omit {c : Prop} [Decidable c] (hc : c → a = b) (h : Reads f a v b) :
    Gives f a (if c then none else some v) b := by
  split_ifs with h'
  · exact fun w => congrArg some (hc h')
  · exact h.gives

theorem reads_str (s t : String) : Reads asString t (.str s) s := fun w => by cases w <;> rfl

theorem reads_bool (b c : Bool) : Reads asBool c (.bool b) b := fun w => by cases w <;> rfl

theorem reads_int {n : ℤ} (h : IsInt64 n) (m : ℤ) : Reads asInt m (int n) n := by
  have hval : (if n < 0 then -1 else 1) * (n.natAbs : ℤ) = n := by
    split_ifs with hn
    · omega
    · omega
  have hne : n < 0 → n ≠ 0 := fun h => h.ne
  have hread : integer { neg := n < 0, mantissa := n.natAbs } = some n := by
    unfold integer
    simp only [decide_eq_true_eq, hval, h, and_self, if_true]
  have hplain : Decimal.Literal.plain { neg := n < 0, mantissa := n.natAbs } =
      { neg := n < 0, mantissa := n.natAbs } := by
    simpa [Decimal.Literal.plain] using hne
  intro w
  cases w with
  | sent => exact hread
  | stored => exact (congrArg integer hplain).trans hread

theorem reads_float (x y : Float64) : Reads asFloat y (float x) x := fun w => by
  cases w with
  | sent => exact congrArg some (ofRat_formatFloat x)
  | stored =>
    show some (Float64.ofRat (formatFloat x).plain.value) = some x
    rw [Decimal.value_plain, ofRat_formatFloat]

theorem mapM_map {enc : β → Value} {f : Value → Option β} {bs : List β}
    (h : ∀ b ∈ bs, f (enc b) = some b) : (bs.map enc).mapM f = some bs := by
  induction bs with
  | nil => rfl
  | cons b bs ih =>
    obtain ⟨hb, hbs⟩ := List.forall_mem_cons.mp h
    simp [hb, ih hbs]

theorem reads_list {f : Reader β} {zero : β} {enc : β → Value} {bs cs : List β}
    (h : ∀ b ∈ bs, Reads f zero (enc b) b) (isNil : Bool) :
    Reads (asList f zero) cs (list isNil (bs.map enc)) bs := by
  unfold list
  split_ifs with hnil
  · obtain rfl : bs = [] := by simpa using (Bool.and_eq_true_iff.mp hnil).2
    exact fun w => by cases w <;> rfl
  · intro w
    cases w with
    | sent => exact mapM_map fun b hb => h b hb .sent
    | stored =>
      show (normElems (bs.map enc)).mapM (f zero) = some bs
      rw [normElems_eq, List.map_map]
      exact mapM_map fun b hb => h b hb .stored

/-- **A record is read if its fields are.** -/
theorem reads_struct {D : α → Fields → Option α} {slots : Slots} (hn : Distinct slots)
    (h : ∀ (w : View) (fields : Fields),
      (∀ s ∈ slots, fields s.1 = s.2.toList.map w.apply) → D a fields = some b) :
    Reads (asObject D) a (struct slots) b := by
  intro w
  cases w with
  | sent =>
    refine h .sent (all (members slots)) fun s hs => ?_
    rw [all_members hn hs]
    exact (List.map_id _).symm
  | stored =>
    refine h .stored (all (sortKeys (normMembers (members slots)))) fun s hs => ?_
    rw [all_stored (nodup_members hn), all_members hn hs]
    rfl

end Rules

/-! ### Texts -/

/-- The characters that are escaped so that the text can stand in a page. -/
def goHex (c : Char) : Bool :=
  c = '<' || c = '>' || c = '&' || c.toNat = 0x2028 || c.toNat = 0x2029

theorem goHex_lt (c : Char) (h : goHex c = true) : c.toNat < 0x10000 := by
  simp only [goHex, Bool.or_eq_true, decide_eq_true_eq] at h
  rcases h with (((rfl | rfl) | rfl) | h) | h
  · decide
  · decide
  · decide
  · omega
  · omega

theorem no_blanks (c : Char) (h : c ∈ ([] : List Char)) : isBlank c = true := by cases h

theorem no_hex (c : Char) (h : false = true) : c.toNat < 0x10000 := by cases h

theorem one_blank (c : Char) (h : c ∈ [' ']) : isBlank c = true := by
  obtain rfl := List.mem_singleton.mp h
  rfl

/-- How the sender writes. -/
def goStyle : Style where
  hex := goHex
  afterComma := []
  afterColon := []
  hex_lt := goHex_lt
  blank_comma := no_blanks
  blank_colon := no_blanks

/-- How the column is written out. -/
def jsonbStyle : Style where
  hex _ := false
  afterComma := [' ']
  afterColon := [' ']
  hex_lt := no_hex
  blank_comma := one_blank
  blank_colon := one_blank

/-- **The text of a column, after a text has been stored in it.** -/
def jsonb (text : String) : Option String :=
  (parse text).bind fun v => if storable v then some (jsonbStyle.write (norm v)) else none

theorem storableElems_iff {vs : List Value} :
    storableElems vs = true ↔ ∀ v ∈ vs, storable v = true := by
  induction vs with
  | nil => simp [storableElems]
  | cons v vs ih => simp [storableElems, ih]

theorem storableMembers_iff {ms : List (String × Value)} :
    storableMembers ms = true ↔ ∀ m ∈ ms, NulFree m.1 ∧ storable m.2 = true := by
  induction ms with
  | nil => simp [storableMembers]
  | cons m ms ih => simp [storableMembers, ih, and_assoc]

theorem storable_list {enc : β → Value} {bs : List β} (h : ∀ b ∈ bs, storable (enc b) = true)
    (isNil : Bool) : storable (list isNil (bs.map enc)) = true := by
  unfold list
  split_ifs
  · rfl
  · exact storableElems_iff.mpr (List.forall_mem_map.mpr h)

/-- The names of the fields can be stored. -/
def namesNulFree (slots : Slots) : Bool := slots.all fun s => decide (NulFree s.1)

/-- **A record can be stored if its fields can.** -/
theorem storable_struct {slots : Slots} (hn : namesNulFree slots = true)
    (h : ∀ s ∈ slots, ∀ v ∈ s.2, storable v = true) : storable (struct slots) = true := by
  refine storableMembers_iff.mpr fun m hm => ?_
  have hs := mem_members.mp hm
  exact ⟨of_decide_eq_true (List.all_eq_true.mp hn _ hs), h _ hs m.2 rfl⟩

/-- **What is stored is read as what was sent.** -/
theorem reads_texts {f : Reader α} {a b : α} {v : Value} (h : Reads f a v b)
    (hs : storable v = true) :
    (first (goStyle.write v)).bind (f a) = some b ∧
      ∃ text, jsonb (goStyle.write v) = some text ∧ (parse text).bind (f a) = some b := by
  refine ⟨?_, jsonbStyle.write (norm v), ?_, ?_⟩
  · rw [first_write, Option.bind_some]
    exact h .sent
  · unfold jsonb
    rw [parse_write, Option.bind_some, if_pos hs]
  · rw [parse_write, Option.bind_some]
    exact h .stored

end MigrationSafety.Lib.Records
