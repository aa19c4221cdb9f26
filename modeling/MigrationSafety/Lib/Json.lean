import MigrationSafety.Lib.Decimal

/-! # JSON

Values, their texts, and reading. A `Style` says how a writer escapes characters and which blanks it
puts after commas and colons; that it writes what is read back is part of it. One reader serves all
writers: `parse_write`, for every value and every style.

A number is kept as it is written (`Decimal.Literal`). An unpaired surrogate is read as U+FFFD. -/

namespace MigrationSafety.Lib.Json

open MigrationSafety.Lib

/-- **A JSON value.** -/
inductive Value
  | null
  | bool (b : Bool)
  | num (l : Decimal.Literal)
  | str (s : String)
  | arr (vs : List Value)
  | obj (ms : List (String × Value))

/-! ### Reading strings -/

def hexVal (c : Char) : Option ℕ :=
  if '0' ≤ c ∧ c ≤ '9' then some (c.toNat - 48)
  else if 'a' ≤ c ∧ c ≤ 'f' then some (c.toNat - 87)
  else if 'A' ≤ c ∧ c ≤ 'F' then some (c.toNat - 55)
  else none

/-- Four hexadecimal digits. -/
def hexUnit (a b c d : Char) : Option ℕ := do
  let a ← hexVal a
  let b ← hexVal b
  let c ← hexVal c
  let d ← hexVal d
  some (((a * 16 + b) * 16 + c) * 16 + d)

/-- An escape of one letter. -/
def simpleEscape (c : Char) : Option ℕ :=
  if c = '"' ∨ c = '\\' ∨ c = '/' then some c.toNat
  else if c = 'b' then some 8
  else if c = 'f' then some 12
  else if c = 'n' then some 10
  else if c = 'r' then some 13
  else if c = 't' then some 9
  else none

/-- The code units of a string up to its closing quote. -/
def readUnits : List Char → Option (List ℕ × List Char)
  | [] => none
  | '"' :: cs => some ([], cs)
  | '\\' :: 'u' :: a :: b :: c :: d :: cs =>
    (hexUnit a b c d).bind fun u => (readUnits cs).map fun p => (u :: p.1, p.2)
  | '\\' :: c :: cs => (simpleEscape c).bind fun u => (readUnits cs).map fun p => (u :: p.1, p.2)
  | c :: cs => if c.toNat < 32 then none else (readUnits cs).map fun p => (c.toNat :: p.1, p.2)

def isHigh (u : ℕ) : Bool := 0xD800 ≤ u && u < 0xDC00

def isLow (u : ℕ) : Bool := 0xDC00 ≤ u && u < 0xE000

/-- A code unit that is no half of a pair. -/
def ofUnit (u : ℕ) : Char := if isHigh u || isLow u then Char.ofNat 0xFFFD else Char.ofNat u

/-- Surrogate pairs are put together. -/
def combine : List ℕ → List Char
  | [] => []
  | [u] => [ofUnit u]
  | hi :: lo :: us =>
    if isHigh hi && isLow lo then
      Char.ofNat (0x10000 + (hi - 0xD800) * 0x400 + (lo - 0xDC00)) :: combine us
    else ofUnit hi :: combine (lo :: us)

/-- **A string, after its opening quote.** -/
def readString (cs : List Char) : Option (String × List Char) :=
  (readUnits cs).map fun p => (String.ofList (combine p.1), p.2)

theorem isHigh_toNat (c : Char) : (isHigh c.toNat || isLow c.toNat) = false := by
  have := c.valid
  unfold UInt32.isValidChar Nat.isValidChar at this
  have hnat : c.val.toNat = c.toNat := rfl
  simp only [isHigh, isLow, Bool.or_eq_false_iff, Bool.and_eq_false_iff, decide_eq_false_iff_not]
  omega

/-- The code units of characters are put together to these characters. -/
theorem combine_toNat (cs : List Char) : combine (cs.map Char.toNat) = cs := by
  have hunit : ∀ c : Char, ofUnit c.toNat = c := fun c => by
    unfold ofUnit
    rw [isHigh_toNat]
    exact Char.ofNat_toNat c
  induction cs with
  | nil => rfl
  | cons c cs ih =>
    cases cs with
    | nil => exact congrArg (· :: []) (hunit c)
    | cons c' cs =>
      have hhigh := (Bool.or_eq_false_iff.mp (isHigh_toNat c)).1
      show combine (c.toNat :: c'.toNat :: cs.map Char.toNat) = _
      rw [combine, hhigh, Bool.false_and, if_neg Bool.false_ne_true, hunit]
      exact congrArg (c :: ·) ih

/-! ### Writing strings -/

/-- The letter of a short escape. -/
def shortEscape (c : Char) : Option Char :=
  if c = '"' ∨ c = '\\' then some c
  else if c.toNat = 8 then some 'b'
  else if c.toNat = 12 then some 'f'
  else if c.toNat = 10 then some 'n'
  else if c.toNat = 13 then some 'r'
  else if c.toNat = 9 then some 't'
  else none

def hexEscape (c : Char) : List Char :=
  ['\\', 'u', Nat.digitChar (c.toNat / 4096 % 16), Nat.digitChar (c.toNat / 256 % 16),
    Nat.digitChar (c.toNat / 16 % 16), Nat.digitChar (c.toNat % 16)]

def isBlank (c : Char) : Bool := c = ' ' || c = '\t' || c = '\n' || c = '\r'

/-- **How a writer writes**: the characters it escapes beyond what it has to, and its blanks. -/
structure Style where
  hex : Char → Bool
  afterComma : List Char
  afterColon : List Char
  hex_lt : ∀ c, hex c = true → c.toNat < 0x10000
  blank_comma : ∀ c ∈ afterComma, isBlank c = true
  blank_colon : ∀ c ∈ afterColon, isBlank c = true

variable (st : Style)

def Style.escape (c : Char) : List Char :=
  match shortEscape c with
  | some e => ['\\', e]
  | none => if c.toNat < 32 || st.hex c then hexEscape c else [c]

/-- A string with its quotes. -/
def Style.quoted (s : String) : List Char := '"' :: (s.toList.flatMap st.escape ++ ['"'])

theorem hexVal_digitChar : ∀ d < 16, hexVal (Nat.digitChar d) = some d := by decide

theorem readUnits_hexEscape {c : Char} (h : c.toNat < 0x10000) (cs : List Char) :
    readUnits (hexEscape c ++ cs) = (readUnits cs).map fun p => (c.toNat :: p.1, p.2) := by
  have hunit : hexUnit (Nat.digitChar (c.toNat / 4096 % 16)) (Nat.digitChar (c.toNat / 256 % 16))
      (Nat.digitChar (c.toNat / 16 % 16)) (Nat.digitChar (c.toNat % 16)) = some c.toNat := by
    have hvalue : ((c.toNat / 4096 % 16 * 16 + c.toNat / 256 % 16) * 16 + c.toNat / 16 % 16) * 16 +
        c.toNat % 16 = c.toNat := by omega
    unfold hexUnit
    simp only [hexVal_digitChar _ (Nat.mod_lt _ (by decide : 0 < 16)), Option.bind_eq_bind,
      Option.bind_some, hvalue]
  unfold hexEscape
  simp only [List.cons_append, List.nil_append, readUnits, hunit, Option.bind_some]

/-- A character that is neither quote nor backslash nor a control character stands for itself. -/
theorem readUnits_cons {c : Char} (hquote : c ≠ '"') (hback : c ≠ '\\') (h : ¬c.toNat < 32)
    (cs : List Char) : readUnits (c :: cs) = (readUnits cs).map fun p => (c.toNat :: p.1, p.2) := by
  rw [readUnits.eq_def]
  split
  · next heq => cases heq
  · next heq => exact absurd (List.cons.inj heq).1 hquote
  · next heq => exact absurd (List.cons.inj heq).1 hback
  · next heq => exact absurd (List.cons.inj heq).1 hback
  · next heq =>
    obtain ⟨rfl, rfl⟩ := List.cons.inj heq
    rw [if_neg h]

/-- **What a character is written as is read as that character.** -/
theorem readUnits_escape (c : Char) (cs : List Char) :
    readUnits (st.escape c ++ cs) = (readUnits cs).map fun p => (c.toNat :: p.1, p.2) := by
  unfold Style.escape
  cases hshort : shortEscape c with
  | some e =>
    have hread : e ≠ 'u' ∧ simpleEscape e = some c.toNat := by
      unfold shortEscape at hshort
      split_ifs at hshort with h h h h h h
      · rcases h with rfl | rfl <;> cases hshort <;> exact ⟨by decide, by decide⟩
      all_goals
        cases hshort
        rw [h]
        exact ⟨by decide, by decide⟩
    show readUnits ('\\' :: e :: cs) = _
    rw [readUnits.eq_def]
    split
    · next heq => cases heq
    · next heq => cases heq
    · next heq =>
      injection heq with _ heq
      injection heq with he _
      exact absurd he hread.1
    · next heq =>
      injection heq with _ heq
      injection heq with he hcs
      subst he hcs
      rw [hread.2, Option.bind_some]
    · next _ hne heq =>
      injection heq with hc hcs
      exact (hne _ _ hc.symm hcs.symm).elim
  | none =>
    have hc : ¬(c = '"' ∨ c = '\\') := fun h => by
      rw [shortEscape, if_pos h] at hshort
      cases hshort
    have hquote : c ≠ '"' := fun h => hc (Or.inl h)
    have hback : c ≠ '\\' := fun h => hc (Or.inr h)
    by_cases hhex : (c.toNat < 32 || st.hex c) = true
    · have hlt : c.toNat < 0x10000 := by
        rcases Bool.or_eq_true_iff.mp hhex with h | h
        · have := of_decide_eq_true h
          omega
        · exact st.hex_lt c h
      simp only [hhex, if_true]
      exact readUnits_hexEscape hlt cs
    · have hctl : ¬c.toNat < 32 := fun h => hhex (Bool.or_eq_true_iff.mpr (Or.inl (decide_eq_true h)))
      simp only [hhex, Bool.false_eq_true, if_false]
      exact readUnits_cons hquote hback hctl cs

/-- **Reading a string inverts writing it.** -/
theorem readString_quoted (s : String) (cs : List Char) :
    readString (s.toList.flatMap st.escape ++ '"' :: cs) = some (s, cs) := by
  have hunits : ∀ l : List Char,
      readUnits (l.flatMap st.escape ++ '"' :: cs) = some (l.map Char.toNat, cs) := fun l => by
    induction l with
    | nil => rfl
    | cons c l ih =>
      rw [List.flatMap_cons, List.append_assoc, readUnits_escape, ih]
      rfl
  unfold readString
  rw [hunits, Option.map_some, combine_toNat, String.ofList_toList]

/-! ### Writing values -/

mutual

def Style.print (st : Style) : Value → List Char
  | .null => ['n', 'u', 'l', 'l']
  | .bool true => ['t', 'r', 'u', 'e']
  | .bool false => ['f', 'a', 'l', 's', 'e']
  | .num l => l.text
  | .str s => st.quoted s
  | .arr vs => '[' :: st.printElems vs
  | .obj ms => '{' :: st.printMembers ms

/-- The elements of an array, and its end. -/
def Style.printElems (st : Style) : List Value → List Char
  | [] => [']']
  | [v] => st.print v ++ [']']
  | v :: v' :: vs => st.print v ++ ',' :: (st.afterComma ++ st.printElems (v' :: vs))

/-- The members of an object, and its end. -/
def Style.printMembers (st : Style) : List (String × Value) → List Char
  | [] => ['}']
  | [(k, v)] => st.quoted k ++ ':' :: (st.afterColon ++ (st.print v ++ ['}']))
  | (k, v) :: m :: ms => st.quoted k ++ ':' :: (st.afterColon ++ (st.print v ++
      ',' :: (st.afterComma ++ st.printMembers (m :: ms))))

end

/-! ### Reading values -/

def skip (cs : List Char) : List Char := cs.dropWhile isBlank

mutual

/-- A value. The first argument bounds the depth of the calls. -/
def readValue : ℕ → List Char → Option (Value × List Char)
  | 0, _ => none
  | n + 1, cs =>
    match cs with
    | 'n' :: 'u' :: 'l' :: 'l' :: cs => some (.null, cs)
    | 't' :: 'r' :: 'u' :: 'e' :: cs => some (.bool true, cs)
    | 'f' :: 'a' :: 'l' :: 's' :: 'e' :: cs => some (.bool false, cs)
    | '"' :: cs => (readString cs).map fun p => (.str p.1, p.2)
    | '[' :: cs =>
      match skip cs with
      | ']' :: cs => some (.arr [], cs)
      | cs => (readElems n cs).map fun p => (.arr p.1, p.2)
    | '{' :: cs =>
      match skip cs with
      | '}' :: cs => some (.obj [], cs)
      | cs => (readMembers n cs).map fun p => (.obj p.1, p.2)
    | cs => (Decimal.read cs).map fun p => (.num p.1, p.2)

/-- At least one element, and the end of the array. -/
def readElems : ℕ → List Char → Option (List Value × List Char)
  | 0, _ => none
  | n + 1, cs =>
    (readValue n cs).bind fun p =>
      match skip p.2 with
      | ',' :: cs => (readElems n (skip cs)).map fun q => (p.1 :: q.1, q.2)
      | ']' :: cs => some ([p.1], cs)
      | _ => none

/-- At least one member, and the end of the object. -/
def readMembers : ℕ → List Char → Option (List (String × Value) × List Char)
  | 0, _ => none
  | n + 1, cs =>
    match cs with
    | '"' :: cs =>
      (readString cs).bind fun k =>
        match skip k.2 with
        | ':' :: cs =>
          (readValue n (skip cs)).bind fun p =>
            match skip p.2 with
            | ',' :: cs => (readMembers n (skip cs)).map fun q => ((k.1, p.1) :: q.1, q.2)
            | '}' :: cs => some ([(k.1, p.1)], cs)
            | _ => none
        | _ => none
    | _ => none

end

/-! ### Reading what has been written -/

theorem skip_cons {c : Char} (h : isBlank c = false) (cs : List Char) : skip (c :: cs) = c :: cs := by
  unfold skip
  rw [List.dropWhile_cons_of_neg (by rw [h]; exact Bool.false_ne_true)]

theorem skip_blanks {bs : List Char} (h : ∀ c ∈ bs, isBlank c = true) (cs : List Char) :
    skip (bs ++ cs) = skip cs := List.dropWhile_append_of_pos h

theorem ends_cons {c : Char} (h : c.isDigit = false ∧ c ≠ '.' ∧ c ≠ 'e' ∧ c ≠ 'E') (cs : List Char) :
    Decimal.Ends (c :: cs) := by
  intro c' hc
  obtain rfl := Option.some.inj hc
  exact h

/-- A number begins with a digit or a sign. -/
theorem text_eq_cons (l : Decimal.Literal) :
    ∃ c cs, l.text = c :: cs ∧ (c.isDigit = true ∨ c = '-') := by
  unfold Decimal.Literal.text
  split_ifs
  · exact ⟨_, _, rfl, Or.inr rfl⟩
  · obtain ⟨c, cs, hcs, hc⟩ := Decimal.digits_eq_cons l
    exact ⟨c, cs, hcs, Or.inl hc⟩

/-- A value begins with a character that is no blank and closes nothing. -/
theorem print_eq_cons (v : Value) :
    ∃ c cs, st.print v = c :: cs ∧ isBlank c = false ∧ c ≠ ']' := by
  cases v with
  | num l =>
    obtain ⟨c, cs, hcs, hc⟩ := text_eq_cons l
    refine ⟨c, cs, by rw [Style.print, hcs], ?_, ?_⟩
    · rw [← Bool.not_eq_true]
      intro hblank
      simp only [isBlank, Bool.or_eq_true, decide_eq_true_eq] at hblank
      rcases hc with hc | rfl
      · rcases hblank with ((rfl | rfl) | rfl) | rfl <;> cases hc
      · revert hblank
        decide
    · rintro rfl
      rcases hc with hc | hc <;> cases hc
  | bool b => cases b <;> exact ⟨_, _, by rw [Style.print], by decide, by decide⟩
  | null => exact ⟨_, _, by rw [Style.print], by decide, by decide⟩
  | str s => exact ⟨_, _, by rw [Style.print, Style.quoted], by decide, by decide⟩
  | arr vs => exact ⟨_, _, by rw [Style.print], by decide, by decide⟩
  | obj ms => exact ⟨_, _, by rw [Style.print], by decide, by decide⟩

theorem skip_print (v : Value) (cs : List Char) : skip (st.print v ++ cs) = st.print v ++ cs := by
  obtain ⟨c, ds, hds, hc, -⟩ := print_eq_cons st v
  rw [hds]
  exact skip_cons hc _

theorem readValue_num {n : ℕ} {cs : List Char} (l : Decimal.Literal) (h : Decimal.Ends cs) :
    readValue (n + 1) (l.text ++ cs) = some (.num l, cs) := by
  have hread := Decimal.read_text h l
  obtain ⟨c, ds, hds, hc⟩ := text_eq_cons l
  rw [hds] at hread ⊢
  have hno : ∀ c' ∈ ['n', 't', 'f', '"', '[', '{'], c ≠ c' := by
    rintro c' hc' rfl
    rcases hc with hc | rfl
    · simp only [List.mem_cons, List.not_mem_nil, or_false] at hc'
      rcases hc' with rfl | rfl | rfl | rfl | rfl | rfl <;> cases hc
    · revert hc'
      decide
  rw [readValue.eq_def]
  dsimp only
  split
  case h_7 => rw [hread, Option.map_some]
  all_goals
    next heq => exact (hno _ (by decide) (List.cons.inj heq).1).elim

section Rules
variable {n : ℕ} {c : Char} {k : String} {v : Value} {cs ds : List Char}

theorem readValue_arr (hblank : isBlank c = false) (hc : c ≠ ']') :
    readValue (n + 1) ('[' :: c :: cs) = (readElems n (c :: cs)).map fun p => (.arr p.1, p.2) := by
  simp only [readValue, skip_cons hblank]
  split
  · next heq => exact absurd (List.cons.inj heq).1 hc
  · rfl

theorem readValue_obj : readValue (n + 1) ('{' :: '"' :: cs) =
    (readMembers n ('"' :: cs)).map fun p => (.obj p.1, p.2) := by
  have hskip : skip ('"' :: cs) = '"' :: cs := skip_cons (by decide) cs
  simp only [readValue, hskip]
  rfl

theorem readElems_last (h : readValue n cs = some (v, ']' :: ds)) :
    readElems (n + 1) cs = some ([v], ds) := by
  have hskip : skip (']' :: ds) = ']' :: ds := skip_cons (by decide) ds
  simp only [readElems, h, Option.bind_some, hskip]

theorem readElems_next (h : readValue n cs = some (v, ',' :: ds)) :
    readElems (n + 1) cs = (readElems n (skip ds)).map fun q => (v :: q.1, q.2) := by
  have hskip : skip (',' :: ds) = ',' :: ds := skip_cons (by decide) ds
  simp only [readElems, h, Option.bind_some, hskip]

theorem readMembers_last (h : readValue n (skip cs) = some (v, '}' :: ds)) :
    readMembers (n + 1) (st.quoted k ++ ':' :: cs) = some ([(k, v)], ds) := by
  have hcolon : skip (':' :: cs) = ':' :: cs := skip_cons (by decide) cs
  have hskip : skip ('}' :: ds) = '}' :: ds := skip_cons (by decide) ds
  simp only [Style.quoted, List.cons_append, List.append_assoc, List.nil_append, readMembers,
    readString_quoted, Option.bind_some, hcolon, h, hskip]

theorem readMembers_next (h : readValue n (skip cs) = some (v, ',' :: ds)) :
    readMembers (n + 1) (st.quoted k ++ ':' :: cs) =
      (readMembers n (skip ds)).map fun q => ((k, v) :: q.1, q.2) := by
  have hcolon : skip (':' :: cs) = ':' :: cs := skip_cons (by decide) cs
  have hskip : skip (',' :: ds) = ',' :: ds := skip_cons (by decide) ds
  simp only [Style.quoted, List.cons_append, List.append_assoc, List.nil_append, readMembers,
    readString_quoted, Option.bind_some, hcolon, h, hskip]

end Rules

/-- The elements of an array begin with the first. -/
theorem printElems_eq_cons (v : Value) (vs : List Value) :
    ∃ c cs, st.printElems (v :: vs) = c :: cs ∧ isBlank c = false ∧ c ≠ ']' := by
  obtain ⟨c, cs, hcs, hc⟩ := print_eq_cons st v
  cases vs with
  | nil => exact ⟨c, cs ++ [']'], by rw [Style.printElems, hcs]; rfl, hc⟩
  | cons v' vs =>
    exact ⟨c, cs ++ ',' :: (st.afterComma ++ st.printElems (v' :: vs)),
      by rw [Style.printElems, hcs]; rfl, hc⟩

/-- The members of an object begin with a quote. -/
theorem printMembers_eq_cons (k : String) (v : Value) (ms : List (String × Value)) :
    ∃ cs, st.printMembers ((k, v) :: ms) = '"' :: cs := by
  cases ms with
  | nil => exact ⟨_, by rw [Style.printMembers, Style.quoted, List.cons_append]⟩
  | cons m ms => exact ⟨_, by rw [Style.printMembers, Style.quoted, List.cons_append]⟩

mutual

/-- **Reading a value inverts writing it**, if the bound is at least the length of the text. -/
theorem readValue_print : ∀ (v : Value) {n : ℕ} {cs : List Char}, (st.print v).length ≤ n →
    Decimal.Ends cs → readValue n (st.print v ++ cs) = some (v, cs)
  | v, 0, _, hn, _ => by
    obtain ⟨c, ds, hds, -⟩ := print_eq_cons st v
    rw [hds] at hn
    cases hn
  | .null, n + 1, cs, _, _ => by simp [Style.print, readValue]
  | .bool true, n + 1, cs, _, _ => by simp [Style.print, readValue]
  | .bool false, n + 1, cs, _, _ => by simp [Style.print, readValue]
  | .num l, n + 1, cs, _, hcs => by
    rw [Style.print]
    exact readValue_num l hcs
  | .str s, n + 1, cs, _, _ => by
    have hread := readString_quoted st s cs
    simp [Style.print, Style.quoted, readValue, hread]
  | .arr [], n + 1, cs, _, _ => by
    have hskip : skip (']' :: cs) = ']' :: cs := skip_cons (by decide) cs
    simp [Style.print, Style.printElems, readValue, hskip]
  | .arr (v :: vs), n + 1, cs, hn, _ => by
    rw [Style.print, List.length_cons, Nat.succ_le_succ_iff] at hn
    obtain ⟨c, ds, hds, hblank, hc⟩ := printElems_eq_cons st v vs
    have hread : readElems n (st.printElems (v :: vs) ++ cs) = _ := readElems_print v vs hn
    rw [hds] at hread
    rw [Style.print, hds]
    exact (readValue_arr hblank hc).trans (congrArg (Option.map _) hread)
  | .obj [], n + 1, cs, _, _ => by
    have hskip : skip ('}' :: cs) = '}' :: cs := skip_cons (by decide) cs
    simp [Style.print, Style.printMembers, readValue, hskip]
  | .obj ((k, v) :: ms), n + 1, cs, hn, _ => by
    rw [Style.print, List.length_cons, Nat.succ_le_succ_iff] at hn
    obtain ⟨ds, hds⟩ := printMembers_eq_cons st k v ms
    have hread : readMembers n (st.printMembers ((k, v) :: ms) ++ cs) = _ := readMembers_print k v ms hn
    rw [hds] at hread
    rw [Style.print, hds]
    exact readValue_obj.trans (congrArg (Option.map _) hread)

theorem readElems_print : ∀ (v : Value) (vs : List Value) {n : ℕ} {cs : List Char},
    (st.printElems (v :: vs)).length ≤ n →
      readElems n (st.printElems (v :: vs) ++ cs) = some (v :: vs, cs)
  | v, vs, 0, _, hn => by
    obtain ⟨c, ds, hds, -⟩ := printElems_eq_cons st v vs
    rw [hds] at hn
    cases hn
  | v, [], n + 1, cs, hn => by
    rw [Style.printElems, List.length_append, List.length_singleton, Nat.succ_le_succ_iff] at hn
    rw [Style.printElems, List.append_assoc]
    exact readElems_last (readValue_print v hn (ends_cons (by decide) cs))
  | v, v' :: vs, n + 1, cs, hn => by
    simp only [Style.printElems, List.length_append, List.length_cons] at hn
    have hv : readValue n (st.print v ++ ',' :: (st.afterComma ++ st.printElems (v' :: vs) ++ cs)) = _ :=
      readValue_print v (by omega) (ends_cons (by decide) _)
    have hvs : readElems n (st.printElems (v' :: vs) ++ cs) = _ := readElems_print v' vs (by omega)
    obtain ⟨c, ds, hds, hblank, -⟩ := printElems_eq_cons st v' vs
    have hskip : skip (st.printElems (v' :: vs) ++ cs) = st.printElems (v' :: vs) ++ cs := by
      rw [hds]
      exact skip_cons hblank _
    rw [Style.printElems, List.append_assoc, List.cons_append]
    rw [readElems_next hv, List.append_assoc, skip_blanks st.blank_comma, hskip, hvs, Option.map_some]

theorem readMembers_print : ∀ (k : String) (v : Value) (ms : List (String × Value)) {n : ℕ}
    {cs : List Char}, (st.printMembers ((k, v) :: ms)).length ≤ n →
      readMembers n (st.printMembers ((k, v) :: ms) ++ cs) = some ((k, v) :: ms, cs)
  | k, v, ms, 0, _, hn => by
    obtain ⟨ds, hds⟩ := printMembers_eq_cons st k v ms
    rw [hds] at hn
    cases hn
  | k, v, [], n + 1, cs, hn => by
    simp only [Style.printMembers, List.length_append, List.length_cons] at hn
    have hv : readValue n (st.print v ++ '}' :: cs) = _ :=
      readValue_print v (by omega) (ends_cons (by decide) cs)
    have hskip : skip (st.afterColon ++ (st.print v ++ '}' :: cs)) = st.print v ++ '}' :: cs := by
      rw [skip_blanks st.blank_colon, skip_print]
    rw [← hskip] at hv
    simpa [Style.printMembers] using readMembers_last st hv
  | k, v, (k', v') :: ms, n + 1, cs, hn => by
    simp only [Style.printMembers, List.length_append, List.length_cons] at hn
    have hv : readValue n
        (st.print v ++ ',' :: (st.afterComma ++ st.printMembers ((k', v') :: ms) ++ cs)) = _ :=
      readValue_print v (by omega) (ends_cons (by decide) _)
    have hms : readMembers n (st.printMembers ((k', v') :: ms) ++ cs) = _ :=
      readMembers_print k' v' ms (by omega)
    have hskip : ∀ es, skip (st.afterColon ++ (st.print v ++ es)) = st.print v ++ es := fun es => by
      rw [skip_blanks st.blank_colon, skip_print]
    obtain ⟨ds, hds⟩ := printMembers_eq_cons st k' v' ms
    have hquote : skip (st.printMembers ((k', v') :: ms) ++ cs) = st.printMembers ((k', v') :: ms) ++ cs := by
      rw [hds]
      exact skip_cons (by decide) _
    rw [← hskip] at hv
    have hnext := readMembers_next st (k := k) hv
    rw [List.append_assoc, skip_blanks st.blank_comma, hquote, hms] at hnext
    simpa [Style.printMembers] using hnext

end

/-! ### Whole texts -/

/-- **A text that is one value.** -/
def parse (s : String) : Option Value :=
  match readValue s.toList.length (skip s.toList) with
  | some (v, cs) => if skip cs = [] then some v else none
  | none => none

/-- The value a text begins with. -/
def first (s : String) : Option Value :=
  (readValue s.toList.length (skip s.toList)).map Prod.fst

/-- The text of a value. -/
def Style.write (v : Value) : String := String.ofList (st.print v)

theorem readValue_write (v : Value) :
    readValue (st.write v).toList.length (skip (st.write v).toList) = some (v, []) := by
  have hskip := skip_print st v []
  have hread : readValue (st.print v).length (st.print v ++ []) = _ := readValue_print st v le_rfl nofun
  rw [List.append_nil] at hskip hread
  unfold Style.write
  rw [String.toList_ofList, hskip, hread]

/-- **Every writer's text is read as the value it was written from.** -/
theorem parse_write (v : Value) : parse (st.write v) = some v := by
  unfold parse
  rw [readValue_write]
  rfl

theorem first_write (v : Value) : first (st.write v) = some v := by
  unfold first
  rw [readValue_write]
  rfl

end MigrationSafety.Lib.Json
