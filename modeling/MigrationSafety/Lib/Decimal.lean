import Mathlib.Data.Rat.Defs
import Mathlib.Algebra.Field.Rat
import Mathlib.Algebra.Order.Ring.Rat
import Mathlib.Tactic.FieldSimp
import Mathlib.Tactic.Ring

/-! # Decimal literals

Numbers as they are written: digits, with a decimal point or without, with an exponent or without. A
literal is kept with its number of fractional digits, so that its text determines it.

* `read_text`: reading the text of a literal gives the literal back.
* `value_plain`: writing a literal without an exponent does not change its value. -/

namespace MigrationSafety.Lib.Decimal

/-- `±mantissa / 10 ^ scale`, times ten to the exponent. -/
structure Literal where
  neg : Bool := false
  mantissa : ℕ
  scale : ℕ := 0
  exp : Option ℤ := none
deriving DecidableEq

def Literal.value (l : Literal) : ℚ :=
  (if l.neg then -1 else 1) * (l.mantissa * 10 ^ (l.exp.getD 0 - l.scale))

/-! ### Texts -/

/-- The fractional digits. -/
def pad (scale n : ℕ) : List Char :=
  List.replicate (scale - (Nat.toDigits 10 n).length) '0' ++ Nat.toDigits 10 n

def fracText (scale n : ℕ) : List Char := if scale = 0 then [] else '.' :: pad scale n

def expText : Option ℤ → List Char
  | none => []
  | some e => 'e' :: (if e < 0 then '-' else '+') :: Nat.toDigits 10 e.natAbs

/-- The digits, point and exponent. -/
def Literal.digits (l : Literal) : List Char :=
  Nat.toDigits 10 (l.mantissa / 10 ^ l.scale) ++
    (fracText l.scale (l.mantissa % 10 ^ l.scale) ++ expText l.exp)

def Literal.text (l : Literal) : List Char := if l.neg then '-' :: l.digits else l.digits

/-! ### Reading -/

def readFrac : List Char → Option (List Char × List Char)
  | '.' :: cs =>
    if cs.takeWhile Char.isDigit = [] then none
    else some (cs.takeWhile Char.isDigit, cs.dropWhile Char.isDigit)
  | cs => some ([], cs)

/-- The digits of an exponent. -/
def readExpDigits (neg : Bool) (cs : List Char) : Option (Option ℤ × List Char) :=
  let ds := cs.takeWhile Char.isDigit
  if ds = [] then none
  else
    let e : ℕ := Nat.ofDigitChars 10 ds 0
    some (some (if neg then -e else e), cs.dropWhile Char.isDigit)

def readExpSign : List Char → Option (Option ℤ × List Char)
  | '-' :: cs => readExpDigits true cs
  | '+' :: cs => readExpDigits false cs
  | cs => readExpDigits false cs

def readExp : List Char → Option (Option ℤ × List Char)
  | 'e' :: cs => readExpSign cs
  | 'E' :: cs => readExpSign cs
  | cs => some (none, cs)

/-- A number without its sign. Only zero begins with `0`. -/
def readDigits (neg : Bool) (cs : List Char) : Option (Literal × List Char) :=
  let int := cs.takeWhile Char.isDigit
  if int = [] ∨ (int.head? = some '0' ∧ int ≠ ['0']) then none
  else do
    let (frac, cs) ← readFrac (cs.dropWhile Char.isDigit)
    let (exp, cs) ← readExp cs
    some (⟨neg, Nat.ofDigitChars 10 (int ++ frac) 0, frac.length, exp⟩, cs)

/-- **A number at the beginning of a text.** -/
def read : List Char → Option (Literal × List Char)
  | '-' :: cs => readDigits true cs
  | cs => readDigits false cs

/-! ### Digits -/

theorem isDigit_toDigits (n : ℕ) : ∀ c ∈ Nat.toDigits 10 n, c.isDigit = true := fun _ hc =>
  Nat.isDigit_of_mem_toDigits (by decide) (by decide) hc

/-- Only zero begins with `0`. -/
theorem toDigits_of_head {n : ℕ} (h : (Nat.toDigits 10 n).head? = some '0') :
    Nat.toDigits 10 n = ['0'] := by
  induction n using Nat.strong_induction_on with
  | _ n ih =>
    rcases Nat.lt_or_ge n 10 with hn | hn
    · rw [Nat.toDigits_of_lt_base hn] at h ⊢
      exact congrArg (· :: []) (Option.some.inj h)
    · rw [Nat.toDigits_of_base_le (by decide) hn, List.head?_append_of_ne_nil _ Nat.toDigits_ne_nil] at h
      have hzero := congrArg (Nat.ofDigitChars 10 · 0) (ih (n / 10) (by omega) h)
      have h0 : Nat.ofDigitChars 10 ['0'] 0 = 0 := by decide
      simp only [Nat.ofDigitChars_ten_toDigits, h0] at hzero
      omega

theorem isDigit_pad (scale n : ℕ) : ∀ c ∈ pad scale n, c.isDigit = true := by
  intro c hc
  rcases List.mem_append.mp hc with h | h
  · rw [List.eq_of_mem_replicate h]
    decide
  · exact isDigit_toDigits n c h

theorem length_pad {scale n : ℕ} (hs : scale ≠ 0) (h : n < 10 ^ scale) : (pad scale n).length = scale := by
  have := (Nat.length_toDigits_le_iff (by decide) (Nat.pos_of_ne_zero hs)).mpr h
  unfold pad
  rw [List.length_append, List.length_replicate]
  omega

theorem ofDigitChars_pad {scale n : ℕ} (hs : scale ≠ 0) (h : n < 10 ^ scale) (init : ℕ) :
    Nat.ofDigitChars 10 (pad scale n) init = init * 10 ^ scale + n := by
  have hlen := (Nat.length_toDigits_le_iff (by decide) (Nat.pos_of_ne_zero hs)).mpr h
  unfold pad
  rw [Nat.ofDigitChars_append, Nat.ofDigitChars_replicate_zero, Nat.ofDigitChars_eq_ofDigitChars_zero,
    Nat.ofDigitChars_ten_toDigits, ← mul_assoc, ← pow_add, Nat.add_sub_cancel' hlen, mul_comm]

/-- Does the text begin with a digit? -/
def NoDigit (cs : List Char) : Prop := ∀ c ∈ cs.head?, c.isDigit = false

theorem takeWhile_digits {ds cs : List Char} (hds : ∀ c ∈ ds, c.isDigit = true) (hcs : NoDigit cs) :
    (ds ++ cs).takeWhile Char.isDigit = ds ∧ (ds ++ cs).dropWhile Char.isDigit = cs := by
  rw [List.takeWhile_append_of_pos hds, List.dropWhile_append_of_pos hds]
  cases cs with
  | nil => simp
  | cons c cs => simp [hcs c rfl]

/-! ### Reading what has been written -/

/-- The text goes on with something that is no part of a number. -/
def Ends (cs : List Char) : Prop := ∀ c ∈ cs.head?, c.isDigit = false ∧ c ≠ '.' ∧ c ≠ 'e' ∧ c ≠ 'E'

variable {cs : List Char}

theorem Ends.noDigit (h : Ends cs) : NoDigit cs := fun c hc => (h c hc).1

theorem readExpDigits_text (h : Ends cs) (neg : Bool) (n : ℕ) :
    readExpDigits neg (Nat.toDigits 10 n ++ cs) = some (some (if neg then -(n : ℤ) else n), cs) := by
  obtain ⟨htake, hdrop⟩ := takeWhile_digits (isDigit_toDigits n) h.noDigit
  unfold readExpDigits
  simp only [htake, hdrop, Nat.toDigits_ne_nil, if_false, Nat.ofDigitChars_ten_toDigits]

theorem readExp_text (h : Ends cs) (exp : Option ℤ) : readExp (expText exp ++ cs) = some (exp, cs) := by
  cases exp with
  | none =>
    cases cs with
    | nil => rfl
    | cons c cs =>
      obtain ⟨-, -, he, hE⟩ := h c rfl
      show readExp (c :: cs) = _
      unfold readExp
      split
      · next heq => exact absurd (List.cons.inj heq).1 he
      · next heq => exact absurd (List.cons.inj heq).1 hE
      · rfl
  | some e =>
    rcases lt_or_ge e 0 with he | he
    · have habs : -(e.natAbs : ℤ) = e := by omega
      rw [expText, if_pos he]
      refine (readExpDigits_text h true e.natAbs).trans ?_
      rw [if_pos rfl, habs]
    · have habs : (e.natAbs : ℤ) = e := by omega
      rw [expText, if_neg (not_lt.mpr he)]
      refine (readExpDigits_text h false e.natAbs).trans ?_
      rw [if_neg Bool.false_ne_true, habs]

theorem noDigit_expText (h : Ends cs) (exp : Option ℤ) : NoDigit (expText exp ++ cs) := by
  cases exp with
  | none => exact h.noDigit
  | some e =>
    intro c hc
    obtain rfl := Option.some.inj hc
    decide

theorem ne_point_expText (h : Ends cs) (exp : Option ℤ) : ∀ c ∈ (expText exp ++ cs).head?, c ≠ '.' := by
  cases exp with
  | none => exact fun c hc => (h c hc).2.1
  | some e =>
    intro c hc
    obtain rfl := Option.some.inj hc
    decide

/-- The fractional digits, as they are read. -/
def fracDigits (scale n : ℕ) : List Char := if scale = 0 then [] else pad scale n

/-- The integer and the fractional digits together. -/
theorem ofDigitChars_fracDigits (scale m : ℕ) : Nat.ofDigitChars 10
    (Nat.toDigits 10 (m / 10 ^ scale) ++ fracDigits scale (m % 10 ^ scale)) 0 = m := by
  rw [Nat.ofDigitChars_append, Nat.ofDigitChars_ten_toDigits]
  unfold fracDigits
  split_ifs with hs
  · simp [hs]
  · rw [ofDigitChars_pad hs (Nat.mod_lt _ (Nat.pow_pos (by decide))), mul_comm]
    exact Nat.div_add_mod m (10 ^ scale)

theorem length_fracDigits {scale n : ℕ} (hn : n < 10 ^ scale) : (fracDigits scale n).length = scale := by
  unfold fracDigits
  split_ifs with hs
  · exact hs.symm
  · exact length_pad hs hn

theorem readFrac_text (h : Ends cs) (exp : Option ℤ) {scale n : ℕ} (hn : n < 10 ^ scale) :
    readFrac (fracText scale n ++ (expText exp ++ cs)) = some (fracDigits scale n, expText exp ++ cs) := by
  unfold fracText fracDigits
  split_ifs with hs
  · -- without a point
    have hpoint := ne_point_expText h exp
    cases heq : expText exp ++ cs with
    | nil => rfl
    | cons c rest =>
      rw [heq] at hpoint
      show readFrac (c :: rest) = _
      unfold readFrac
      split
      · next heq' => exact absurd (List.cons.inj heq').1 (hpoint c rfl)
      · rfl
  · have hne : pad scale n ≠ [] := by
      rw [← List.length_pos_iff, length_pad hs hn]
      omega
    obtain ⟨htake, hdrop⟩ := takeWhile_digits (isDigit_pad scale n) (noDigit_expText h exp)
    show readFrac ('.' :: (pad scale n ++ (expText exp ++ cs))) = _
    unfold readFrac
    simp only [htake, hdrop, hne, if_false]

theorem noDigit_fracText (h : Ends cs) (exp : Option ℤ) (scale n : ℕ) :
    NoDigit (fracText scale n ++ (expText exp ++ cs)) := by
  unfold fracText
  split_ifs
  · exact noDigit_expText h exp
  · intro c hc
    obtain rfl := Option.some.inj hc
    decide

theorem readDigits_text (h : Ends cs) (l : Literal) (neg : Bool) :
    readDigits neg (l.digits ++ cs) = some ({ l with neg := neg }, cs) := by
  obtain ⟨_, m, scale, exp⟩ := l
  have hn : m % 10 ^ scale < 10 ^ scale := Nat.mod_lt _ (Nat.pow_pos (by decide))
  obtain ⟨htake, hdrop⟩ := takeWhile_digits (isDigit_toDigits (m / 10 ^ scale))
    (noDigit_fracText h exp scale (m % 10 ^ scale))
  have hgood : ¬(Nat.toDigits 10 (m / 10 ^ scale) = [] ∨
      ((Nat.toDigits 10 (m / 10 ^ scale)).head? = some '0' ∧ Nat.toDigits 10 (m / 10 ^ scale) ≠ ['0'])) := by
    rintro (hnil | ⟨hzero, hne⟩)
    · exact Nat.toDigits_ne_nil hnil
    · exact hne (toDigits_of_head hzero)
  unfold readDigits Literal.digits
  rw [List.append_assoc, List.append_assoc, htake, hdrop, if_neg hgood, readFrac_text h exp hn]
  simp only [Option.bind_eq_bind, Option.bind_some, readExp_text h exp, ofDigitChars_fracDigits,
    length_fracDigits hn]

/-- A number without its sign begins with a digit. -/
theorem digits_eq_cons (l : Literal) : ∃ c ds, l.digits = c :: ds ∧ c.isDigit = true := by
  obtain ⟨c, ds, hds⟩ := List.exists_cons_of_ne_nil (@Nat.toDigits_ne_nil (l.mantissa / 10 ^ l.scale) 10)
  refine ⟨c, ds ++ (fracText l.scale (l.mantissa % 10 ^ l.scale) ++ expText l.exp), ?_,
    isDigit_toDigits _ c (hds ▸ List.mem_cons_self)⟩
  unfold Literal.digits
  rw [hds]
  rfl

/-- **Reading inverts writing.** -/
theorem read_text (h : Ends cs) (l : Literal) : read (l.text ++ cs) = some (l, cs) := by
  unfold Literal.text
  split_ifs with hneg
  · refine (readDigits_text h l true).trans ?_
    rw [← hneg]
  · obtain ⟨c, ds, hds, hc⟩ := digits_eq_cons l
    have hminus : c ≠ '-' := by
      rintro rfl
      cases hc
    have hread := readDigits_text h l false
    rw [hds] at hread ⊢
    rw [← (Bool.not_eq_true _).mp hneg] at hread
    show read (c :: (ds ++ cs)) = _
    unfold read
    split
    · next heq => exact absurd (List.cons.inj heq).1 hminus
    · rw [← hread, (Bool.not_eq_true _).mp hneg]
      rfl

/-! ### Without an exponent -/

/-- The same number without an exponent. Zero has no sign. -/
def Literal.plain (l : Literal) : Literal where
  neg := l.neg && l.mantissa ≠ 0
  mantissa := l.mantissa * 10 ^ (l.exp.getD 0 - l.scale).toNat
  scale := (l.scale - l.exp.getD 0).toNat

/-- A power with an integer exponent is a fraction. -/
theorem zpow_split {b : ℚ} (hb : b ≠ 0) (z : ℤ) : b ^ z.toNat * b ^ (-((-z).toNat : ℤ)) = b ^ z := by
  rw [← zpow_natCast, ← zpow_add₀ hb]
  congr 1
  omega

/-- **It has the same value.** -/
theorem value_plain (l : Literal) : l.plain.value = l.value := by
  obtain ⟨neg, m, scale, exp⟩ := l
  have hten := zpow_split (b := 10) (by norm_num) (exp.getD 0 - scale)
  rw [neg_sub] at hten
  by_cases hm : m = 0
  · simp [Literal.value, Literal.plain, hm]
  · simp only [Literal.value, Literal.plain, ne_eq, hm, not_false_eq_true, decide_true, Bool.and_true,
      Nat.cast_mul, Nat.cast_pow, Nat.cast_ofNat, Option.getD_none, zero_sub]
    rw [mul_assoc (m : ℚ), hten]

end MigrationSafety.Lib.Decimal
