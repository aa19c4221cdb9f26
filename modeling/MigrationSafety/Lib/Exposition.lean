import MigrationSafety.Lib.Shortest
import MigrationSafety.Lib.Texts

/-! # The text exposition format

Samples of metrics, one a line: the name, the labels in braces, and the value. In the value of a label a
backslash, a quote and the end of a line are escaped; numbers are in the notation `%g` with as many digits
as it takes. Every other line is a comment.

* `escape_eq_self`: a value without these characters is written as it is.
* `parseFloat_formatValue`: the number is read back by JavaScript.
* `splitOn_write`: the lines of what is written. -/

namespace MigrationSafety.Lib.Exposition

open MigrationSafety.Lib.Binary64 MigrationSafety.Lib.Decimal MigrationSafety.Lib.Shortest
open MigrationSafety.Lib.Texts

/-! ### Samples -/

/-- `[a-zA-Z_][a-zA-Z0-9_]*`, and not reserved by two underscores. -/
def isLabelName : Text → Bool
  | [] => false
  | c :: cs => (c.isAlpha || c = '_') && cs.all (fun d => d.isAlphanum || d = '_') &&
      !("__".toList.isPrefixOf (c :: cs))

/-- `[a-zA-Z_:][a-zA-Z0-9_:]*`. -/
def isMetricName : Text → Bool
  | [] => false
  | c :: cs => (c.isAlpha || c = '_' || c = ':') && cs.all fun d => d.isAlphanum || d = '_' || d = ':'

/-- A sample: its names are valid, and no label is there twice. -/
structure Sample where
  name : Text
  labels : List (Text × Text)
  value : Float64
  name_valid : isMetricName name = true
  labels_valid : ∀ l ∈ labels, isLabelName l.1 = true
  nodup : (labels.map Prod.fst).Nodup

/-! ### Writing -/

def escapeChar (c : Char) : Text :=
  if c = '\\' then ['\\', '\\'] else if c = '"' then ['\\', '"']
  else if c = '\n' then ['\\', 'n'] else [c]

def escape (v : Text) : Text := v.flatMap escapeChar

def writeLabel (l : Text × Text) : Text := l.1 ++ '=' :: '"' :: (escape l.2 ++ ['"'])

/-- The labels between the braces. -/
def joinLabels (ls : List (Text × Text)) : Text := [','].intercalate (ls.map writeLabel)

def writeLabels (ls : List (Text × Text)) : Text :=
  if ls = [] then [] else '{' :: (joinLabels ls ++ ['}'])

/-- An exponent has two digits at least. -/
def exponentText : Option ℤ → Text
  | none => []
  | some e => 'e' :: (if e < 0 then '-' else '+') :: pad 2 e.natAbs

def literalText (l : Literal) : Text :=
  (if l.neg then ['-'] else []) ++ (Nat.toDigits 10 (l.mantissa / 10 ^ l.scale) ++
    (fracText l.scale (l.mantissa % 10 ^ l.scale) ++ exponentText l.exp))

/-- The notation `%g`: with an exponent below `10 ^ -4` and from `10 ^ 6` on. -/
def formatG (x : Float64) : Literal :=
  let l := shortestLiteral x
  let e := l.exp.getD 0 + (Nat.toDigits 10 l.mantissa).length - 1
  if e < -4 ∨ 6 ≤ e then scientific l else l.plain

def formatValue (x : Float64) : Text := literalText (formatG x)

def writeSample (s : Sample) : Text := s.name ++ (writeLabels s.labels ++ ' ' :: formatValue s.value)

/-- A line: a sample, or a comment, such as the help of a metric and its type. -/
inductive Line
  | comment (text : Text) (h : '\n' ∉ text)
  | sample (s : Sample)

def Line.text : Line → Text
  | comment text _ => '#' :: text
  | sample s => writeSample s

/-- **The text of the lines.** -/
def write (ls : List Line) : Text := ls.flatMap fun l => l.text ++ ['\n']

def Line.sample? : Line → Option Sample
  | comment .. => none
  | sample s => some s

/-- The samples in the order of their lines. -/
def samples (ls : List Line) : List Sample := ls.filterMap Line.sample?

/-! ### Names -/

section Names
variable {c : Char} {cs : Text}

/-- The characters of a name. -/
def isNameChar (c : Char) : Bool := c.isAlphanum || c = '_' || c = ':'

theorem isNameChar_of_isMetricName (h : isMetricName cs = true) : ∀ c ∈ cs, isNameChar c = true := by
  cases cs with
  | nil => cases h
  | cons d cs =>
    simp only [isMetricName, Bool.and_eq_true, List.all_eq_true] at h
    intro c hc
    rcases List.mem_cons.mp hc with rfl | hc
    · unfold isNameChar Char.isAlphanum
      simp only [Bool.or_eq_true] at h ⊢
      tauto
    · exact h.2 c hc

theorem isNameChar_of_isLabelName (h : isLabelName cs = true) : ∀ c ∈ cs, isNameChar c = true := by
  cases cs with
  | nil => cases h
  | cons d cs =>
    simp only [isLabelName, Bool.and_eq_true, List.all_eq_true] at h
    intro c hc
    unfold isNameChar Char.isAlphanum
    rcases List.mem_cons.mp hc with rfl | hc
    · simp only [Bool.or_eq_true] at h ⊢
      tauto
    · rw [Bool.or_eq_true]
      exact Or.inl (h.1.2 c hc)

theorem ne_nil_of_isMetricName (h : isMetricName cs = true) : cs ≠ [] := by
  rintro rfl
  cases h

theorem not_reserved (h : isLabelName cs = true) (cs' : Text) : cs ≠ '_' :: '_' :: cs' := by
  rintro rfl
  simp [isLabelName] at h

/-- What is a character of a name is nothing else. -/
theorem not_mem_of_isNameChar (h : ∀ d ∈ cs, isNameChar d = true) (hc : isNameChar c = false) : c ∉ cs := by
  intro hmem
  rw [h c hmem] at hc
  cases hc

/-- Letters and digits are visible. -/
theorem toNat_of_isAlphanum (h : c.isAlphanum = true) : 32 < c.toNat ∧ c.toNat < 128 := by
  unfold Char.isAlphanum Char.isAlpha Char.isUpper Char.isLower Char.isDigit at h
  simp only [Bool.or_eq_true, Bool.and_eq_true, decide_eq_true_eq, UInt32.le_iff_toNat_le] at h
  have hval : c.toNat = c.val.toNat := rfl
  simp at h
  omega

theorem isSpace_of_isDigit (h : c.isDigit = true) : isSpace c = false := by
  obtain ⟨hlow, hhigh⟩ := toNat_of_isAlphanum (c := c) (by rw [Char.isAlphanum, h, Bool.or_true])
  exact isSpace_of_lt hlow hhigh

theorem isSpace_of_isNameChar (h : isNameChar c = true) : isSpace c = false := by
  unfold isNameChar at h
  simp only [Bool.or_eq_true, decide_eq_true_eq] at h
  rcases h with (h | rfl) | rfl
  · exact isSpace_of_lt (toNat_of_isAlphanum h).1 (toNat_of_isAlphanum h).2
  · decide
  · decide

end Names

/-! ### Numbers -/

section Numbers
variable {c : Char} {e : Option ℤ}

theorem ofDigitChars_pad_zero (scale n : ℕ) : Nat.ofDigitChars 10 (pad scale n) 0 = n := by
  unfold pad
  rw [Nat.ofDigitChars_append, Nat.ofDigitChars_replicate_zero, mul_zero, Nat.ofDigitChars_ten_toDigits]

theorem takeWhile_pad (scale n : ℕ) : (pad scale n).takeWhile Char.isDigit = pad scale n :=
  List.takeWhile_eq_self_iff.mpr (isDigit_pad scale n)

theorem readExponent_exponentText : readExponent (exponentText e) = e.getD 0 := by
  cases e with
  | none => rfl
  | some e =>
    rw [exponentText]
    split_ifs with he
    · show -((Nat.ofDigitChars 10 ((pad 2 e.natAbs).takeWhile Char.isDigit) 0 : ℕ) : ℤ) = e
      rw [takeWhile_pad, ofDigitChars_pad_zero]
      omega
    · show ((Nat.ofDigitChars 10 ((pad 2 e.natAbs).takeWhile Char.isDigit) 0 : ℕ) : ℤ) = e
      rw [takeWhile_pad, ofDigitChars_pad_zero]
      omega

theorem noDigit_exponentText : NoDigit (exponentText e) := by
  cases e with
  | none => exact fun _ h => by cases h
  | some e =>
    intro c hc
    obtain rfl := Option.some.inj hc
    decide

theorem noDigit_fraction (scale n : ℕ) : NoDigit (fracText scale n ++ exponentText e) := by
  unfold fracText
  split_ifs
  · exact noDigit_exponentText
  · intro c hc
    obtain rfl := Option.some.inj hc
    decide

theorem readFraction_fracText (scale n : ℕ) :
    readFraction (fracText scale n ++ exponentText e) = (fracDigits scale n, exponentText e) := by
  unfold fracText fracDigits
  split_ifs
  · cases e <;> rfl
  · obtain ⟨htake, hdrop⟩ := takeWhile_digits (isDigit_pad scale n) (noDigit_exponentText (e := e))
    show ((pad scale n ++ exponentText e).takeWhile Char.isDigit,
      (pad scale n ++ exponentText e).dropWhile Char.isDigit) = _
    rw [htake, hdrop]

/-- The digits of a literal, without its sign. -/
theorem readUnsigned_literal (l : Literal) : readUnsigned l.neg
    (Nat.toDigits 10 (l.mantissa / 10 ^ l.scale) ++
      (fracText l.scale (l.mantissa % 10 ^ l.scale) ++ exponentText l.exp)) =
      some (.finite (Float64.ofRat l.value)) := by
  obtain ⟨neg, m, scale, exp⟩ := l
  obtain ⟨htake, hdrop⟩ := takeWhile_digits (isDigit_toDigits (m / 10 ^ scale))
    (noDigit_fraction (e := exp) scale (m % 10 ^ scale))
  obtain ⟨d, ds, hds⟩ := List.exists_cons_of_ne_nil (@Nat.toDigits_ne_nil (m / 10 ^ scale) 10)
  have hd : d.isDigit = true := isDigit_toDigits _ d (hds ▸ List.mem_cons_self)
  have hinf : ¬"Infinity".toList.isPrefixOf (Nat.toDigits 10 (m / 10 ^ scale) ++
      (fracText scale (m % 10 ^ scale) ++ exponentText exp)) = true := by
    rw [hds]
    intro h
    obtain ⟨t, ht⟩ := List.isPrefixOf_iff_prefix.mp h
    rw [← (List.cons.inj ht).1] at hd
    exact absurd hd (by decide)
  unfold readUnsigned
  simp only [if_neg hinf, htake, hdrop, readFraction_fracText, Nat.toDigits_ne_nil, false_and, if_false,
    ofDigitChars_fracDigits, readExponent_exponentText]
  rw [length_fracDigits (Nat.mod_lt _ (Nat.pow_pos (by decide)))]
  rfl

theorem mem_exponentText (h : c ∈ exponentText e) : c.isDigit = true ∨ c ∈ ['-', '+', '.', 'e'] := by
  cases e with
  | none => cases h
  | some e =>
    rcases List.mem_cons.mp h with rfl | h
    · simp
    rcases List.mem_cons.mp h with rfl | h
    · split_ifs <;> simp
    · exact Or.inl (isDigit_pad _ _ c h)

/-- The characters of a number. -/
theorem mem_literalText {l : Literal} (h : c ∈ literalText l) :
    c.isDigit = true ∨ c ∈ ['-', '+', '.', 'e'] := by
  rcases List.mem_append.mp h with h | h
  · split_ifs at h
    · rw [List.mem_singleton] at h
      simp [h]
    · cases h
  rcases List.mem_append.mp h with h | h
  · exact Or.inl (isDigit_toDigits _ c h)
  rcases List.mem_append.mp h with h | h
  · unfold fracText at h
    split_ifs at h
    · cases h
    · rcases List.mem_cons.mp h with rfl | h
      · simp
      · exact Or.inl (isDigit_pad _ _ c h)
  · exact mem_exponentText h

theorem isSpace_of_mem_literalText {l : Literal} (h : c ∈ literalText l) : isSpace c = false := by
  rcases mem_literalText h with h | h
  · exact isSpace_of_isDigit h
  · have hall : (['-', '+', '.', 'e'].all fun d => !isSpace d) = true := by decide
    exact (Bool.not_eq_true' _).mp (List.all_eq_true.mp hall c h)

/-- **A number is read back.** -/
theorem parseFloat_literalText (l : Literal) :
    parseFloat (literalText l) = some (.finite (Float64.ofRat l.value)) := by
  have hspace : (literalText l).dropWhile isSpace = literalText l := by
    cases hl : literalText l with
    | nil => rfl
    | cons c cs =>
      have hc : c ∈ literalText l := hl ▸ List.mem_cons_self
      rw [List.dropWhile_cons_of_neg (by rw [isSpace_of_mem_literalText hc]; exact Bool.false_ne_true)]
  have hread := readUnsigned_literal l
  unfold parseFloat
  rw [hspace]
  unfold literalText
  by_cases hneg : l.neg = true
  · rw [hneg] at hread
    rw [if_pos hneg]
    exact hread
  · obtain ⟨d, ds, hds⟩ := List.exists_cons_of_ne_nil (@Nat.toDigits_ne_nil (l.mantissa / 10 ^ l.scale) 10)
    have hd : d.isDigit = true := isDigit_toDigits _ d (hds ▸ List.mem_cons_self)
    rw [if_neg hneg, List.nil_append]
    rw [(Bool.not_eq_true _).mp hneg, hds] at hread
    rw [hds, List.cons_append]
    split
    · next heq =>
      rw [(List.cons.inj heq).1] at hd
      cases hd
    · next heq =>
      rw [(List.cons.inj heq).1] at hd
      cases hd
    · exact hread

theorem value_formatG (x : Float64) : (formatG x).value = (shortestLiteral x).value := by
  unfold formatG
  simp only
  split_ifs
  · exact value_scientific _
  · exact value_plain _

theorem parseFloat_formatValue (x : Float64) : parseFloat (formatValue x) = some (.finite x) := by
  unfold formatValue
  rw [parseFloat_literalText, value_formatG, ofRat_shortestLiteral]

end Numbers

/-! ### Escapes -/

section Escapes
variable {c : Char} {v : Text}

theorem escapeChar_eq_self (hslash : c ≠ '\\') (hquote : c ≠ '"') (hline : c ≠ '\n') :
    escapeChar c = [c] := by
  unfold escapeChar
  rw [if_neg hslash, if_neg hquote, if_neg hline]

theorem escape_eq_self (hslash : '\\' ∉ v) (hquote : '"' ∉ v) (hline : '\n' ∉ v) : escape v = v := by
  have hself : ∀ c ∈ v, escapeChar c = [c] := fun c hc =>
    escapeChar_eq_self (ne_of_mem_of_not_mem hc hslash) (ne_of_mem_of_not_mem hc hquote)
      (ne_of_mem_of_not_mem hc hline)
  unfold escape
  rw [List.flatMap_congr hself, List.flatMap_singleton']

/-- What is in an escaped value. -/
theorem mem_escape (h : c ∈ escape v) : (c ∈ v ∧ c ≠ '\n') ∨ c ∈ ['\\', '"', 'n'] := by
  obtain ⟨d, hd, hc⟩ := List.mem_flatMap.mp h
  unfold escapeChar at hc
  split_ifs at hc with hslash hquote hline
  · simp only [List.mem_cons, List.not_mem_nil, or_false, or_self] at hc
    simp [hc]
  · simp only [List.mem_cons, List.not_mem_nil, or_false] at hc
    rcases hc with rfl | rfl <;> simp
  · simp only [List.mem_cons, List.not_mem_nil, or_false] at hc
    rcases hc with rfl | rfl <;> simp
  · rw [List.mem_singleton] at hc
    rw [hc]
    exact Or.inl ⟨hd, hline⟩

/-- **An escape** is one more backslash. -/
theorem count_escape : (escape v).count '\\' = v.count '\\' + (v.count '\\' + v.count '"' + v.count '\n') := by
  induction v with
  | nil => rfl
  | cons c v ih =>
    have hcons : escape (c :: v) = escapeChar c ++ escape v := rfl
    rw [hcons, List.count_append, ih]
    unfold escapeChar
    simp only [List.count_cons]
    split_ifs with hslash hquote hline <;> simp_all <;> omega

end Escapes

/-! ### Lines -/

section Lines
variable {c : Char} {l : Text × Text} {ls : List (Text × Text)}

/-- A character that is neither of a name nor of the syntax of a label is of its value. -/
theorem mem_writeLabel (hvalid : isLabelName l.1 = true) (hname : isNameChar c = false) (heq : c ≠ '=')
    (hquote : c ≠ '"') (h : c ∈ writeLabel l) : c ∈ escape l.2 := by
  rcases List.mem_append.mp h with h | h
  · exact absurd h (not_mem_of_isNameChar (isNameChar_of_isLabelName hvalid) hname)
  rcases List.mem_cons.mp h with h | h
  · exact absurd h heq
  rcases List.mem_cons.mp h with h | h
  · exact absurd h hquote
  rcases List.mem_append.mp h with h | h
  · exact h
  · exact absurd (List.mem_singleton.mp h) hquote

theorem mem_joinLabels (hvalid : ∀ l ∈ ls, isLabelName l.1 = true) (hname : isNameChar c = false)
    (heq : c ≠ '=') (hquote : c ≠ '"') (hcomma : c ≠ ',') (h : c ∈ joinLabels ls) :
    ∃ l ∈ ls, c ∈ escape l.2 := by
  rcases mem_intercalate h with h | ⟨p, hp, h⟩
  · exact absurd h hcomma
  · obtain ⟨l, hl, rfl⟩ := List.mem_map.mp hp
    exact ⟨l, hl, mem_writeLabel (hvalid l hl) hname heq hquote h⟩

theorem newline_not_mem_escape (v : Text) : '\n' ∉ escape v := by
  intro h
  rcases mem_escape h with ⟨-, hne⟩ | hspecial
  · exact hne rfl
  · exact absurd hspecial (by decide)

theorem not_mem_formatValue (x : Float64) (hdigit : c.isDigit = false) (hc : c ∉ ['-', '+', '.', 'e']) :
    c ∉ formatValue x := by
  intro h
  rcases mem_literalText h with h | h
  · rw [hdigit] at h
    cases h
  · exact hc h

theorem newline_not_mem_writeSample (s : Sample) : '\n' ∉ writeSample s := by
  intro h
  rcases List.mem_append.mp h with h | h
  · exact not_mem_of_isNameChar (isNameChar_of_isMetricName s.name_valid) (by decide) h
  rcases List.mem_append.mp h with h | h
  · unfold writeLabels at h
    split_ifs at h
    · cases h
    rcases List.mem_cons.mp h with h | h
    · cases h
    rcases List.mem_append.mp h with h | h
    · obtain ⟨l, -, hl⟩ := mem_joinLabels s.labels_valid (by decide) (by decide) (by decide) (by decide) h
      exact newline_not_mem_escape l.2 hl
    · exact absurd h (by decide)
  rcases List.mem_cons.mp h with h | h
  · cases h
  · exact not_mem_formatValue s.value (by decide) (by decide) h

/-- A line has no end in it. -/
theorem newline_not_mem_text (l : Line) : '\n' ∉ l.text := by
  cases l with
  | comment text h =>
    rw [Line.text, List.mem_cons, not_or]
    exact ⟨by decide, h⟩
  | sample s => exact newline_not_mem_writeSample s

/-- **The lines of what is written.** -/
theorem splitOn_write (ls : List Line) : (write ls).splitOn '\n' = ls.map Line.text ++ [[]] := by
  induction ls with
  | nil => rfl
  | cons l ls ih =>
    have hcons : write (l :: ls) = l.text ++ '\n' :: write ls := by
      unfold write
      rw [List.flatMap_cons, List.append_assoc]
      rfl
    rw [hcons, List.splitOn_append_cons_self_of_not_mem (newline_not_mem_text l), ih]
    rfl

end Lines

end MigrationSafety.Lib.Exposition
