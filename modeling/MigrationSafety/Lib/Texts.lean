import Mathlib.Data.List.DropRight
import MigrationSafety.Lib.Binary64

/-! # Texts, as JavaScript handles them

The operations of strings by which a text is taken apart: cutting at a character, dropping one at either
end, trimming, and reading a number. A text is the list of its characters.

* `cut_append`: a text is cut at the first occurrence.
* `not_mem_of_mem_splitOn`, `mem_of_mem_splitOn`: the pieces of a split.
* `trim_eq_self`: a text without white space at its ends. -/

namespace MigrationSafety.Lib.Texts

open MigrationSafety.Lib.Binary64

abbrev Text := List Char

variable {c d : Char} {cs ds a b : Text}

/-! ### Cutting -/

/-- The parts before and after the first occurrence, if there is one: `indexOf` and `slice`. -/
def cut (c : Char) (cs : Text) : Option (Text × Text) :=
  if c ∈ cs then some (cs.takeWhile (· ≠ c), (cs.dropWhile (· ≠ c)).tail) else none

theorem cut_append (h : c ∉ a) : cut c (a ++ c :: b) = some (a, b) := by
  have ha : ∀ d ∈ a, decide (d ≠ c) = true := by
    intro d hd
    rw [decide_eq_true_eq]
    rintro rfl
    exact h hd
  unfold cut
  rw [if_pos (List.mem_append_right _ List.mem_cons_self), List.takeWhile_append_of_pos ha,
    List.dropWhile_append_of_pos ha]
  simp

theorem cut_cons_of_ne (h : d ≠ c) : cut c (d :: cs) = (cut c cs).map fun p => (d :: p.1, p.2) := by
  unfold cut
  simp only [List.mem_cons, Ne.symm h, false_or]
  split_ifs
  · simp [h]
  · rfl

theorem cut_eq_none : cut c cs = none ↔ c ∉ cs := by
  unfold cut
  split_ifs with h <;> simp [h]

theorem not_mem_of_cut (h : cut c cs = some (a, b)) : c ∉ a := by
  unfold cut at h
  split_ifs at h
  cases h
  intro hc
  simpa using List.mem_takeWhile_imp hc

theorem mem_of_cut (h : cut c cs = some (a, b)) : (∀ d ∈ a, d ∈ cs) ∧ ∀ d ∈ b, d ∈ cs := by
  unfold cut at h
  split_ifs at h
  cases h
  exact ⟨fun d hd => (List.takeWhile_prefix _).subset hd,
    fun d hd => (List.dropWhile_suffix _).subset (List.mem_of_mem_tail hd)⟩

/-! ### Splitting -/

/-- No piece has the character. -/
theorem not_mem_of_mem_splitOn (h : a ∈ cs.splitOn c) : c ∉ a := by
  induction cs generalizing a with
  | nil =>
    rw [List.splitOn_nil, List.mem_singleton] at h
    rw [h]
    exact List.not_mem_nil
  | cons d cs ih =>
    obtain ⟨p, ps, hps⟩ := List.exists_cons_of_ne_nil (List.splitOn_ne_nil c cs)
    rw [List.splitOn_cons_eq_if_modifyHead, hps] at h
    rw [hps] at ih
    split_ifs at h with hd
    · rcases List.mem_cons.mp h with rfl | h
      · exact List.not_mem_nil
      · exact ih h
    · rw [List.modifyHead_cons, List.mem_cons] at h
      rcases h with rfl | h
      · rw [List.mem_cons, not_or]
        refine ⟨fun hcd => hd ?_, ih List.mem_cons_self⟩
        rw [hcd, beq_self_eq_true]
      · exact ih (List.mem_cons_of_mem _ h)

theorem mem_intercalate {ps : List Text} :
    d ∈ [c].intercalate ps → d = c ∨ ∃ p ∈ ps, d ∈ p := by
  intro h
  induction ps with
  | nil => cases h
  | cons p ps ih =>
    cases ps with
    | nil => exact Or.inr ⟨p, List.mem_cons_self, by simpa using h⟩
    | cons q ps =>
      rw [List.intercalate_cons_cons, List.append_assoc, List.mem_append, List.singleton_append,
        List.mem_cons] at h
      rcases h with h | rfl | h
      · exact Or.inr ⟨p, List.mem_cons_self, h⟩
      · exact Or.inl rfl
      · rcases ih h with h | ⟨r, hr, h⟩
        · exact Or.inl h
        · exact Or.inr ⟨r, List.mem_cons_of_mem _ hr, h⟩

theorem mem_of_mem_splitOn (h : a ∈ cs.splitOn c) (hd : d ∈ a) : d ∈ cs := by
  have hjoin : [c].intercalate (cs.splitOn c) = cs := List.intercalate_splitOn c
  rw [← hjoin]
  generalize cs.splitOn c = ps at h
  induction ps with
  | nil => cases h
  | cons p ps ih =>
    cases ps with
    | nil =>
      rw [List.mem_singleton] at h
      rw [← h]
      simpa using hd
    | cons q ps =>
      rw [List.intercalate_cons_cons]
      rcases List.mem_cons.mp h with rfl | h
      · simp [hd]
      · exact List.mem_append_right _ (ih h)

/-! ### Ends -/

/-- `replace(/^c/, '')`. -/
def dropStart (c : Char) : Text → Text
  | [] => []
  | d :: cs => if d = c then cs else d :: cs

/-- `replace(/c$/, '')`. -/
def dropEnd (c : Char) (cs : Text) : Text := (dropStart c cs.reverse).reverse

@[simp] theorem dropStart_cons_self : dropStart c (c :: cs) = cs := if_pos rfl

@[simp] theorem dropEnd_append_self : dropEnd c (cs ++ [c]) = cs := by
  unfold dropEnd
  rw [List.reverse_append, List.reverse_singleton, List.singleton_append, dropStart_cons_self,
    List.reverse_reverse]

theorem mem_of_mem_dropStart (h : d ∈ dropStart c cs) : d ∈ cs := by
  cases cs with
  | nil => exact h
  | cons e cs =>
    rw [dropStart] at h
    split_ifs at h
    · exact List.mem_cons_of_mem _ h
    · exact h

theorem mem_of_mem_dropEnd (h : d ∈ dropEnd c cs) : d ∈ cs :=
  List.mem_reverse.mp (mem_of_mem_dropStart (List.mem_reverse.mp h))

/-! ### White space -/

/-- White space and line terminators, but for U+2000 to U+200A. -/
def spaces : Text :=
  ['\t', '\n', '\x0b', '\x0c', '\r', ' ', '\u00a0', '\u1680', '\u2028', '\u2029', '\u202f', '\u205f',
    '\u3000', '\ufeff']

def isSpace (c : Char) : Bool := c ∈ spaces || (0x2000 ≤ c.toNat && c.toNat ≤ 0x200a)

/-- Visible ASCII characters are no white space. -/
theorem isSpace_of_lt (hlow : 32 < c.toNat) (hhigh : c.toNat < 128) : isSpace c = false := by
  rw [← Bool.not_eq_true]
  intro h
  rcases Bool.or_eq_true_iff.mp h with h | h
  · have hall : (spaces.all fun d => d.toNat ≤ 32 || 128 ≤ d.toNat) = true := by decide
    have hc := List.all_eq_true.mp hall c (of_decide_eq_true h)
    rw [Bool.or_eq_true, decide_eq_true_eq, decide_eq_true_eq] at hc
    omega
  · rw [Bool.and_eq_true, decide_eq_true_eq, decide_eq_true_eq] at h
    omega

def trim (cs : Text) : Text := (cs.dropWhile isSpace).rdropWhile isSpace

theorem mem_of_mem_trim (h : d ∈ trim cs) : d ∈ cs :=
  (List.dropWhile_suffix _).subset ((List.rdropWhile_prefix _ _).subset h)

/-- What is no white space stays. -/
theorem count_trim (h : isSpace c = false) : (trim cs).count c = cs.count c := by
  have hdrop : ∀ l : Text, (l.dropWhile isSpace).count c = l.count c := by
    intro l
    induction l with
    | nil => rfl
    | cons d l ih =>
      rw [List.dropWhile_cons]
      split_ifs with hd
      · rw [ih, List.count_cons_of_ne]
        rintro rfl
        rw [h] at hd
        cases hd
      · rfl
  unfold trim List.rdropWhile
  rw [List.count_reverse, hdrop, List.count_reverse, hdrop]

/-- **A text without white space at its ends.** -/
theorem trim_eq_self (hhead : ∀ c ∈ cs.head?, isSpace c = false)
    (hlast : ∀ c ∈ cs.getLast?, isSpace c = false) : trim cs = cs := by
  have hdrop : cs.dropWhile isSpace = cs := by
    cases cs with
    | nil => rfl
    | cons c cs => rw [List.dropWhile_cons_of_neg (by rw [hhead c rfl]; exact Bool.false_ne_true)]
  unfold trim
  rw [hdrop, List.rdropWhile_eq_self_iff]
  intro hne
  rw [hlast _ (List.getLast?_eq_getLast_of_ne_nil hne)]
  exact Bool.false_ne_true

theorem trim_of_forall (h : ∀ c ∈ cs, isSpace c = false) : trim cs = cs :=
  trim_eq_self (fun c hc => h c (List.mem_of_mem_head? hc)) fun c hc => h c (List.mem_of_getLast? hc)

theorem trim_cons_of_isSpace (h : isSpace c = true) : trim (c :: cs) = trim cs := by
  unfold trim
  rw [List.dropWhile_cons_of_pos h]

/-- A word between blanks. -/
theorem trim_between (ha : ∀ c ∈ a, isSpace c = true) (hb : ∀ c ∈ b, isSpace c = true)
    (h : ∀ c ∈ cs, isSpace c = false) : trim (a ++ (cs ++ b)) = cs := by
  have hword : cs.rdropWhile isSpace = cs := by
    have := trim_of_forall h
    unfold trim at this
    cases cs with
    | nil => rfl
    | cons c cs => rwa [List.dropWhile_cons_of_neg (by simp [h c List.mem_cons_self])] at this
  unfold trim
  rw [List.dropWhile_append_of_pos ha]
  cases cs with
  | nil =>
    have hdrop : b.dropWhile isSpace = [] := List.dropWhile_eq_nil_iff.mpr hb
    rw [List.nil_append, hdrop]
    rfl
  | cons c cs =>
    rw [List.cons_append, List.dropWhile_cons_of_neg (by simp [h c List.mem_cons_self]), ← List.cons_append]
    unfold List.rdropWhile at hword ⊢
    rw [List.reverse_append, List.dropWhile_append_of_pos (by simpa using hb), hword]

theorem trim_ne_nil (hc : c ∈ cs) (h : isSpace c = false) : trim cs ≠ [] := by
  intro hnil
  have hcount : (trim cs).count c = cs.count c := count_trim h
  rw [hnil, List.count_nil, eq_comm, List.count_eq_zero] at hcount
  exact hcount hc

/-! ### Numbers -/

/-- A number that is not NaN. -/
inductive Number
  | finite (x : Float64)
  | infinity (neg : Bool)
deriving DecidableEq

def readFraction : Text → Text × Text
  | '.' :: cs => (cs.takeWhile Char.isDigit, cs.dropWhile Char.isDigit)
  | cs => ([], cs)

/-- The digits of an exponent: without any it is none. -/
def readExponentDigits : Text → ℤ
  | '-' :: cs => -Nat.ofDigitChars 10 (cs.takeWhile Char.isDigit) 0
  | '+' :: cs => Nat.ofDigitChars 10 (cs.takeWhile Char.isDigit) 0
  | cs => Nat.ofDigitChars 10 (cs.takeWhile Char.isDigit) 0

def readExponent : Text → ℤ
  | 'e' :: cs => readExponentDigits cs
  | 'E' :: cs => readExponentDigits cs
  | _ => 0

/-- A number without its sign. -/
def readUnsigned (neg : Bool) (cs : Text) : Option Number :=
  if "Infinity".toList.isPrefixOf cs then some (.infinity neg)
  else
    let int := cs.takeWhile Char.isDigit
    let (frac, rest) := readFraction (cs.dropWhile Char.isDigit)
    if int = [] ∧ frac = [] then none
    else
      let mantissa := Nat.ofDigitChars 10 (int ++ frac) 0
      some (.finite (Float64.ofRat
        ((if neg then -1 else 1) * (mantissa * 10 ^ (readExponent rest - frac.length)))))

/-- **`parseFloat`**: the number at the beginning of a text, if it is none NaN. -/
def parseFloat (cs : Text) : Option Number :=
  match cs.dropWhile isSpace with
  | '-' :: cs => readUnsigned true cs
  | '+' :: cs => readUnsigned false cs
  | cs => readUnsigned false cs

end MigrationSafety.Lib.Texts
