import Mathlib.Data.List.Basic

/-! # SQL text

The statements of the engine are strings. This module has what the code and PostgreSQL look at in
them: the identifier pattern of the validator, the name an unquoted identifier denotes, and the
keyword test of the DDL executor.

* `identRe`: the pattern `^[a-zA-Z_][a-zA-Z0-9_]*$`.
* `foldIdent`: the column an unquoted name refers to.
* `compact`: a text without its white space, by which statements are compared. -/

namespace MigrationSafety.Sql.Text

/-! ### Identifiers -/

def isIdentStart (c : Char) : Bool := c.isAlpha || c == '_'

def isIdentChar (c : Char) : Bool := c.isAlphanum || c == '_'

/-- `^[a-zA-Z_][a-zA-Z0-9_]*$`. -/
def identRe (s : String) : Bool :=
  match s.toList with
  | [] => false
  | c :: cs => isIdentStart c && cs.all isIdentChar

theorem isIdentChar_of_isIdentStart {c : Char} (h : isIdentStart c = true) :
    isIdentChar c = true := by
  unfold isIdentStart at h
  unfold isIdentChar Char.isAlphanum
  rcases Bool.or_eq_true_iff.mp h with h | h <;> simp [h]

theorem all_of_identRe {s : String} (h : identRe s = true) : s.toList.all isIdentChar = true := by
  unfold identRe at h
  split at h
  · cases h
  next c cs hs =>
    obtain ⟨hc, hcs⟩ := Bool.and_eq_true_iff.mp h
    rw [hs, List.all_cons, isIdentChar_of_isIdentStart hc, hcs]
    rfl

/-- The first `n` bytes, ended at a character boundary. -/
def takeBytes : ℕ → List Char → List Char
  | _, [] => []
  | n, c :: cs => if c.utf8Size ≤ n then c :: takeBytes (n - c.utf8Size) cs else []

/-- Postgres keeps 63 bytes of a name. -/
def truncateName (s : String) : String := String.ofList (takeBytes 63 s.toList)

/-- A name as the catalog has it. -/
abbrev Name := List Char

/-- The name an unquoted identifier denotes: folded to lower case and cut to 63 bytes. -/
@[irreducible] def foldIdent (s : String) : Name := takeBytes 63 (s.toList.map Char.toLower)

/-- Identifiers are ASCII. -/
theorem utf8Size_of_isIdentChar {c : Char} (h : isIdentChar c = true) : c.utf8Size = 1 := by
  unfold isIdentChar Char.isAlphanum Char.isAlpha Char.isUpper Char.isLower Char.isDigit at h
  simp only [Bool.or_eq_true, Bool.and_eq_true, decide_eq_true_eq, beq_iff_eq,
    UInt32.le_iff_toNat_le] at h
  rw [Char.utf8Size_eq_one_iff, UInt32.le_iff_toNat_le]
  rcases h with h | rfl
  · simp at h ⊢
    omega
  · decide

theorem utf8Size_toLower {c : Char} (h : c.utf8Size = 1) : c.toLower.utf8Size = 1 := by
  rw [Char.utf8Size_eq_one_iff] at h ⊢
  unfold Char.toLower
  split_ifs with hc
  · have hle : c.val.toNat ≤ 90 := UInt32.le_iff_toNat_le.mp hc.2
    have h32 : ('a'.val - 'A'.val).toNat = 32 := by decide
    rw [UInt32.le_iff_toNat_le, UInt32.toNat_add, h32, Nat.mod_eq_of_lt (by omega)]
    show _ ≤ 127
    omega
  · exact h

/-- Where every character is a byte, bytes are characters. -/
theorem takeBytes_eq_take {l : List Char} (h : ∀ c ∈ l, c.utf8Size = 1) (n : ℕ) :
    takeBytes n l = l.take n := by
  induction l generalizing n with
  | nil => simp [takeBytes]
  | cons c l ih =>
    obtain ⟨hc, hl⟩ := List.forall_mem_cons.mp h
    cases n with
    | zero => simp [takeBytes, hc]
    | succ n => simp [takeBytes, hc, ih hl]

/-! ### Keywords -/

/-- Does `pat` occur in `s`? -/
def occurs (pat : List Char) : List Char → Bool
  | [] => pat.isEmpty
  | c :: cs => pat.isPrefixOf (c :: cs) || occurs pat cs

/-- `strings.Contains(strings.ToUpper(stmt), "CONCURRENTLY")`. No character outside ASCII has one of
these letters as its upper case. -/
def isConcurrentlyDDL (stmt : String) : Bool :=
  occurs "CONCURRENTLY".toList (stmt.toList.map Char.toUpper)

theorem occurs_iff {pat s : List Char} : occurs pat s = true ↔ pat <:+: s := by
  induction s with
  | nil => simp [occurs, List.isEmpty_iff]
  | cons c cs ih => rw [occurs, Bool.or_eq_true, List.isPrefixOf_iff_prefix, ih, List.infix_cons_iff]

/-- A statement with such a part is one. -/
theorem isConcurrentlyDDL_append {s : String} (h : isConcurrentlyDDL s = true) (t : String) :
    isConcurrentlyDDL (s ++ t) = true := by
  unfold isConcurrentlyDDL at h ⊢
  rw [occurs_iff] at h ⊢
  rw [String.toList_append, List.map_append]
  exact h.trans (List.prefix_append _ _).isInfix

/-! ### White space -/

/-- **A text without its white space.** -/
def compact (s : String) : List Char := s.toList.filter fun c => !c.isWhitespace

@[simp] theorem compact_append (s t : String) : compact (s ++ t) = compact s ++ compact t := by
  simp [compact]

theorem not_isWhitespace_of_isIdentChar {c : Char} (h : isIdentChar c = true) :
    c.isWhitespace = false := by
  rw [← Bool.not_eq_true]
  intro hw
  simp only [Char.isWhitespace, Bool.or_eq_true, decide_eq_true_eq] at hw
  rcases hw with ((rfl | rfl) | rfl) | rfl <;> revert h <;> decide

/-- An identifier has none. -/
theorem compact_of_identRe {s : String} (h : identRe s = true) : compact s = s.toList :=
  List.filter_eq_self.mpr fun c hc => by
    rw [not_isWhitespace_of_isIdentChar (List.all_eq_true.mp (all_of_identRe h) c hc)]
    rfl

/-- What stands before the first `=`. -/
def lhs (l : List Char) : List Char := l.takeWhile (· ≠ '=')

theorem ne_eq_of_identRe {s : String} (h : identRe s = true) : ∀ c ∈ s.toList, c ≠ '=' := by
  rintro c hc rfl
  exact absurd (List.all_eq_true.mp (all_of_identRe h) _ hc) (by decide)

theorem lhs_append {l : List Char} (h : ∀ c ∈ l, c ≠ '=') (l' : List Char) :
    lhs (l ++ l') = l ++ lhs l' :=
  List.takeWhile_append_of_pos fun c hc => decide_eq_true (h c hc)

@[simp] theorem lhs_eq_cons (l : List Char) : lhs ('=' :: l) = [] := by simp [lhs]

end MigrationSafety.Sql.Text
