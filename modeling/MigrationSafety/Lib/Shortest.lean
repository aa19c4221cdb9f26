import MigrationSafety.Lib.Binary64
import MigrationSafety.Lib.Decimal
import Mathlib.Data.Nat.Prime.Basic

/-! # Shortest decimals

A binary64 number is written with the fewest significant digits that are read back as that number, in
the usual notation, or with an exponent where it is very small or very large. There are such digits,
since the number has a finite decimal expansion (`roundsBack_exactDigits`); `ofRat_formatFloat` is the
round trip. As in `Binary64` the exponent is not bounded: of subnormal numbers more digits are
written than binary64 needs. -/

namespace MigrationSafety.Lib.Shortest

open MigrationSafety.Lib.Binary64 MigrationSafety.Lib.Decimal

/-- The weight of the last of `n` significant digits, as a power of ten. -/
def lastPlace (q : ℚ) (n : ℕ) : ℤ := Int.log 10 q + 1 - n

/-- `q`, rounded to `n` significant digits. -/
def digits (q : ℚ) (n : ℕ) : ℕ := (nearest (q * 10 ^ (-lastPlace q n))).toNat

/-- The `n` digits of `q` are read back as `q`. -/
def RoundsBack (q : ℚ) (n : ℕ) : Prop := Binary64.round (digits q n * 10 ^ lastPlace q n) = q

instance (q : ℚ) : DecidablePred (RoundsBack q) := fun n =>
  inferInstanceAs (Decidable (Binary64.round (digits q n * 10 ^ lastPlace q n) = q))

/-! ### Finite expansions -/

/-- A binary64 number is a dyadic fraction. -/
theorem exists_dyadic {q : ℚ} (hq : 0 < q) (h : Binary64.round q = q) :
    ∃ (a : ℤ) (k : ℕ), q = a / 2 ^ k := by
  refine ⟨nearest (q / ulp q) * 2 ^ (Int.log 2 q - 52).toNat, (-(Int.log 2 q - 52)).toNat, ?_⟩
  conv_lhs => rw [← h, round_of_pos hq]
  unfold roundPos ulp
  rw [← zpow_split (by norm_num) (Int.log 2 q - 52), zpow_neg, zpow_natCast]
  push_cast
  ring

/-- The denominator is a power of two. -/
theorem den_eq {q : ℚ} (hq : 0 < q) (h : Binary64.round q = q) : q.den = 2 ^ Nat.log 2 q.den := by
  obtain ⟨a, k, hak⟩ := exists_dyadic hq h
  have hdvd : q.den ∣ 2 ^ k := by
    have hdiv := Rat.den_dvd a (2 ^ k : ℤ)
    rw [Rat.divInt_eq_div] at hdiv
    push_cast at hdiv
    rw [← hak] at hdiv
    exact_mod_cast hdiv
  obtain ⟨j, -, hj⟩ := (Nat.dvd_prime_pow Nat.prime_two).mp hdvd
  rw [hj, Nat.log_pow (by decide)]

/-- The number of digits of the whole expansion. -/
def exactDigits (q : ℚ) : ℕ := (Int.log 10 q + 1 + Nat.log 2 q.den).toNat

/-- **The whole expansion is exact.** -/
theorem roundsBack_exactDigits {q : ℚ} (hq : 0 ≤ q) (h : Binary64.round q = q) :
    RoundsBack q (exactDigits q) := by
  rcases hq.eq_or_lt with rfl | hq
  · simp [RoundsBack, digits, nearest]
  have hden := den_eq hq h
  obtain ⟨N, hN⟩ := Int.eq_ofNat_of_zero_le (Rat.num_pos.mpr hq).le
  generalize hk : Nat.log 2 q.den = k at hden
  have hval : q = N / 2 ^ k := by
    conv_lhs => rw [← Rat.num_div_den q, hN, hden]
    push_cast
    rfl
  have hlog : -(k : ℤ) ≤ Int.log 10 q := by
    refine (Int.zpow_le_iff_le_log (by decide) hq).mp ?_
    have hone : (1 : ℚ) ≤ N := by
      have := Rat.num_pos.mpr hq
      rw [hN] at this
      exact_mod_cast this
    have hpow : (2 : ℚ) ^ k ≤ 10 ^ k := pow_le_pow_left₀ (by norm_num) (by norm_num) k
    rw [hval, zpow_neg, zpow_natCast, Nat.cast_ofNat, ← one_div]
    exact div_le_div₀ (by linarith) hone (by positivity) hpow
  have hlast : lastPlace q (exactDigits q) = -k := by
    unfold lastPlace exactDigits
    omega
  have hexact : q * 10 ^ (k : ℤ) = (N * 5 ^ k : ℕ) := by
    conv_lhs => rw [hval]
    rw [zpow_natCast]
    push_cast
    rw [show (10 : ℚ) = 2 * 5 by norm_num, mul_pow]
    field_simp
  have hdigits : digits q (exactDigits q) = N * 5 ^ k := by
    unfold digits
    rw [hlast, neg_neg, hexact]
    exact congrArg Int.toNat (nearest_intCast _)
  unfold RoundsBack
  rw [hdigits, hlast, ← hexact, zpow_neg, mul_inv_cancel_right₀ (zpow_ne_zero _ (by norm_num)), h]

/-- The first number of digits from `n` on that is enough. -/
def search (q : ℚ) : ℕ → ℕ → ℕ
  | 0, n => n
  | fuel + 1, n => if RoundsBack q n then n else search q fuel (n + 1)

theorem search_le (q : ℚ) (fuel n : ℕ) : search q fuel n ≤ n + fuel := by
  induction fuel generalizing n with
  | zero => exact le_rfl
  | succ fuel ih =>
    rw [search]
    split_ifs
    · omega
    · have := ih (n + 1)
      omega

theorem roundsBack_search {q : ℚ} {fuel n : ℕ} (h : RoundsBack q (n + fuel)) :
    RoundsBack q (search q fuel n) := by
  induction fuel generalizing n with
  | zero => exact h
  | succ fuel ih =>
    rw [search]
    split_ifs with hn
    · exact hn
    · exact ih (by rwa [Nat.add_assoc, Nat.add_comm 1])

/-! ### Floats -/

theorem round_abs_val (x : Float64) : Binary64.round |x.val| = |x.val| := by
  rcases abs_choice x.val with h | h
  · rw [h, Float64.round_val]
  · rw [h, round_neg, Float64.round_val]

/-- The fewest digits that are read back as the number. -/
def shortest (x : Float64) : ℕ := search |x.val| (exactDigits |x.val|) 0

theorem roundsBack_shortest (x : Float64) : RoundsBack |x.val| (shortest x) := by
  refine roundsBack_search ?_
  rw [Nat.zero_add]
  exact roundsBack_exactDigits (abs_nonneg x.val) (round_abs_val x)

/-- The shortest digits with their exponent. -/
def shortestLiteral (x : Float64) : Literal where
  neg := x.val < 0
  mantissa := digits |x.val| (shortest x)
  exp := some (lastPlace |x.val| (shortest x))

/-- One digit before the point. -/
def scientific (l : Literal) : Literal :=
  let places := (Nat.toDigits 10 l.mantissa).length - 1
  { l with
    scale := places
    exp := some (l.exp.getD 0 - l.scale + places) }

/-- **A number, as it is written**: with an exponent below `10 ^ -6` and from `10 ^ 21` on. -/
def formatFloat (x : Float64) : Literal :=
  if x.val ≠ 0 ∧ (|x.val| < 1 / 10 ^ 6 ∨ 10 ^ 21 ≤ |x.val|) then scientific (shortestLiteral x)
  else (shortestLiteral x).plain

theorem value_scientific (l : Literal) : (scientific l).value = l.value := by
  unfold scientific Literal.value
  simp

theorem value_formatFloat (x : Float64) : (formatFloat x).value = (shortestLiteral x).value := by
  unfold formatFloat
  split_ifs
  · exact value_scientific _
  · exact value_plain _

/-- The shortest digits are read back. -/
theorem ofRat_shortestLiteral (x : Float64) : Float64.ofRat (shortestLiteral x).value = x := by
  have hfind := roundsBack_shortest x
  unfold RoundsBack at hfind
  refine Subtype.ext ?_
  show Binary64.round (shortestLiteral x).value = x.val
  unfold Literal.value shortestLiteral
  simp only [decide_eq_true_eq, Option.getD_some, Nat.cast_zero, sub_zero]
  split_ifs with hneg
  · rw [neg_one_mul, round_neg, hfind, abs_of_neg hneg, neg_neg]
  · rw [one_mul, hfind, abs_of_nonneg (not_lt.mp hneg)]

/-- **What is written is read back.** -/
theorem ofRat_formatFloat (x : Float64) : Float64.ofRat (formatFloat x).value = x := by
  rw [value_formatFloat, ofRat_shortestLiteral]

/-- The default parity threshold. -/
example : formatFloat (Float64.ofRat (999 / 1000)) = { mantissa := 999, scale := 3 } := by
  decide +kernel

/-! ### Whole numbers -/

/-- The digits of a whole number end before the point. -/
theorem lastPlace_whole {x : Float64} {n : ℤ} (hx : x.val = n) (h : n ≠ 0) :
    0 ≤ lastPlace |x.val| (shortest x) := by
  have hle : shortest x ≤ exactDigits |x.val| := by
    have := search_le |x.val| (exactDigits |x.val|) 0
    rwa [Nat.zero_add] at this
  have hden : |x.val|.den = 1 := by
    rw [hx, ← Int.cast_abs, Rat.den_intCast]
  have hone : (1 : ℚ) ≤ |x.val| := by
    rw [hx, ← Int.cast_abs]
    exact_mod_cast Int.one_le_abs h
  have hlog : 0 ≤ Int.log 10 |x.val| :=
    (Int.zpow_le_iff_le_log (by decide) (by linarith)).mp (by simpa using hone)
  unfold exactDigits at hle
  rw [hden] at hle
  unfold lastPlace
  simp at hle
  omega

theorem formatFloat_whole {x : Float64} {n : ℤ} (hx : x.val = n) (h : |n| < 10 ^ 21) :
    (formatFloat x).scale = 0 ∧ (formatFloat x).exp = none := by
  have hplain : formatFloat x = (shortestLiteral x).plain := by
    refine if_neg fun hc => ?_
    obtain ⟨hne, hsmall | hbig⟩ := hc
    · have hn : n ≠ 0 := by
        rintro rfl
        exact hne hx
      have hone : (1 : ℚ) ≤ |x.val| := by
        rw [hx, ← Int.cast_abs]
        exact_mod_cast Int.one_le_abs hn
      have : (1 : ℚ) / 10 ^ 6 ≤ 1 := by norm_num
      linarith
    · rw [hx, ← Int.cast_abs] at hbig
      have : (10 : ℤ) ^ 21 ≤ |n| := by exact_mod_cast hbig
      omega
  rw [hplain]
  refine ⟨?_, rfl⟩
  by_cases hn : n = 0
  · subst hn
    have hz : x = .ofInt 0 := Subtype.ext (hx.trans (by simp [Float64.ofInt, Float64.ofRat]))
    subst hz
    decide +kernel
  · have := lastPlace_whole hx hn
    simp only [Decimal.Literal.plain, shortestLiteral, Option.getD_some]
    omega

end MigrationSafety.Lib.Shortest
