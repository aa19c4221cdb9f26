import Mathlib.Data.Int.Log
import Mathlib.Data.Rat.Floor
import Mathlib.Tactic.Linarith
import Mathlib.Tactic.FieldSimp
import Mathlib.Tactic.Ring

/-! # Rounding to a 53-bit significand

`round q` is the rational `q` rounded to nearest, ties to even, with a significand of 53 bits: what a
binary64 operation returns for the exact result `q`, as long as the exponent stays in range. It is
monotone (`round_mono`), idempotent (`round_round`) and fixes the naturals below `2 ^ 53`
(`round_natCast`); the integers it fixes are those with at most 53 significant bits
(`round_eq_self_iff`). `Float64` is the type of its fixed points. -/

namespace MigrationSafety.Lib.Binary64

/-! ### Rounding to an integer -/

/-- The nearest integer, ties to even. -/
def nearest (x : ℚ) : ℤ :=
  if x - ⌊x⌋ < 1 / 2 then ⌊x⌋
  else if 1 / 2 < x - ⌊x⌋ then ⌊x⌋ + 1
  else if ⌊x⌋ % 2 = 0 then ⌊x⌋ else ⌊x⌋ + 1

theorem floor_le_nearest (x : ℚ) : ⌊x⌋ ≤ nearest x := by
  unfold nearest; split_ifs <;> omega

theorem nearest_le_floor (x : ℚ) : nearest x ≤ ⌊x⌋ + 1 := by
  unfold nearest; split_ifs <;> omega

theorem nearest_intCast (n : ℤ) : nearest (n : ℚ) = n := by
  unfold nearest; rw [Int.floor_intCast]; simp

theorem nearest_mono {x y : ℚ} (h : x ≤ y) : nearest x ≤ nearest y := by
  rcases (Int.floor_mono h).lt_or_eq with hlt | heq
  · have h1 := nearest_le_floor x
    have h2 := floor_le_nearest y
    omega
  · unfold nearest
    rw [heq]
    have hs : x - ⌊y⌋ ≤ y - ⌊y⌋ := by linarith
    split_ifs <;> first | omega | (exfalso; linarith)

theorem le_nearest {n : ℤ} {x : ℚ} (h : (n : ℚ) ≤ x) : n ≤ nearest x := by
  have := nearest_mono h
  rwa [nearest_intCast] at this

theorem nearest_le {n : ℤ} {x : ℚ} (h : x ≤ n) : nearest x ≤ n := by
  have := nearest_mono h
  rwa [nearest_intCast] at this

/-! ### Rounding to 53 bits -/

/-- The weight of the last significand bit of a number of the size of `q`. -/
def ulp (q : ℚ) : ℚ := (2 : ℚ) ^ (Int.log 2 q - 52)

/-- A positive number, rounded. -/
def roundPos (q : ℚ) : ℚ := nearest (q / ulp q) * ulp q

/-- **Rounding to binary64.** -/
def round (q : ℚ) : ℚ :=
  if 0 < q then roundPos q else if q < 0 then -roundPos (-q) else 0

theorem ulp_pos (q : ℚ) : 0 < ulp q := zpow_pos (by norm_num) _

theorem two_zpow_52 (e : ℤ) : (2 : ℚ) ^ e = (2 : ℤ) ^ 52 * (2 : ℚ) ^ (e - 52) := by
  rw [show e = 52 + (e - 52) by ring, zpow_add₀ (by norm_num)]
  norm_num

theorem two_zpow_53 (e : ℤ) : (2 : ℚ) ^ (e + 1) = (2 : ℤ) ^ 53 * (2 : ℚ) ^ (e - 52) := by
  rw [show e + 1 = 53 + (e - 52) by ring, zpow_add₀ (by norm_num)]
  norm_num

/-- A positive number does not fall below the power of two at its size. -/
theorem zpow_le_roundPos {q : ℚ} (hq : 0 < q) : (2 : ℚ) ^ Int.log 2 q ≤ roundPos q := by
  have hlog : ((2 : ℕ) : ℚ) ^ Int.log 2 q ≤ q := Int.zpow_log_le_self (by norm_num) hq
  have hu := ulp_pos q
  have h52 : (((2 : ℤ) ^ 52 : ℤ) : ℚ) ≤ q / ulp q := by
    rw [le_div_iff₀ hu]
    have := two_zpow_52 (Int.log 2 q)
    push_cast at hlog this ⊢
    unfold ulp
    linarith
  have hn : ((2 : ℤ) ^ 52) ≤ nearest (q / ulp q) := le_nearest h52
  unfold roundPos
  rw [two_zpow_52]
  have : (((2 : ℤ) ^ 52 : ℤ) : ℚ) ≤ (nearest (q / ulp q) : ℚ) := by exact_mod_cast hn
  push_cast at this ⊢
  exact mul_le_mul_of_nonneg_right this hu.le

/-- Nor does it rise above the next power of two. -/
theorem roundPos_le_zpow (q : ℚ) : roundPos q ≤ (2 : ℚ) ^ (Int.log 2 q + 1) := by
  have hlog : q < ((2 : ℕ) : ℚ) ^ (Int.log 2 q + 1) := Int.lt_zpow_succ_log_self (by norm_num) q
  have hu := ulp_pos q
  have h53 : q / ulp q ≤ (((2 : ℤ) ^ 53 : ℤ) : ℚ) := by
    rw [div_le_iff₀ hu]
    have := two_zpow_53 (Int.log 2 q)
    push_cast at hlog this ⊢
    unfold ulp
    linarith
  have hn : nearest (q / ulp q) ≤ (2 : ℤ) ^ 53 := nearest_le h53
  unfold roundPos
  rw [two_zpow_53]
  have : (nearest (q / ulp q) : ℚ) ≤ (((2 : ℤ) ^ 53 : ℤ) : ℚ) := by exact_mod_cast hn
  push_cast at this ⊢
  exact mul_le_mul_of_nonneg_right this hu.le

theorem roundPos_pos {q : ℚ} (hq : 0 < q) : 0 < roundPos q :=
  lt_of_lt_of_le (zpow_pos (by norm_num) _) (zpow_le_roundPos hq)

theorem roundPos_mono {x y : ℚ} (hx : 0 < x) (h : x ≤ y) : roundPos x ≤ roundPos y := by
  have hlog : Int.log 2 x ≤ Int.log 2 y := Int.log_mono_right hx h
  rcases hlog.lt_or_eq with hlt | heq
  · calc roundPos x ≤ (2 : ℚ) ^ (Int.log 2 x + 1) := roundPos_le_zpow x
      _ ≤ (2 : ℚ) ^ Int.log 2 y := zpow_le_zpow_right₀ (by norm_num) (by omega)
      _ ≤ roundPos y := zpow_le_roundPos (lt_of_lt_of_le hx h)
  · have hu : ulp x = ulp y := by unfold ulp; rw [heq]
    unfold roundPos
    rw [hu]
    have := nearest_mono (div_le_div_of_nonneg_right h (ulp_pos y).le)
    exact mul_le_mul_of_nonneg_right (by exact_mod_cast this) (ulp_pos y).le

@[simp] theorem round_zero : round 0 = 0 := by simp [round]

theorem round_nonneg {q : ℚ} (h : 0 ≤ q) : 0 ≤ round q := by
  rcases h.lt_or_eq with h | rfl
  · unfold round; rw [if_pos h]; exact (roundPos_pos h).le
  · simp

theorem round_nonpos {q : ℚ} (h : q ≤ 0) : round q ≤ 0 := by
  rcases h.lt_or_eq with h | rfl
  · unfold round
    rw [if_neg (by linarith), if_pos h]
    have := roundPos_pos (q := -q) (by linarith)
    linarith
  · simp

/-- **Rounding is monotone.** -/
theorem round_mono {x y : ℚ} (h : x ≤ y) : round x ≤ round y := by
  rcases lt_or_ge 0 x with hx | hx
  · have hy : 0 < y := lt_of_lt_of_le hx h
    unfold round
    rw [if_pos hx, if_pos hy]
    exact roundPos_mono hx h
  · rcases lt_or_ge y 0 with hy | hy
    · have hx' : x < 0 := lt_of_le_of_lt h hy
      unfold round
      rw [if_neg (not_lt.mpr hx), if_pos hx', if_neg (not_lt.mpr hy.le), if_pos hy]
      have := roundPos_mono (x := -y) (y := -x) (by linarith) (by linarith)
      linarith
    · exact (round_nonpos hx).trans (round_nonneg hy)

/-! ### Integers -/

theorem log_lt_of_lt {n : ℕ} (hn : 0 < n) (h : n < 2 ^ 53) : Int.log 2 (n : ℚ) ≤ 52 := by
  rw [Int.log_natCast]
  have : Nat.log 2 n < 53 := Nat.log_lt_of_lt_pow (by omega) h
  omega

/-- A positive integer below `2 ^ 53` is its own rounding. -/
theorem roundPos_natCast {n : ℕ} (hn : 0 < n) (h : n < 2 ^ 53) : roundPos (n : ℚ) = n := by
  have hlog := log_lt_of_lt hn h
  have hlog0 : 0 ≤ Int.log 2 (n : ℚ) := by rw [Int.log_natCast]; omega
  obtain ⟨k, hk⟩ : ∃ k : ℕ, (52 : ℤ) - Int.log 2 (n : ℚ) = k :=
    ⟨_, (Int.toNat_of_nonneg (by omega)).symm⟩
  have hu : (n : ℚ) / ulp n = ((n * 2 ^ k : ℤ) : ℚ) := by
    unfold ulp
    rw [show Int.log 2 (n : ℚ) - 52 = -(k : ℤ) by omega, zpow_neg, div_inv_eq_mul]
    push_cast
    rw [zpow_natCast]
  unfold roundPos
  rw [hu, nearest_intCast, ← hu, div_mul_cancel₀ _ (ulp_pos _).ne']

theorem round_natCast {n : ℕ} (h : n < 2 ^ 53) : round (n : ℚ) = n := by
  rcases Nat.eq_zero_or_pos n with rfl | hn
  · simp
  · unfold round
    rw [if_pos (by exact_mod_cast hn), roundPos_natCast hn h]

@[simp] theorem round_one : round 1 = 1 := by
  have := round_natCast (n := 1) (by norm_num)
  simpa using this

theorem round_le_one {q : ℚ} (h : q ≤ 1) : round q ≤ 1 := by
  have := round_mono h
  rwa [round_one] at this

theorem one_le_round {q : ℚ} (h : 1 ≤ q) : 1 ≤ round q := by
  have := round_mono h
  rwa [round_one] at this

/-! ### Rounding is idempotent -/


theorem log_eq_of_bounds {q : ℚ} {e : ℤ} (h1 : (2 : ℚ) ^ e ≤ q) (h2 : q < (2 : ℚ) ^ (e + 1)) :
    Int.log 2 q = e := by
  have hq : 0 < q := lt_of_lt_of_le (zpow_pos (by norm_num) _) h1
  apply le_antisymm
  · have := (Int.lt_zpow_iff_log_lt (b := 2) (by norm_num) hq (x := e + 1)).mp (by exact_mod_cast h2)
    omega
  · exact (Int.zpow_le_iff_le_log (b := 2) (by norm_num) hq).mp (by exact_mod_cast h1)

/-- A rounded number is its own rounding. -/
theorem roundPos_roundPos {q : ℚ} (hq : 0 < q) : roundPos (roundPos q) = roundPos q := by
  have hlo := zpow_le_roundPos hq
  rcases (roundPos_le_zpow q).lt_or_eq with hlt | heq
  · -- the binade is unchanged, and the quotient by its ulp is the integer already found
    have hu : ulp (roundPos q) = ulp q := by unfold ulp; rw [log_eq_of_bounds hlo hlt]
    have hd : roundPos q / ulp q = (nearest (q / ulp q) : ℚ) := by
      unfold roundPos; exact mul_div_cancel_right₀ _ (ulp_pos q).ne'
    calc roundPos (roundPos q) = nearest (roundPos q / ulp (roundPos q)) * ulp (roundPos q) := rfl
      _ = nearest (q / ulp q) * ulp q := by rw [hu, hd, nearest_intCast]
      _ = roundPos q := rfl
  · rw [heq]
    have hlog : Int.log 2 ((2 : ℚ) ^ (Int.log 2 q + 1)) = Int.log 2 q + 1 :=
      log_eq_of_bounds le_rfl (zpow_lt_zpow_right₀ (by norm_num) (by omega))
    have hd : (2 : ℚ) ^ (Int.log 2 q + 1) / ulp ((2 : ℚ) ^ (Int.log 2 q + 1)) =
        (((2 : ℤ) ^ 52 : ℤ) : ℚ) := by
      rw [div_eq_iff (ulp_pos _).ne']
      unfold ulp
      rw [hlog, two_zpow_52]
      push_cast
      ring
    unfold roundPos
    rw [hd, nearest_intCast, ← hd, div_mul_cancel₀ _ (ulp_pos _).ne']

theorem round_round (q : ℚ) : round (round q) = round q := by
  rcases lt_trichotomy q 0 with h | rfl | h
  · have hp := roundPos_pos (q := -q) (by linarith)
    have : round q = -roundPos (-q) := by unfold round; rw [if_neg (by linarith), if_pos h]
    rw [this]
    unfold round
    rw [if_neg (by linarith), if_pos (by linarith), neg_neg, roundPos_roundPos (by linarith)]
  · simp
  · have hp := roundPos_pos h
    have : round q = roundPos q := by unfold round; rw [if_pos h]
    rw [this]
    unfold round
    rw [if_pos hp, roundPos_roundPos h]

/-! ### Exact integers -/

theorem round_neg (q : ℚ) : round (-q) = -round q := by
  rcases lt_trichotomy q 0 with h | rfl | h
  · unfold round
    rw [if_pos (by linarith), if_neg (by linarith), if_pos h, neg_neg]
  · simp
  · unfold round
    rw [if_neg (by linarith), if_pos (by linarith), if_pos h, neg_neg]

theorem log_mul_two_pow {q : ℚ} (hq : 0 < q) (e : ℕ) : Int.log 2 (q * 2 ^ e) = Int.log 2 q + e := by
  have hlo : ((2 : ℕ) : ℚ) ^ Int.log 2 q ≤ q := Int.zpow_log_le_self (by norm_num) hq
  have hhi : q < ((2 : ℕ) : ℚ) ^ (Int.log 2 q + 1) := Int.lt_zpow_succ_log_self (by norm_num) q
  have hpos : (0 : ℚ) < 2 ^ e := by positivity
  push_cast at hlo hhi
  refine log_eq_of_bounds ?_ ?_
  · rw [zpow_add₀ (by norm_num), zpow_natCast]
    exact mul_le_mul_of_nonneg_right hlo hpos.le
  · rw [add_right_comm, zpow_add₀ (by norm_num), zpow_natCast]
    exact mul_lt_mul_of_pos_right hhi hpos

/-- Rounding does not depend on the exponent. -/
theorem roundPos_mul_two_pow {q : ℚ} (hq : 0 < q) (e : ℕ) :
    roundPos (q * 2 ^ e) = roundPos q * 2 ^ e := by
  have hu : ulp (q * 2 ^ e) = ulp q * 2 ^ e := by
    unfold ulp
    rw [log_mul_two_pow hq, add_sub_right_comm, zpow_add₀ (by norm_num), zpow_natCast]
  have hpos : (2 : ℚ) ^ e ≠ 0 := by positivity
  unfold roundPos
  rw [hu, mul_div_mul_right _ _ hpos]
  ring

theorem roundPos_of_le {m : ℕ} (hm : 0 < m) (h : m ≤ 2 ^ 53) : roundPos (m : ℚ) = m := by
  rcases h.lt_or_eq with h | rfl
  · exact roundPos_natCast hm h
  · have h1 : roundPos ((1 : ℕ) : ℚ) = (1 : ℕ) := roundPos_natCast one_pos (by norm_num)
    have h2 := roundPos_mul_two_pow (q := 1) one_pos 53
    rw [Nat.cast_one] at h1
    rw [h1, one_mul] at h2
    exact_mod_cast h2

/-- An integer with at most 53 significant bits. -/
def Exact (n : ℤ) : Prop := ∃ (m : ℤ) (e : ℕ), |m| ≤ 2 ^ 53 ∧ n = m * 2 ^ e

theorem exact_of_abs_le {n : ℤ} (h : |n| ≤ 2 ^ 53) : Exact n := ⟨n, 0, h, by ring⟩

theorem Exact.neg {n : ℤ} (h : Exact n) : Exact (-n) := by
  obtain ⟨m, e, hm, rfl⟩ := h
  exact ⟨-m, e, by rwa [abs_neg], by ring⟩

/-- A positive integer is rounded to an exact one. -/
theorem roundPos_int {n : ℕ} (hn : 0 < n) : ∃ k : ℤ, Exact k ∧ roundPos (n : ℚ) = k := by
  rcases Nat.lt_or_ge n (2 ^ 53) with hlt | hge
  · refine ⟨n, exact_of_abs_le ?_, by exact_mod_cast roundPos_natCast hn hlt⟩
    rw [abs_of_nonneg (by omega)]
    exact_mod_cast hlt.le
  · have hlog : 53 ≤ Nat.log 2 n := Nat.le_log_of_pow_le (by norm_num) hge
    obtain ⟨e, he⟩ : ∃ e, Nat.log 2 n = 52 + e := ⟨Nat.log 2 n - 52, by omega⟩
    have hu : ulp (n : ℚ) = 2 ^ e := by
      unfold ulp
      rw [Int.log_natCast, he, show ((52 + e : ℕ) : ℤ) - 52 = (e : ℕ) by omega, zpow_natCast]
    have hround : roundPos (n : ℚ) = ((nearest (n / 2 ^ e) * 2 ^ e : ℤ) : ℚ) := by
      unfold roundPos
      rw [hu]
      push_cast
      rfl
    refine ⟨_, ⟨nearest (n / 2 ^ e), e, ?_, rfl⟩, hround⟩
    have hle : (n : ℚ) / 2 ^ e ≤ ((2 ^ 53 : ℤ) : ℚ) := by
      rw [div_le_iff₀ (by positivity)]
      have hsucc : n < 2 ^ (Nat.log 2 n + 1) := Nat.lt_pow_succ_log_self (by norm_num) n
      rw [he, show 52 + e + 1 = 53 + e by omega, pow_add] at hsucc
      exact_mod_cast hsucc.le
    have hnonneg : (0 : ℤ) ≤ nearest ((n : ℚ) / 2 ^ e) := le_nearest (by push_cast; positivity)
    rw [abs_of_nonneg hnonneg]
    exact nearest_le hle

/-- An exact positive integer is its own rounding. -/
theorem roundPos_exact {m : ℕ} (hm : 0 < m) (h : m ≤ 2 ^ 53) (e : ℕ) :
    roundPos ((m : ℚ) * 2 ^ e) = m * 2 ^ e := by
  rw [roundPos_mul_two_pow (by exact_mod_cast hm), roundPos_of_le hm h]

theorem round_of_pos {q : ℚ} (h : 0 < q) : round q = roundPos q := if_pos h

theorem round_int (n : ℤ) : ∃ k : ℤ, Exact k ∧ round (n : ℚ) = k := by
  -- a negative number follows by symmetry
  have hpos : ∀ m : ℤ, 0 < m → ∃ k : ℤ, Exact k ∧ round (m : ℚ) = k := by
    intro m hm
    obtain ⟨k, hk, hround⟩ := roundPos_int (n := m.natAbs) (by omega)
    have habs : (m : ℚ) = (m.natAbs : ℚ) := by rw [Nat.cast_natAbs, abs_of_pos hm]
    exact ⟨k, hk, by rw [round_of_pos (by exact_mod_cast hm), habs, hround]⟩
  rcases lt_trichotomy n 0 with h | rfl | h
  · obtain ⟨k, hk, hround⟩ := hpos (-n) (by omega)
    refine ⟨-k, hk.neg, ?_⟩
    rw [Int.cast_neg, round_neg] at hround
    rw [Int.cast_neg, ← hround, neg_neg]
  · exact ⟨0, exact_of_abs_le (by norm_num), by simp⟩
  · exact hpos n h

theorem round_of_exact {n : ℤ} (h : Exact n) : round (n : ℚ) = n := by
  have hpos : ∀ (m : ℤ) (e : ℕ), 0 < m → |m| ≤ 2 ^ 53 →
      round ((m * 2 ^ e : ℤ) : ℚ) = (m * 2 ^ e : ℤ) := by
    intro m e hm hle
    have habs : (m.natAbs : ℚ) = (m : ℚ) := by rw [Nat.cast_natAbs, abs_of_pos hm]
    rw [abs_of_pos hm] at hle
    have hround := roundPos_exact (m := m.natAbs) (by omega) (by omega) e
    rw [habs] at hround
    push_cast
    rw [round_of_pos (by positivity), hround]
  obtain ⟨m, e, hm, rfl⟩ := h
  rcases lt_trichotomy m 0 with hneg | rfl | hm'
  · have hround := hpos (-m) e (by omega) (by rwa [abs_neg])
    rwa [neg_mul, Int.cast_neg, round_neg, neg_inj] at hround
  · simp
  · exact hpos m e hm' hm

/-- **The integers that rounding keeps.** -/
theorem round_eq_self_iff {n : ℤ} : round (n : ℚ) = n ↔ Exact n := by
  constructor
  · intro h
    obtain ⟨k, hk, hround⟩ := round_int n
    rw [h] at hround
    rwa [show n = k by exact_mod_cast hround]
  · exact round_of_exact

/-- Only a small number rounds to a small one. -/
theorem eq_of_round {m n : ℤ} (hn : |n| < 2 ^ 53) (h : round (m : ℚ) = n) : m = n := by
  have hbig : round (((2 : ℤ) ^ 53 : ℤ) : ℚ) = ((2 : ℤ) ^ 53 : ℤ) :=
    round_of_exact (exact_of_abs_le (by norm_num))
  have hneg : round ((-(2 : ℤ) ^ 53 : ℤ) : ℚ) = (-(2 : ℤ) ^ 53 : ℤ) :=
    round_of_exact (exact_of_abs_le (by norm_num))
  obtain ⟨hlow, hhigh⟩ := abs_lt.mp hn
  have hm : |m| ≤ 2 ^ 53 := by
    refine abs_le.mpr ⟨?_, ?_⟩
    · by_contra hc
      have hmono := round_mono (x := (m : ℚ)) (y := ((-(2 : ℤ) ^ 53 : ℤ) : ℚ)) (by
        exact_mod_cast (not_le.mp hc).le)
      rw [h, hneg] at hmono
      have : n ≤ -(2 : ℤ) ^ 53 := by exact_mod_cast hmono
      omega
    · by_contra hc
      have hmono := round_mono (x := (((2 : ℤ) ^ 53 : ℤ) : ℚ)) (y := (m : ℚ)) (by
        exact_mod_cast (not_le.mp hc).le)
      rw [h, hbig] at hmono
      have : (2 : ℤ) ^ 53 ≤ n := by exact_mod_cast hmono
      omega
  rw [round_of_exact (exact_of_abs_le hm)] at h
  exact_mod_cast h

/-! ### The numbers themselves -/

/-- A binary64 number, by its value. -/
def Float64 : Type := {q : ℚ // round q = q}

namespace Float64

instance : DecidableEq Float64 := inferInstanceAs (DecidableEq {q : ℚ // round q = q})

/-- The exact value. -/
def val (x : Float64) : ℚ := x.1

/-- The number nearest to `q`: how a literal is read, and what an operation returns. -/
def ofRat (q : ℚ) : Float64 := ⟨round q, round_round q⟩

def ofInt (n : ℤ) : Float64 := ofRat n

/-- The product, rounded. -/
def mul (x y : Float64) : Float64 := ofRat (x.val * y.val)

def add (x y : Float64) : Float64 := ofRat (x.val + y.val)

def div (x y : Float64) : Float64 := ofRat (x.val / y.val)

@[simp] theorem round_val (x : Float64) : round x.val = x.val := x.2

@[simp] theorem val_ofRat (q : ℚ) : (ofRat q).val = round q := rfl

/-- What is at most a number stays so when it is rounded. -/
theorem val_ofRat_le {q : ℚ} {x : Float64} (h : q ≤ x.val) : (ofRat q).val ≤ x.val := by
  have := round_mono h
  rwa [round_val] at this

theorem le_val_ofRat {q : ℚ} {x : Float64} (h : x.val ≤ q) : x.val ≤ (ofRat q).val := by
  have := round_mono h
  rwa [round_val] at this

/-- Doubling a positive number is exact. -/
theorem val_mul_two {x : Float64} (h : 0 < x.val) : (x.mul (ofInt 2)).val = x.val * 2 := by
  have htwo : (ofInt 2).val = 2 := by
    have := round_natCast (n := 2) (by norm_num)
    exact_mod_cast this
  have hdouble := roundPos_mul_two_pow h 1
  have hx : roundPos x.val = x.val := by rw [← round_of_pos h, round_val]
  rw [pow_one, hx] at hdouble
  show round (x.val * (ofInt 2).val) = _
  rw [htwo, round_of_pos (by linarith), hdouble]

/-- `2 * x + 1` is above a positive `x`, however large. -/
theorem lt_double_add_one {x : Float64} (h : 0 < x.val) :
    x.val < ((x.mul (ofInt 2)).add (ofInt 1)).val := by
  have hle : (x.mul (ofInt 2)).val ≤ ((x.mul (ofInt 2)).add (ofInt 1)).val :=
    le_val_ofRat (le_add_of_nonneg_right (round_nonneg (by norm_num)))
  rw [val_mul_two h] at hle
  linarith

/-- A fraction of a positive number is no larger. -/
theorem val_mul_le {x : Float64} (h : 0 < x.val) {q : ℚ} (hq : q ≤ 1) :
    (x.mul (ofRat q)).val ≤ x.val :=
  val_ofRat_le (mul_le_of_le_one_right h.le (round_le_one hq))

end Float64

end MigrationSafety.Lib.Binary64
