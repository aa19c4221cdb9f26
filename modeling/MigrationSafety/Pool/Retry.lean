import Mathlib.Algebra.Order.Ring.Int
import Mathlib.Tactic.Positivity
import MigrationSafety.Lib.Words

/-! # Retries

`ExecuteWithRetry` calls its function again after a delay that doubles with every attempt, up to a greatest
delay. Durations are nanoseconds in 64 bits, and so is the product of the first delay and a power of two:
from some attempt on it overflows, and what it wraps to is compared with the greatest delay only.

* `toInt_delay`: the delay as long as the product does not overflow.
* `delay_neg`: the first product that does is negative.
* `bounded_iff`: when the delays are bounded and do not decrease. -/

namespace MigrationSafety.Pool.Retry

open MigrationSafety.Lib.Words

/-- The retry settings. -/
structure Config where
  MaxRetries : Int64
  RetryDelay : Int64
  MaxRetryDelay : Int64

def DefaultConfig : Config where
  MaxRetries := 3
  RetryDelay := 100000000
  MaxRetryDelay := 5000000000

/-- `1 << s` for a shift that is not negative. -/
def oneShl (s : Int64) : Int64 := if s < 64 then 1 <<< s else 0

/-- The delay before an attempt other than the first. -/
def delay (config : Config) (attempt : Int64) : Int64 :=
  let d := config.RetryDelay * oneShl (attempt - 1)
  if d > config.MaxRetryDelay then config.MaxRetryDelay else d

/-- What happens at the `k`-th call of the function: its error, and that of the context, if it is done while
the call is waited for. -/
structure Env where
  fn : ℕ → Option String
  done : ℕ → Option String

structure Outcome where
  delays : List Int64
  calls : ℕ
  err : Option String

/-- The delays of an attempt. -/
def waits (config : Config) (attempt : Int64) : List Int64 :=
  if attempt > 0 then [delay config attempt] else []

/-- **The loop** after `k` calls, with fuel. -/
def loop (config : Config) (env : Env) : ℕ → ℕ → Int64 → Option String → Option Outcome
  | 0, _, _, _ => none
  | fuel + 1, k, attempt, lastErr =>
    if attempt ≤ config.MaxRetries then
      match if attempt > 0 then env.done k else none with
      | some err => some ⟨waits config attempt, k, some err⟩
      | none =>
        match env.fn k with
        | none => some ⟨waits config attempt, k + 1, none⟩
        | some err =>
          (loop config env fuel (k + 1) (attempt + 1) (some err)).map fun out =>
            { out with delays := waits config attempt ++ out.delays }
    else
      some ⟨[], k, some ("operation failed after " ++ toString (config.MaxRetries + 1) ++ " attempts: " ++
        lastErr.getD "%!w(<nil>)")⟩

def ExecuteWithRetry (config : Config) (env : Env) (fuel : ℕ) : Option Outcome :=
  loop config env fuel 0 0 none

/-- **The retries are bounded**: the call returns, after at most one call more than there are retries, of
which all but the last have failed; its error is nil if and only if some call succeeds, and the delays do not
decrease and are between the first and the greatest. -/
def Bounded (config : Config) (env : Env) : Prop :=
  ∃ fuel out, ExecuteWithRetry config env fuel = some out ∧
    out.calls ≤ config.MaxRetries.toInt + 1 ∧ (∀ j, j + 1 < out.calls → env.fn j ≠ none) ∧
    (out.err = none ↔ ∃ j < out.calls, env.fn j = none) ∧
    out.delays.Pairwise (fun d d' => d.toInt ≤ d'.toInt) ∧
    ∀ d ∈ out.delays, config.RetryDelay.toInt ≤ d.toInt ∧ d.toInt ≤ config.MaxRetryDelay.toInt

variable {config : Config} {env : Env} {fuel k : ℕ} {attempt : Int64} {lastErr : Option String}

/-! ### The delays -/

theorem toInt_oneShl {s : ℕ} (hs : s < 64) : (oneShl (Int64.ofNat s)).toInt = (2 ^ s : ℤ).bmod (2 ^ 64) := by
  revert s
  decide +kernel

/-- The product, whatever it wraps to. -/
theorem toInt_product {a : ℕ} (ha : 1 ≤ a) (ha' : a ≤ 64) :
    (config.RetryDelay * oneShl (Int64.ofNat a - 1)).toInt =
      (config.RetryDelay.toInt * 2 ^ (a - 1)).bmod (2 ^ 64) := by
  have hpred : Int64.ofNat a - 1 = Int64.ofNat (a - 1) := by
    obtain ⟨b, rfl⟩ : ∃ b, a = b + 1 := ⟨a - 1, by omega⟩
    rw [Int64.ofNat_add]
    exact Int64.add_sub_cancel _ _
  rw [hpred, Int64.toInt_mul, toInt_oneShl (by omega), Int.mul_bmod_bmod]

/-- What the delay is meant to be. -/
def meant (config : Config) (a : ℕ) : ℤ :=
  min (config.RetryDelay.toInt * 2 ^ (a - 1)) config.MaxRetryDelay.toInt

theorem meant_mono (hR : 0 < config.RetryDelay.toInt) {a b : ℕ} (h : a ≤ b) :
    meant config a ≤ meant config b := by
  refine min_le_min_right _ (mul_le_mul_of_nonneg_left ?_ hR.le)
  exact pow_le_pow_right₀ (by decide) (by omega)

theorem le_meant (hMax : config.RetryDelay.toInt ≤ config.MaxRetryDelay.toInt)
    (hR : 0 < config.RetryDelay.toInt) (a : ℕ) : config.RetryDelay.toInt ≤ meant config a :=
  le_min (le_mul_of_one_le_right hR.le (one_le_pow₀ (by decide))) hMax

/-- A shift by 64 is too much for every delay. -/
theorem lt_of_product_lt (hR : 0 < config.RetryDelay.toInt) {s : ℕ}
    (h : config.RetryDelay.toInt * 2 ^ s < 2 ^ 63) : s < 63 := by
  by_contra hs
  have hpow : (2 : ℤ) ^ 63 ≤ 2 ^ s := pow_le_pow_right₀ (by decide) (by omega)
  have hle : (2 : ℤ) ^ s ≤ config.RetryDelay.toInt * 2 ^ s := le_mul_of_one_le_left (by positivity) hR
  omega

/-- **The delay**, as long as the product does not overflow. -/
theorem toInt_delay (hR : 0 < config.RetryDelay.toInt) {a : ℕ} (ha : 1 ≤ a)
    (hlt : config.RetryDelay.toInt * 2 ^ (a - 1) < 2 ^ 63) :
    (delay config (Int64.ofNat a)).toInt = meant config a := by
  have hs := lt_of_product_lt hR hlt
  have hprod := @toInt_product config a ha (by omega)
  rw [Int.bmod_eq_of_le (by have := mul_nonneg hR.le (pow_nonneg (by decide : (0 : ℤ) ≤ 2) (a - 1)); omega)
    (by omega)] at hprod
  unfold delay meant
  dsimp only
  split_ifs with h
  · rw [gt_iff_lt, Int64.lt_iff_toInt_lt, hprod] at h
    exact (min_eq_right h.le).symm
  · rw [gt_iff_lt, Int64.lt_iff_toInt_lt, hprod] at h
    rw [hprod, min_eq_left (not_lt.mp h)]

/-- **The first product that overflows is negative**, and so is the delay. -/
theorem delay_neg (hR : 0 < config.RetryDelay.toInt)
    (hMax : config.RetryDelay.toInt ≤ config.MaxRetryDelay.toInt) {s : ℕ}
    (hlt : config.RetryDelay.toInt * 2 ^ s < 2 ^ 63)
    (hge : 2 ^ 63 ≤ config.RetryDelay.toInt * 2 ^ (s + 1)) :
    (delay config (Int64.ofNat (s + 2))).toInt < 0 := by
  have hs := lt_of_product_lt hR hlt
  have hprod := @toInt_product config (s + 2) (by omega) (by omega)
  have hdouble : config.RetryDelay.toInt * 2 ^ (s + 1) = 2 * (config.RetryDelay.toInt * 2 ^ s) := by
    rw [pow_succ, ← mul_assoc, mul_comm]
  rw [show s + 2 - 1 = s + 1 by omega, ← Int.sub_bmod_right, Int.bmod_eq_of_le (by omega) (by omega)] at hprod
  unfold delay
  dsimp only
  split_ifs with h
  · rw [gt_iff_lt, Int64.lt_iff_toInt_lt, hprod] at h
    omega
  · omega

/-! ### The loop -/

theorem ofNat_succ (k : ℕ) : Int64.ofNat k + 1 = Int64.ofNat (k + 1) := (Int64.ofNat_add k 1).symm

theorem ofNat_le_maxRetries {k : ℕ} (hk : (k : ℤ) < 2 ^ 63) :
    Int64.ofNat k ≤ config.MaxRetries ↔ (k : ℤ) ≤ config.MaxRetries.toInt := by
  rw [Int64.le_iff_toInt_le, Int64.toInt_ofNat_of_lt (by omega)]

theorem waits_ofNat {k : ℕ} (hk : (k : ℤ) < 2 ^ 63) :
    waits config (Int64.ofNat k) = if 1 ≤ k then [delay config (Int64.ofNat k)] else [] := by
  have hiff : Int64.ofNat k > 0 ↔ 1 ≤ k := by
    rw [gt_iff_lt, Int64.lt_iff_toInt_lt, Int64.toInt_ofNat_of_lt (by omega), Int64.toInt_zero]
    omega
  unfold waits
  simp only [hiff]

section Loop
variable (hquiet : ∀ k, env.done k = none)
include hquiet

theorem loop_succeeds (hle : attempt ≤ config.MaxRetries) (hfn : env.fn k = none) :
    loop config env (fuel + 1) k attempt lastErr = some ⟨waits config attempt, k + 1, none⟩ := by
  rw [loop, if_pos hle, hquiet, ite_self]
  dsimp only
  rw [hfn]

theorem loop_fails {err : String} (hle : attempt ≤ config.MaxRetries) (hfn : env.fn k = some err) :
    loop config env (fuel + 1) k attempt lastErr =
      (loop config env fuel (k + 1) (attempt + 1) (some err)).map fun out =>
        { out with delays := waits config attempt ++ out.delays } := by
  rw [loop, if_pos hle, hquiet, ite_self]
  dsimp only
  rw [hfn]

end Loop

theorem loop_exhausted (hle : ¬attempt ≤ config.MaxRetries) :
    loop config env (fuel + 1) k attempt lastErr =
      some ⟨[], k, some ("operation failed after " ++ toString (config.MaxRetries + 1) ++ " attempts: " ++
        lastErr.getD "%!w(<nil>)")⟩ := if_neg hle

/-- The delay of a retry whose product does not overflow, if there is one. -/
theorem mem_waits (hR : 0 < config.RetryDelay.toInt) {k : ℕ} (hk : (k : ℤ) < 2 ^ 63)
    (hlt : 1 ≤ k → config.RetryDelay.toInt * 2 ^ (k - 1) < 2 ^ 63) :
    ∀ d ∈ waits config (Int64.ofNat k), d.toInt = meant config k := by
  intro d hd
  rw [waits_ofNat hk] at hd
  split_ifs at hd with hone
  · rw [List.mem_singleton.mp hd, toInt_delay hR hone (hlt hone)]
  · cases hd

/-- **The loop after `k` failed calls**, by induction on the calls that are left, if no product overflows. -/
theorem loop_bounded (hquiet : ∀ k, env.done k = none) (hR : 0 < config.RetryDelay.toInt)
    (hfits : ∀ a : ℕ, 1 ≤ a → (a : ℤ) ≤ config.MaxRetries.toInt → (∀ j < a, env.fn j ≠ none) →
      config.RetryDelay.toInt * 2 ^ (a - 1) < 2 ^ 63)
    (left k : ℕ) (hleft : (k : ℤ) + left = config.MaxRetries.toInt + 1)
    (hfailed : ∀ j < k, env.fn j ≠ none) (lastErr : Option String) :
    ∃ out, loop config env (left + 1) k (Int64.ofNat k) lastErr = some out ∧
      out.calls ≤ config.MaxRetries.toInt + 1 ∧ (∀ j, j + 1 < out.calls → env.fn j ≠ none) ∧
      (out.err = none ↔ ∃ j < out.calls, env.fn j = none) ∧
      out.delays.Pairwise (fun d d' => d.toInt ≤ d'.toInt) ∧
      ∀ d ∈ out.delays, meant config k ≤ d.toInt ∧ d.toInt ≤ config.MaxRetryDelay.toInt := by
  have hbound := config.MaxRetries.toInt_lt
  induction left generalizing k lastErr with
  | zero =>
    -- every retry has been made; that there is room for one more is due to the last of them
    have hk : (k : ℤ) < 2 ^ 63 := by
      rcases Nat.lt_or_ge k 2 with hk | hk
      · omega
      · have hlast := hfits (k - 1) (by omega) (by omega) fun j hj => hfailed j (by omega)
        have := lt_of_product_lt hR hlast
        omega
    refine ⟨_, loop_exhausted fun hle => ?_, ?_, ?_, ?_, List.Pairwise.nil, List.forall_mem_nil _⟩
    · rw [ofNat_le_maxRetries hk] at hle
      omega
    · dsimp only
      omega
    · exact fun j hj => hfailed j (by dsimp only at hj; omega)
    · exact iff_of_false (fun h => by cases h) fun ⟨j, hj, hnone⟩ => hfailed j hj hnone
  | succ left ih =>
    have hk : (k : ℤ) < 2 ^ 63 := by omega
    have hle : Int64.ofNat k ≤ config.MaxRetries := (ofNat_le_maxRetries hk).mpr (by omega)
    have hwaits := mem_waits hR hk fun hone => hfits k hone (by omega) hfailed
    have hcap : meant config k ≤ config.MaxRetryDelay.toInt := min_le_right _ _
    cases hfn : env.fn k with
    | none =>
      refine ⟨_, loop_succeeds hquiet hle hfn, ?_, ?_, ?_, ?_, ?_⟩
      · dsimp only
        omega
      · exact fun j hj => hfailed j (by dsimp only at hj; omega)
      · exact iff_of_true rfl ⟨k, Nat.lt_succ_self k, hfn⟩
      · dsimp only
        rw [waits_ofNat hk]
        split_ifs
        · exact List.pairwise_singleton _ _
        · exact List.Pairwise.nil
      · intro d hd
        rw [hwaits d hd]
        exact ⟨le_rfl, hcap⟩
    | some err =>
      have hfailed' : ∀ j < k + 1, env.fn j ≠ none := by
        intro j hj
        rcases Nat.lt_succ_iff_lt_or_eq.mp hj with hj | rfl
        · exact hfailed j hj
        · rw [hfn]
          exact Option.some_ne_none err
      obtain ⟨out, hout, hcalls, hstops, herr, hsorted, hbetween⟩ :=
        ih (k := k + 1) (by push_cast at hleft ⊢; omega) hfailed' (some err)
      have hmono := meant_mono hR (Nat.le_succ k)
      rw [loop_fails hquiet hle hfn, ofNat_succ, hout]
      refine ⟨_, rfl, hcalls, hstops, herr, ?_, ?_⟩
      · rw [waits_ofNat hk] at hwaits ⊢
        dsimp only
        split_ifs with hone
        · rw [if_pos hone] at hwaits
          refine List.pairwise_cons.mpr ⟨fun d hd => ?_, hsorted⟩
          rw [hwaits _ List.mem_cons_self]
          exact hmono.trans (hbetween d hd).1
        · exact hsorted
      · intro d hd
        rcases List.mem_append.mp hd with hd | hd
        · rw [hwaits d hd]
          exact ⟨le_rfl, hcap⟩
        · exact ⟨hmono.trans (hbetween d hd).1, (hbetween d hd).2⟩

/-- **A retry that is made** has waited for its delay. -/
theorem delay_mem (hquiet : ∀ k, env.done k = none) {a : ℕ} (ha : 1 ≤ a)
    (hle : (a : ℤ) ≤ config.MaxRetries.toInt) (hfailed : ∀ j < a, env.fn j ≠ none) {out : Outcome}
    (hk : k ≤ a) (h : loop config env fuel k (Int64.ofNat k) lastErr = some out) :
    delay config (Int64.ofNat a) ∈ out.delays := by
  have hbound := config.MaxRetries.toInt_lt
  induction fuel generalizing k lastErr out with
  | zero => cases h
  | succ fuel ih =>
    have hattempt : Int64.ofNat k ≤ config.MaxRetries := (ofNat_le_maxRetries (by omega)).mpr (by omega)
    have hwaits := @waits_ofNat config k (by omega)
    rcases Nat.lt_or_eq_of_le hk with hlt | rfl
    · obtain ⟨err, herr⟩ := Option.ne_none_iff_exists'.mp (hfailed k hlt)
      rw [loop_fails hquiet hattempt herr, ofNat_succ] at h
      obtain ⟨out', hout', rfl⟩ := Option.map_eq_some_iff.mp h
      exact List.mem_append_right _ (ih hlt hout')
    · rw [if_pos ha] at hwaits
      cases hfn : env.fn k with
      | none =>
        rw [loop_succeeds hquiet hattempt hfn] at h
        cases h
        rw [hwaits]
        exact List.mem_cons_self
      | some err =>
        rw [loop_fails hquiet hattempt hfn] at h
        obtain ⟨out', -, rfl⟩ := Option.map_eq_some_iff.mp h
        rw [hwaits]
        exact List.mem_append_left _ List.mem_cons_self

/-- **No product overflows**, if the retries are bounded: the first that did would be followed by a delay
below zero. -/
theorem fits_of_bounded (hquiet : ∀ k, env.done k = none) (hR : 0 < config.RetryDelay.toInt)
    (hMax : config.RetryDelay.toInt ≤ config.MaxRetryDelay.toInt) (h : Bounded config env) {a : ℕ}
    (ha : 1 ≤ a) (hle : (a : ℤ) ≤ config.MaxRetries.toInt) (hfailed : ∀ j < a, env.fn j ≠ none) :
    config.RetryDelay.toInt * 2 ^ (a - 1) < 2 ^ 63 := by
  obtain ⟨fuel, out, hout, -, -, -, -, hbetween⟩ := h
  obtain ⟨b, rfl⟩ : ∃ b, a = b + 1 := ⟨a - 1, by omega⟩
  rw [Nat.add_sub_cancel]
  have hbound := config.RetryDelay.toInt_lt
  clear ha
  -- each retry before it has waited
  induction b with
  | zero =>
    rw [pow_zero, mul_one]
    exact hbound
  | succ b ih =>
    have hprev := ih (by push_cast at hle ⊢; omega) fun j hj => hfailed j (by omega)
    by_contra hover
    have hneg : (delay config (Int64.ofNat (b + 1 + 1))).toInt < 0 :=
      delay_neg hR hMax hprev (not_lt.mp hover)
    have hmem := delay_mem hquiet (by omega) hle hfailed (Nat.zero_le _) hout
    have hpos := (hbetween _ hmem).1
    omega

/-- **The retries are bounded if and only if no product overflows** before a retry that is made. -/
theorem bounded_iff (hR : 0 < config.RetryDelay.toInt)
    (hMax : config.RetryDelay.toInt ≤ config.MaxRetryDelay.toInt) (hN : 0 ≤ config.MaxRetries.toInt)
    (hquiet : ∀ k, env.done k = none) : Bounded config env ↔
      ∀ a : ℕ, 1 ≤ a → (a : ℤ) ≤ config.MaxRetries.toInt → (∀ j < a, env.fn j ≠ none) →
        config.RetryDelay.toInt * 2 ^ (a - 1) < 2 ^ 63 := by
  constructor
  · exact fun h a ha hle hfailed => fits_of_bounded hquiet hR hMax h ha hle hfailed
  · intro hfits
    obtain ⟨out, hout, hcalls, hstops, herr, hsorted, hbetween⟩ :=
      loop_bounded hquiet hR hfits (config.MaxRetries.toInt + 1).toNat 0
        (by push_cast; omega) (fun j hj => absurd hj (Nat.not_lt_zero j)) none
    refine ⟨_, out, hout, hcalls, hstops, herr, hsorted, fun d hd => ?_⟩
    exact ⟨(le_meant hMax hR 0).trans (hbetween d hd).1, (hbetween d hd).2⟩

/-- A function that always fails. -/
def failing : Env where
  fn := fun _ => some "connection refused"
  done := fun _ => none

theorem bounded_iff_default : Bounded DefaultConfig failing ↔
    ∀ a : ℕ, 1 ≤ a → (a : ℤ) ≤ DefaultConfig.MaxRetries.toInt → (∀ j < a, failing.fn j ≠ none) →
      DefaultConfig.RetryDelay.toInt * 2 ^ (a - 1) < 2 ^ 63 :=
  bounded_iff (by decide) (by decide) (by decide) fun _ => rfl

/-- **The 38th retry of a tenth of a second** does not wait at all. -/
theorem not_bounded : ¬∀ (config : Config) (env : Env), 0 < config.RetryDelay.toInt →
    config.RetryDelay.toInt ≤ config.MaxRetryDelay.toInt → 0 ≤ config.MaxRetries.toInt →
      (∀ k, env.done k = none) → Bounded config env := by
  intro h
  have hbounded := h { DefaultConfig with MaxRetries := 40 } failing (by decide) (by decide) (by decide)
    fun _ => rfl
  have hfits := fits_of_bounded (a := 38) (fun _ => rfl) (by decide) (by decide) hbounded (by decide)
    (by decide) fun _ _ => Option.some_ne_none _
  exact absurd hfits (by decide)

end MigrationSafety.Pool.Retry
