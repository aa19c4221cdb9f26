import Mathlib.Algebra.Order.Field.Basic
import Mathlib.Tactic.Linarith
import Mathlib.Tactic.Ring

/-! # The token bucket

A bucket of a fixed capacity fills at a fixed rate; a visit is granted when there is a whole token, which
it takes. A visit reads the clock twice: what has flowed in is that up to its start, and the next inflow
counts from its finish.

* `level_serve`: what a visit leaves at its finish.
* `granted_le`: the grants after an instant are paid by what the bucket holds there and by the inflow.
* `window_le`: in every window of time the grants are at most the capacity and the inflow. -/

namespace MigrationSafety.Lib.TokenBucket

variable {R : Type} [Field R] [LinearOrder R] [IsStrictOrderedRing R]

/-- The capacity and the inflow for a unit of time; a full bucket has a whole token. -/
structure Rule (R : Type) [Field R] [LinearOrder R] where
  capacity : R
  rate : R
  one_le : 1 ≤ capacity
  rate_nonneg : 0 ≤ rate

/-- What the bucket held at an instant. -/
structure Bucket (R : Type) where
  tokens : R
  last : R

/-- A visit, between its two readings of the clock. -/
structure Visit (R : Type) where
  start : R
  finish : R

namespace Bucket

variable (rule : Rule R) (b : Bucket R)

/-- **The level at an instant**: the inflow since the last visit, cut off at the capacity. -/
def level (t : R) : R := min rule.capacity (b.tokens + rule.rate * max 0 (t - b.last))

/-- Whether a visit is granted, and the bucket after it. -/
def serve (v : Visit R) : Bool × Bucket R :=
  if 1 ≤ b.level rule v.start then (true, ⟨b.level rule v.start - 1, v.finish⟩)
  else (false, ⟨b.level rule v.start, v.finish⟩)

end Bucket

/-- The visits with their answers. -/
def answers (rule : Rule R) : Bucket R → List (Visit R) → List (Visit R × Bool)
  | _, [] => []
  | b, v :: vs => (v, (b.serve rule v).1) :: answers rule (b.serve rule v).2 vs

/-- One visit after the other. -/
structure Chronological (vs : List (Visit R)) : Prop where
  ordered : ∀ v ∈ vs, v.start ≤ v.finish
  disjoint : vs.Pairwise fun v w => v.finish ≤ w.start

/-- The visits in the window that were granted: all that have a moment in common with it. -/
def granted (s e : R) (as : List (Visit R × Bool)) : ℕ :=
  as.countP fun a => a.2 && decide (s ≤ a.1.finish ∧ a.1.start ≤ e)

variable {rule : Rule R} {b : Bucket R} {v : Visit R} {vs : List (Visit R)} {s e t τ : R}

/-! ### The level -/

variable (rule b) in
omit [IsStrictOrderedRing R] in
theorem level_le (t : R) : b.level rule t ≤ rule.capacity := min_le_left _ _

theorem level_le_tokens (h : t ≤ b.last) : b.level rule t ≤ b.tokens := by
  refine (min_le_right _ _).trans ?_
  rw [max_eq_left (by linarith), mul_zero, add_zero]

variable (rule b) in
/-- The inflow between two instants. -/
theorem level_le_add (h : τ ≤ t) : b.level rule t ≤ b.level rule τ + rule.rate * (t - τ) := by
  have hrate := rule.rate_nonneg
  have hflow : rule.rate * max 0 (t - b.last) ≤ rule.rate * (max 0 (τ - b.last) + (t - τ)) := by
    refine mul_le_mul_of_nonneg_left (max_le ?_ ?_) hrate
    · have := le_max_left 0 (τ - b.last)
      linarith
    · have := le_max_right 0 (τ - b.last)
      linarith
  have hin : 0 ≤ rule.rate * (t - τ) := mul_nonneg hrate (by linarith)
  rw [mul_add] at hflow
  unfold Bucket.level
  rcases min_choice rule.capacity (b.tokens + rule.rate * max 0 (τ - b.last)) with hmin | hmin
  · rw [hmin]
    have := min_le_left rule.capacity (b.tokens + rule.rate * max 0 (t - b.last))
    linarith
  · rw [hmin]
    have := min_le_right rule.capacity (b.tokens + rule.rate * max 0 (t - b.last))
    linarith

/-- The level does not go below nothing. -/
theorem level_nonneg (h : 0 ≤ b.tokens) : 0 ≤ b.level rule t := by
  refine le_min (zero_le_one.trans rule.one_le) ?_
  have := mul_nonneg rule.rate_nonneg (le_max_left 0 (t - b.last))
  linarith

/-! ### One visit -/

omit [IsStrictOrderedRing R] in
theorem serve_of_le (h : 1 ≤ b.level rule v.start) :
    b.serve rule v = (true, ⟨b.level rule v.start - 1, v.finish⟩) := if_pos h

omit [IsStrictOrderedRing R] in
theorem serve_of_not_le (h : ¬1 ≤ b.level rule v.start) :
    b.serve rule v = (false, ⟨b.level rule v.start, v.finish⟩) := if_neg h

/-- What a visit takes. -/
def cost (rule : Rule R) (b : Bucket R) (v : Visit R) : R := if (b.serve rule v).1 then 1 else 0

variable (rule b v) in
/-- **One visit**: what it leaves at its finish is what was there at its start, less what it takes. -/
theorem level_serve : (b.serve rule v).2.level rule v.finish ≤ b.level rule v.start - cost rule b v := by
  unfold cost
  by_cases h : 1 ≤ b.level rule v.start
  · rw [serve_of_le h, if_pos rfl]
    exact level_le_tokens le_rfl
  · rw [serve_of_not_le h, if_neg Bool.false_ne_true, sub_zero]
    exact level_le_tokens le_rfl

variable (rule v) in
theorem serve_nonneg (h : 0 ≤ b.tokens) : 0 ≤ (b.serve rule v).2.tokens := by
  by_cases hone : 1 ≤ b.level rule v.start
  · rw [serve_of_le hone]
    exact sub_nonneg.mpr hone
  · rw [serve_of_not_le hone]
    exact level_nonneg h

variable (rule b v) in
theorem ite_cost_le (p : Prop) [Decidable p] : (if p then cost rule b v else 0) ≤ cost rule b v := by
  split_ifs
  · exact le_rfl
  · unfold cost
    split_ifs
    · exact zero_le_one
    · exact le_rfl

/-! ### Runs -/

omit [Field R] [IsStrictOrderedRing R] in
theorem Chronological.tail (h : Chronological (v :: vs)) : Chronological vs :=
  ⟨fun w hw => h.ordered w (List.mem_cons_of_mem _ hw), h.disjoint.of_cons⟩

omit [Field R] [IsStrictOrderedRing R] in
/-- The later visits start when the first one has finished. -/
theorem Chronological.le_start (h : Chronological (v :: vs)) : ∀ w ∈ vs, v.finish ≤ w.start :=
  fun _ hw => List.rel_of_pairwise_cons h.disjoint hw

omit [IsStrictOrderedRing R] in
theorem granted_cons : (granted s e (answers rule b (v :: vs)) : R) =
    granted s e (answers rule (b.serve rule v).2 vs) +
      if s ≤ v.finish ∧ v.start ≤ e then cost rule b v else 0 := by
  rw [answers]
  unfold granted cost
  rw [List.countP_cons]
  split_ifs <;> simp_all

omit [IsStrictOrderedRing R] in
/-- Nothing of what starts later is in the window. -/
theorem granted_eq_zero (h : ∀ v ∈ vs, e < v.start) : granted s e (answers rule b vs) = 0 := by
  induction vs generalizing b with
  | nil => rfl
  | cons v vs ih =>
    have hv : ¬v.start ≤ e := not_le.mpr (h v List.mem_cons_self)
    rw [answers]
    unfold granted
    rw [List.countP_cons_of_neg (by simp [hv])]
    exact ih fun w hw => h w (List.mem_cons_of_mem _ hw)

variable (rule s e) in
/-- **The grants from an instant on**: they are paid by what the bucket holds then and by the inflow. -/
theorem granted_le (hb : 0 ≤ b.tokens) (hvs : Chronological vs) (hτ : ∀ v ∈ vs, τ ≤ v.start) :
    (granted s e (answers rule b vs) : R) ≤ b.level rule τ + rule.rate * max 0 (e - τ) := by
  have hrate := rule.rate_nonneg
  have hpos : 0 ≤ b.level rule τ + rule.rate * max 0 (e - τ) :=
    add_nonneg (level_nonneg hb) (mul_nonneg hrate (le_max_left _ _))
  induction vs generalizing b τ with
  | nil => simpa [granted, answers] using hpos
  | cons v vs ih =>
    have hstart : τ ≤ v.start := hτ v List.mem_cons_self
    have hfinish : v.start ≤ v.finish := hvs.ordered v List.mem_cons_self
    by_cases hv : v.start ≤ e
    · have hrest := ih (serve_nonneg rule v hb) hvs.tail hvs.le_start
        (add_nonneg (level_nonneg (serve_nonneg rule v hb)) (mul_nonneg hrate (le_max_left _ _)))
      have hserve := level_serve rule b v
      have hlevel := level_le_add rule b hstart
      -- the inflow up to the start of the visit, and that from its finish on
      have hflow : rule.rate * (v.start - τ + max 0 (e - v.finish)) ≤ rule.rate * max 0 (e - τ) := by
        refine mul_le_mul_of_nonneg_left ?_ hrate
        rcases max_choice 0 (e - v.finish) with hmax | hmax <;> rw [hmax] <;>
          exact le_max_of_le_right (by linarith)
      rw [mul_add] at hflow
      rw [granted_cons]
      have := ite_cost_le rule b v (s ≤ v.finish ∧ v.start ≤ e)
      linarith
    · have hlate : ∀ w ∈ v :: vs, e < w.start := by
        intro w hw
        rcases List.mem_cons.mp hw with rfl | hw
        · exact not_le.mp hv
        · have := hvs.le_start w hw
          linarith
      rw [granted_eq_zero hlate, Nat.cast_zero]
      exact hpos

/-- **Every window**: at most the capacity and the inflow. -/
theorem window_le (hb : 0 ≤ b.tokens) (hvs : Chronological vs) (ht : 0 ≤ t) :
    (granted s (s + t) (answers rule b vs) : R) ≤ rule.capacity + rule.rate * t := by
  have hrate := rule.rate_nonneg
  induction vs generalizing b with
  | nil =>
    have hpos := add_nonneg (zero_le_one.trans rule.one_le) (mul_nonneg hrate ht)
    simpa [granted, answers] using hpos
  | cons v vs ih =>
    rw [granted_cons]
    by_cases hv : s ≤ v.finish
    · have hrest := granted_le rule s (s + t) (serve_nonneg rule v hb) hvs.tail hvs.le_start
      have hserve := level_serve rule b v
      have hfull := level_le rule b v.start
      have hflow : rule.rate * max 0 (s + t - v.finish) ≤ rule.rate * t :=
        mul_le_mul_of_nonneg_left (max_le ht (by linarith)) hrate
      have := ite_cost_le rule b v (s ≤ v.finish ∧ v.start ≤ s + t)
      linarith
    · rw [if_neg fun h => hv h.1, add_zero]
      exact ih (serve_nonneg rule v hb) hvs.tail

end MigrationSafety.Lib.TokenBucket
