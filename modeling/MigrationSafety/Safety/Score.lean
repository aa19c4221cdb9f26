import Mathlib.Tactic.Linarith
import Mathlib.Tactic.NormNum
import MigrationSafety.Safety.Throttle

/-! # The health score

The score is the weighted sum of four parts. Each falls as its reading rises (`score_le_of_heavier`) and
none is above 1, but only two are cut off at 0: the part for the connections is linear in a count that
may exceed the number of slots.

* `isScore_iff`: the score is a score as long as the connections leave it one. -/

namespace MigrationSafety.Safety.Score

open MigrationSafety.Safety.Throttle

/-! ### Readings -/

/-- Counts and times. -/
structure NonNeg (m : DBHealthMetrics) : Prop where
  activeConns : 0 ≤ m.activeConns
  maxConns : 0 ≤ m.maxConns
  maxLagMs : 0 ≤ m.maxLagMs
  waitingQueries : 0 ≤ m.waitingQueries
  tuplesDead : 0 ≤ m.tuplesDead

/-- `m'` is `m` with some of its readings raised, on a server with as many slots. -/
structure Heavier (m m' : DBHealthMetrics) : Prop where
  maxConns : m'.maxConns = m.maxConns
  activeConns : m.activeConns ≤ m'.activeConns
  maxLagMs : m.maxLagMs ≤ m'.maxLagMs
  waitingQueries : m.waitingQueries ≤ m'.waitingQueries
  tuplesDead : m.tuplesDead ≤ m'.tuplesDead

/-- **What the comment promises**: between 0 and 1, and lower under more load. -/
structure IsScore (m : DBHealthMetrics) : Prop where
  nonneg : 0 ≤ healthScore m
  le_one : healthScore m ≤ 1
  antitone : ∀ m', Heavier m m' → healthScore m' ≤ healthScore m

section
variable {m m' : DBHealthMetrics}

/-! ### The parts -/

theorem connScore_le_one (h : NonNeg m) : connScore m ≤ 1 := by
  unfold connScore
  split_ifs with hmax
  · have hactive : (0 : ℚ) ≤ m.activeConns := by exact_mod_cast h.activeConns
    have hslots : (0 : ℚ) ≤ m.maxConns := by exact_mod_cast hmax.le
    have := div_nonneg hactive hslots
    linarith
  · exact le_rfl

/-- `1 - x / k`, cut off at 0. -/
theorem cut_le_one {x k : ℚ} (hx : 0 < x) (hk : 0 < k) : max (1 - x / k) 0 ≤ 1 := by
  have := div_pos hx hk
  exact max_le (by linarith) zero_le_one

theorem cut_antitone {x y k : ℚ} (h : x ≤ y) (hk : 0 < k) : max (1 - y / k) 0 ≤ max (1 - x / k) 0 := by
  have := div_le_div_of_nonneg_right h hk.le
  exact max_le_max_right 0 (by linarith)

/-- Without a reading above 0 nothing is taken off. -/
theorem cut_eq {x k : ℚ} (hx : 0 ≤ x) : (if 0 < x then max (1 - x / k) 0 else 1) = max (1 - x / k) 0 := by
  split_ifs with hpos
  · rfl
  · rw [le_antisymm (not_lt.mp hpos) hx]
    simp

theorem replScore_le_one (m : DBHealthMetrics) : replScore m ≤ 1 := by
  unfold replScore
  split_ifs with h
  · exact cut_le_one h (by norm_num)
  · exact le_rfl

theorem lockScore_le_one (m : DBHealthMetrics) : lockScore m ≤ 1 := by
  unfold lockScore
  split_ifs with h
  · exact cut_le_one (by exact_mod_cast h) (by norm_num)
  · exact le_rfl

theorem bloatScore_le_one (m : DBHealthMetrics) : bloatScore m ≤ 1 := by
  unfold bloatScore
  split_ifs <;> norm_num

/-! ### More load -/

theorem connScore_antitone (h : Heavier m m') : connScore m' ≤ connScore m := by
  unfold connScore
  rw [h.maxConns]
  split_ifs with hmax
  · have hactive : (m.activeConns : ℚ) ≤ m'.activeConns := by exact_mod_cast h.activeConns
    have hslots : (0 : ℚ) ≤ m.maxConns := by exact_mod_cast hmax.le
    have := div_le_div_of_nonneg_right hactive hslots
    linarith
  · exact le_rfl

theorem replScore_antitone (h : Heavier m m') : replScore m' ≤ replScore m := by
  by_cases hm : 0 < m.maxLagMs
  · unfold replScore
    rw [if_pos hm, if_pos (hm.trans_le h.maxLagMs)]
    exact cut_antitone h.maxLagMs (by norm_num)
  · have hone : replScore m = 1 := if_neg hm
    rw [hone]
    exact replScore_le_one m'

theorem lockScore_antitone (h : Heavier m m') : lockScore m' ≤ lockScore m := by
  by_cases hm : 0 < m.waitingQueries
  · unfold lockScore
    rw [if_pos hm, if_pos (hm.trans_le h.waitingQueries)]
    exact cut_antitone (by exact_mod_cast h.waitingQueries) (by norm_num)
  · have hone : lockScore m = 1 := if_neg hm
    rw [hone]
    exact lockScore_le_one m'

theorem bloatScore_antitone (h : Heavier m m') : bloatScore m' ≤ bloatScore m := by
  have := h.tuplesDead
  unfold bloatScore
  split_ifs <;> first | omega | norm_num

/-- **More load never raises the score.** -/
theorem score_le_of_heavier (h : Heavier m m') : healthScore m' ≤ healthScore m := by
  have hconn := connScore_antitone h
  have hrepl := replScore_antitone h
  have hlock := lockScore_antitone h
  have hbloat := bloatScore_antitone h
  unfold healthScore
  linarith

theorem score_le_one (h : NonNeg m) : healthScore m ≤ 1 := by
  have hconn := connScore_le_one h
  have hrepl := replScore_le_one m
  have hlock := lockScore_le_one m
  have hbloat := bloatScore_le_one m
  unfold healthScore
  linarith

/-! ### The connections -/

/-- How many active connections for each slot the other readings leave room for: between 4/3 and
10/3. -/
def room (m : DBHealthMetrics) : ℚ :=
  1 + max (1 - m.maxLagMs / 1000) 0 + 2 / 3 * max (1 - (m.waitingQueries : ℚ) / 10) 0 +
    2 / 3 * if 1000000 < m.tuplesDead then 1 / 2 else if 100000 < m.tuplesDead then 3 / 4 else 1

theorem room_eq (h : NonNeg m) :
    room m = 1 + replScore m + 2 / 3 * lockScore m + 2 / 3 * bloatScore m := by
  have hlock : (0 : ℚ) ≤ m.waitingQueries := by exact_mod_cast h.waitingQueries
  have hrepl : replScore m = max (1 - m.maxLagMs / 1000) 0 := cut_eq h.maxLagMs
  have hwait : lockScore m = max (1 - (m.waitingQueries : ℚ) / 10) 0 := by
    rw [← cut_eq hlock]
    unfold lockScore
    simp only [Int.cast_pos]
  unfold room bloatScore
  rw [hrepl, hwait]

/-- A server without slots counts as idle. -/
theorem score_nonneg_of_no_slots (h : NonNeg m) (hmax : m.maxConns = 0) : 0 ≤ healthScore m := by
  have hconn : connScore m = 1 := if_neg (by omega)
  have hrepl : replScore m = max (1 - m.maxLagMs / 1000) 0 := cut_eq h.maxLagMs
  have hlock : 0 ≤ lockScore m := by
    unfold lockScore
    split_ifs
    · exact le_max_right _ _
    · exact zero_le_one
  have hbloat : 0 ≤ bloatScore m := by
    unfold bloatScore
    split_ifs <;> norm_num
  have : (0 : ℚ) ≤ max (1 - m.maxLagMs / 1000) 0 := le_max_right _ _
  unfold healthScore
  rw [hconn, hrepl]
  linarith

theorem score_nonneg_iff (h : NonNeg m) (hmax : 0 < m.maxConns) :
    0 ≤ healthScore m ↔ (m.activeConns : ℚ) ≤ room m * m.maxConns := by
  have hslots : (0 : ℚ) < m.maxConns := by exact_mod_cast hmax
  have hconn : connScore m = 1 - (m.activeConns : ℚ) / m.maxConns := if_pos hmax
  rw [← div_le_iff₀ hslots, room_eq h]
  unfold healthScore
  rw [hconn]
  constructor <;> intro h' <;> linarith

/-- **When the score is one**: when there are no slots, or no more active connections than the other
readings leave room for. -/
theorem isScore_iff (h : NonNeg m) : IsScore m ↔
    m.maxConns = 0 ∨ (m.activeConns : ℚ) ≤ room m * m.maxConns := by
  have hscore : IsScore m ↔ 0 ≤ healthScore m :=
    ⟨fun hm => hm.nonneg, fun hm => ⟨hm, score_le_one h, fun _ => score_le_of_heavier⟩⟩
  rw [hscore]
  rcases h.maxConns.eq_or_lt with hmax | hmax
  · exact iff_of_true (score_nonneg_of_no_slots h hmax.symm) (Or.inl hmax.symm)
  · rw [score_nonneg_iff h hmax]
    exact (or_iff_right hmax.ne').symm

end

/-- Twice as many active connections as slots, and nothing else to do. -/
def busy : DBHealthMetrics where
  activeConns := 200
  maxConns := 100

theorem isScore_busy : IsScore busy :=
  (isScore_iff ⟨by decide, by decide, by decide, by decide, by decide⟩).mpr (Or.inr (by decide +kernel))

/-- The same, with all else at its worst: the score is -1/5. -/
def overloaded : DBHealthMetrics where
  activeConns := 200
  maxConns := 100
  tuplesDead := 1000001
  waitingQueries := 10
  maxLagMs := 1000

theorem not_isScore : ¬∀ m, NonNeg m → IsScore m := by
  intro h
  have hscore := (h overloaded ⟨by decide, by decide, by decide, by decide, by decide⟩).nonneg
  exact absurd hscore (by decide +kernel)

end MigrationSafety.Safety.Score
