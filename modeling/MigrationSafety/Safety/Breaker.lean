import Mathlib.Tactic.Linarith
import MigrationSafety.Lib.Debounce
import MigrationSafety.Safety.Throttle

/-! # The circuit breaker

The breaker is a debounced switch with `k = 3`: its position is `circuitTripped`, and the counter of
the position is the one the controller compares (`switch_adjust`). So it trips and recovers exactly when
it should (`breaker_hysteresis`).

`resetCircuitBreaker` closes the breaker and leaves the counters as they are; the controller it
leaves behaves like a new one when no bad reading is being counted, and only then (`reset_iff`). -/

namespace MigrationSafety.Safety.Breaker

open MigrationSafety.Lib.Debounce MigrationSafety.Safety.Throttle

/-! ### Scores in a row -/

/-- `AdjustThrottle` with the score `score`. -/
def adjust (t : AdaptiveThrottle) (score : ℚ) : AdaptiveThrottle :=
  { t with healthScore := score }.adjustThrottle

/-- The controller after the scores, in order. -/
def adjusts (t : AdaptiveThrottle) (scores : List ℚ) : AdaptiveThrottle := scores.foldl adjust t

section
variable {t u : AdaptiveThrottle} {score : ℚ} {scores : List ℚ}

@[simp] theorem adjusts_nil : adjusts t [] = t := rfl

@[simp] theorem adjusts_cons : adjusts t (score :: scores) = adjusts (adjust t score) scores := rfl

@[simp] theorem adjusts_snoc : adjusts t (scores ++ [score]) = adjust (adjusts t scores) score := by
  simp [adjusts]

/-! ### What the pace leaves alone -/

theorem pace_fields (t : AdaptiveThrottle) : t.pace.config = t.config ∧
    t.pace.recoveryThreshold = t.recoveryThreshold ∧ t.pace.circuitTripped = t.circuitTripped ∧
    t.pace.consecutiveGood = t.consecutiveGood ∧ t.pace.consecutiveBad = t.consecutiveBad := by
  unfold AdaptiveThrottle.pace
  split_ifs <;> exact ⟨rfl, rfl, rfl, rfl, rfl⟩

@[simp] theorem config_pace : t.pace.config = t.config := (pace_fields t).1

@[simp] theorem recoveryThreshold_pace : t.pace.recoveryThreshold = t.recoveryThreshold :=
  (pace_fields t).2.1

@[simp] theorem circuitTripped_pace : t.pace.circuitTripped = t.circuitTripped := (pace_fields t).2.2.1

@[simp] theorem consecutiveGood_pace : t.pace.consecutiveGood = t.consecutiveGood :=
  (pace_fields t).2.2.2.1

@[simp] theorem consecutiveBad_pace : t.pace.consecutiveBad = t.consecutiveBad :=
  (pace_fields t).2.2.2.2

/-- The configuration and the threshold of recovery are fixed when a controller is made. -/
theorem adjust_fixed (t : AdaptiveThrottle) (score : ℚ) : (adjust t score).config = t.config ∧
    (adjust t score).recoveryThreshold = t.recoveryThreshold := by
  unfold adjust AdaptiveThrottle.adjustThrottle AdaptiveThrottle.recover
  split_ifs <;> simp

theorem adjusts_fixed (t : AdaptiveThrottle) (scores : List ℚ) : (adjusts t scores).config = t.config ∧
    (adjusts t scores).recoveryThreshold = t.recoveryThreshold := by
  induction scores generalizing t with
  | nil => exact ⟨rfl, rfl⟩
  | cons score scores ih =>
    obtain ⟨hc, hr⟩ := adjust_fixed t score
    obtain ⟨hc', hr'⟩ := ih (adjust t score)
    exact ⟨hc'.trans hc, hr'.trans hr⟩

/-! ### The breaker as a switch -/

/-- The position of the breaker, and the counter it compares in that position. -/
def switch (t : AdaptiveThrottle) : Switch where
  on := t.circuitTripped
  count := if t.circuitTripped then t.consecutiveGood else t.consecutiveBad

/-- A bad reading speaks against a closed breaker, a good one against a tripped one. -/
def against (bad good : ℚ) (tripped : Bool) (score : ℚ) : Prop :=
  if tripped then good < score else score < bad

instance (bad good : ℚ) (tripped : Bool) : DecidablePred (against bad good tripped) := fun score =>
  inferInstanceAs (Decidable (if tripped then good < score else score < bad))

/-- **The controller's breaker is a debounced switch.** -/
theorem switch_adjust : switch (adjust t score) =
    (switch t).read 3 (against t.config.circuitBreakerThreshold t.recoveryThreshold) score := by
  unfold adjust AdaptiveThrottle.adjustThrottle
  cases ht : t.circuitTripped
  · simp only [Bool.false_eq_true, if_false]
    split_ifs with hbad hthree
    · rw [read_of_le (by simp [switch, against, ht, hbad]) (by simpa [switch, ht] using hthree)]
      simp [switch, ht]
    · rw [read_of_lt (by simp [switch, against, ht, hbad]) (by simp [switch, ht]; omega)]
      simp [switch, ht]
    · rw [read_of_not (by simpa [switch, against, ht] using hbad)]
      simp [switch, ht]
  · simp only [if_true, AdaptiveThrottle.recover]
    split_ifs with hgood hthree
    · rw [read_of_le (by simp [switch, against, ht, hgood]) (by simpa [switch, ht] using hthree)]
      simp [switch, ht]
    · rw [read_of_lt (by simp [switch, against, ht, hgood]) (by simp [switch, ht]; omega)]
      simp [switch, ht]
    · rw [read_of_not (by simpa [switch, against, ht] using hgood)]
      simp [switch, ht]

/-! ### Batch size and pause -/

/-- A reading that leaves the breaker tripped leaves them alone. -/
theorem adjust_of_tripped (h : (adjust t score).circuitTripped = true) :
    (adjust t score).currentBatchSize = t.currentBatchSize ∧
      (adjust t score).currentThrottleMs = t.currentThrottleMs := by
  unfold adjust AdaptiveThrottle.adjustThrottle AdaptiveThrottle.recover at h ⊢
  split_ifs at h ⊢ with h1 <;> simp_all

/-- The reading at which the breaker recovers sets them back. -/
theorem adjust_of_recovered (ht : t.circuitTripped = true) (h : (adjust t score).circuitTripped = false) :
    (adjust t score).currentBatchSize = t.config.initialBatchSize ∧
      (adjust t score).currentThrottleMs = t.config.initialThrottleMs := by
  unfold adjust AdaptiveThrottle.adjustThrottle AdaptiveThrottle.recover at h ⊢
  split_ifs at h ⊢ <;> simp_all

/-- A reading that leaves the breaker closed moves them. -/
theorem adjust_of_closed (ht : t.circuitTripped = false) (h : (adjust t score).circuitTripped = false) :
    (adjust t score).currentBatchSize = { t with healthScore := score }.pace.currentBatchSize ∧
      (adjust t score).currentThrottleMs = { t with healthScore := score }.pace.currentThrottleMs := by
  unfold adjust AdaptiveThrottle.adjustThrottle at h ⊢
  simp only [ht, Bool.false_eq_true, if_false] at h ⊢
  split_ifs at h ⊢
  · unfold AdaptiveThrottle.pace
    split_ifs <;> exact ⟨rfl, rfl⟩
  · unfold AdaptiveThrottle.pace
    split_ifs <;> exact ⟨rfl, rfl⟩

end

/-! ### The readings since a change -/

section
variable (config : BackfillConfig) (scores : List ℚ)

/-- A new controller before the `n`-th of the scores. -/
def before (n : ℕ) : AdaptiveThrottle := adjusts (newAdaptiveThrottle config) (scores.take n)

/-- The readings `i - 2`, `i - 1` and `i` are all as `P` says, and they were all taken since the
breaker came into its position. -/
structure Window (P : ℚ → Prop) (tripped : Bool) (i : Fin scores.length) : Prop where
  enough : 2 ≤ (i : ℕ)
  since : ∀ j, (i : ℕ) - 2 ≤ j → j ≤ i → (before config scores j).circuitTripped = tripped
  all : ∀ j : Fin scores.length, (i : ℕ) - 2 ≤ j → j ≤ i → P scores[j]

variable {config scores}

theorem before_add_one (config : BackfillConfig) (i : Fin scores.length) :
    before config scores (i + 1) = adjust (before config scores i) scores[i] := by
  unfold before
  rw [List.take_add_one, List.getElem?_eq_getElem i.2]
  exact adjusts_snoc

theorem switch_before {n : ℕ} (hn : n ≤ scores.length) : switch (before config scores n) =
    (⟨false, 0⟩ : Switch).before 3 (against config.circuitBreakerThreshold
      (newAdaptiveThrottle config).recoveryThreshold) (fun j => scores[j]?.getD 0) n := by
  induction n with
  | zero => rfl
  | succ n ih =>
    have hfixed := adjusts_fixed (newAdaptiveThrottle config) (scores.take n)
    have hstep := before_add_one config ⟨n, hn⟩
    simp only at hstep
    rw [hstep, switch_adjust, before_succ, ih (by omega)]
    unfold before
    rw [hfixed.1, hfixed.2, List.getElem?_eq_getElem hn]
    rfl

theorem tripped_before (config : BackfillConfig) {n : ℕ} (hn : n ≤ scores.length) :
    (before config scores n).circuitTripped =
      ((⟨false, 0⟩ : Switch).before 3 (against config.circuitBreakerThreshold
        (newAdaptiveThrottle config).recoveryThreshold) (fun j => scores[j]?.getD 0) n).on := by
  rw [← switch_before hn]
  rfl

/-- A change of the breaker, in terms of the readings since the one before. -/
theorem changes_iff_window (tripped : Bool) (i : Fin scores.length) :
    (before config scores i).circuitTripped = tripped ∧
      (before config scores (i + 1)).circuitTripped = !tripped ↔
    Window config scores (against config.circuitBreakerThreshold
      (newAdaptiveThrottle config).recoveryThreshold tripped) tripped i := by
  have hchange := @changes_iff ℚ 3 (against config.circuitBreakerThreshold
    (newAdaptiveThrottle config).recoveryThreshold) _ ⟨false, 0⟩ (fun j => scores[j]?.getD 0) i rfl
    (by omega)
  have hon : ∀ j ≤ (i : ℕ), _ := fun j hj =>
    tripped_before config (hj.trans i.2.le)
  rw [← tripped_before config i.2, ← hon i le_rfl] at hchange
  have hget : ∀ j : Fin scores.length, scores[j] = scores[(j : ℕ)]?.getD 0 := fun j => by
    rw [List.getElem?_eq_getElem j.2]
    rfl
  constructor
  · rintro ⟨ht, ht'⟩
    obtain ⟨henough, hall⟩ := hchange.mp (by rw [ht, ht']; cases tripped <;> simp)
    refine ⟨by omega, fun j hj hji => ?_, fun j hj hji => ?_⟩
    · rw [hon j hji, (hall j (by omega) hji).1, ht]
    · rw [hget, ← ht]
      exact (hall j (by omega) hji).2
  · rintro ⟨henough, hsince, hall⟩
    have ht := hsince i (by omega) le_rfl
    refine ⟨ht, ?_⟩
    have hne := hchange.mpr ⟨by omega, fun j hj hji => ?_⟩
    · rw [ht] at hne
      cases tripped <;> simpa using hne
    · rw [← hon j hji, hsince j (by omega) hji, ht]
      refine ⟨rfl, ?_⟩
      have := hall ⟨j, by omega⟩ (by simp; omega) hji
      rwa [hget] at this

/-- **Hysteresis is exact**: the breaker trips at a reading if and only if that reading and the two
before it were taken since it was last closed and are all below the threshold, and recovers likewise;
tripped, it keeps the pace, and when it recovers the pace starts again. -/
theorem breaker_hysteresis (config : BackfillConfig) (scores : List ℚ) (i : Fin scores.length) :
    ((before config scores i).circuitTripped = false ∧
        (before config scores (i + 1)).circuitTripped = true ↔
      Window config scores (· < config.circuitBreakerThreshold) false i) ∧
    ((before config scores i).circuitTripped = true ∧
        (before config scores (i + 1)).circuitTripped = false ↔
      Window config scores ((newAdaptiveThrottle config).recoveryThreshold < ·) true i) ∧
    ((before config scores (i + 1)).circuitTripped = true →
      (before config scores (i + 1)).currentBatchSize = (before config scores i).currentBatchSize ∧
        (before config scores (i + 1)).currentThrottleMs =
          (before config scores i).currentThrottleMs) ∧
    ((before config scores i).circuitTripped = true →
      (before config scores (i + 1)).circuitTripped = false →
        (before config scores (i + 1)).currentBatchSize = config.initialBatchSize ∧
          (before config scores (i + 1)).currentThrottleMs = config.initialThrottleMs) := by
  refine ⟨changes_iff_window false i, changes_iff_window true i, ?_, ?_⟩
  · rw [before_add_one]
    exact adjust_of_tripped
  · rw [before_add_one]
    intro ht h
    have hconfig : (before config scores i).config = config := (adjusts_fixed _ _).1
    have hinit := adjust_of_recovered ht h
    rwa [hconfig] at hinit

end

/-! ### The manual reset -/

/-- `ResetCircuitBreaker`. -/
def resetCircuitBreaker (t : AdaptiveThrottle) : AdaptiveThrottle :=
  { t with
    circuitTripped := false
    currentBatchSize := t.config.initialBatchSize
    currentThrottleMs := t.config.initialThrottleMs }

/-- What can be seen of a controller. -/
def observe (t : AdaptiveThrottle) : Bool × ℤ × ℤ :=
  (t.circuitTripped, t.currentBatchSize, t.currentThrottleMs)

/-- Two controllers that differ in their score, the number of trips and the idle counter at most. -/
structure Alike (t u : AdaptiveThrottle) : Prop where
  config : t.config = u.config
  recovery : t.recoveryThreshold = u.recoveryThreshold
  switch : switch t = switch u
  batch : t.currentBatchSize = u.currentBatchSize
  pause : t.currentThrottleMs = u.currentThrottleMs

section
variable {t u : AdaptiveThrottle} {score : ℚ} {scores : List ℚ}

theorem Alike.tripped (h : Alike t u) : t.circuitTripped = u.circuitTripped :=
  congrArg Switch.on h.switch

theorem Alike.observe (h : Alike t u) : observe t = observe u := by
  unfold Breaker.observe
  rw [h.tripped, h.batch, h.pause]

/-- **One reading keeps two controllers alike.** -/
theorem Alike.adjust (h : Alike t u) : Alike (adjust t score) (adjust u score) := by
  have hswitch : Breaker.switch (Breaker.adjust t score) = Breaker.switch (Breaker.adjust u score) := by
    rw [switch_adjust, switch_adjust, h.config, h.recovery, h.switch]
  have htripped : (Breaker.adjust t score).circuitTripped = (Breaker.adjust u score).circuitTripped :=
    congrArg Switch.on hswitch
  have hsizes : (Breaker.adjust t score).currentBatchSize = (Breaker.adjust u score).currentBatchSize ∧
      (Breaker.adjust t score).currentThrottleMs = (Breaker.adjust u score).currentThrottleMs := by
    cases hu' : (Breaker.adjust u score).circuitTripped
    · cases hu : u.circuitTripped
      · have h1 := adjust_of_closed (h.tripped.trans hu) (htripped.trans hu')
        have h2 := adjust_of_closed hu hu'
        rw [h1.1, h1.2, h2.1, h2.2]
        unfold AdaptiveThrottle.pace
        simp only [h.config, h.batch, h.pause]
        split_ifs <;> exact ⟨rfl, rfl⟩
      · have h1 := adjust_of_recovered (h.tripped.trans hu) (htripped.trans hu')
        have h2 := adjust_of_recovered hu hu'
        rw [h1.1, h1.2, h2.1, h2.2, h.config]
        exact ⟨rfl, rfl⟩
    · have h1 := adjust_of_tripped (htripped.trans hu')
      have h2 := adjust_of_tripped hu'
      rw [h1.1, h1.2, h2.1, h2.2, h.batch, h.pause]
      exact ⟨rfl, rfl⟩
  exact ⟨(adjust_fixed t score).1.trans (h.config.trans (adjust_fixed u score).1.symm),
    (adjust_fixed t score).2.trans (h.recovery.trans (adjust_fixed u score).2.symm), hswitch, hsizes.1, hsizes.2⟩

theorem Alike.adjusts (h : Alike t u) : Alike (adjusts t scores) (adjusts u scores) := by
  induction scores generalizing t u with
  | nil => exact h
  | cons score scores ih => exact ih h.adjust

theorem switch_adjusts_two : switch (adjusts t [score, score]) =
    ((switch t).read 3 (against t.config.circuitBreakerThreshold t.recoveryThreshold) score).read 3
      (against t.config.circuitBreakerThreshold t.recoveryThreshold) score := by
  rw [adjusts_cons, adjusts_cons, adjusts_nil, switch_adjust, switch_adjust,
    (adjust_fixed t score).1, (adjust_fixed t score).2]

/-- Two bad readings do not trip a closed breaker that has counted none. -/
theorem closed_of_two_bad (ht : t.circuitTripped = false) (hb : t.consecutiveBad = 0)
    (hbad : score < t.config.circuitBreakerThreshold) :
    (adjusts t [score, score]).circuitTripped = false := by
  change (switch (adjusts t [score, score])).on = false
  have hswitch : switch t = ⟨false, 0⟩ := by simp [switch, ht, hb]
  have hagainst : against t.config.circuitBreakerThreshold t.recoveryThreshold false score := hbad
  have h1 : (⟨false, 0⟩ : Switch).read 3 (against t.config.circuitBreakerThreshold t.recoveryThreshold)
      score = ⟨false, 1⟩ := read_of_lt hagainst (by decide)
  have h2 : (⟨false, 1⟩ : Switch).read 3 (against t.config.circuitBreakerThreshold t.recoveryThreshold)
      score = ⟨false, 2⟩ := read_of_lt hagainst (by decide)
  rw [switch_adjusts_two, hswitch, h1, h2]

/-- They trip it if it has counted one before. -/
theorem tripped_of_two_bad (ht : t.circuitTripped = false) (hb : t.consecutiveBad ≠ 0)
    (hbad : score < t.config.circuitBreakerThreshold) :
    (adjusts t [score, score]).circuitTripped = true := by
  change (switch (adjusts t [score, score])).on = true
  have hswitch : switch t = ⟨false, t.consecutiveBad⟩ := by simp [switch, ht]
  have hagainst : against t.config.circuitBreakerThreshold t.recoveryThreshold false score := hbad
  rw [switch_adjusts_two, hswitch]
  rcases Nat.lt_or_ge (t.consecutiveBad + 1) 3 with hlt | hle
  · have h1 := read_of_lt (s := ⟨false, t.consecutiveBad⟩) hagainst hlt
    rw [h1, read_of_le hagainst (show 3 ≤ t.consecutiveBad + 1 + 1 by omega)]
    rfl
  · -- the first of them trips it, and one more reading is not enough to recover
    have h1 := read_of_le (s := ⟨false, t.consecutiveBad⟩) hagainst hle
    rw [h1]
    by_contra h
    have hchange := (on_read_ne_iff (s := ⟨!false, 0⟩)).mp fun heq => h heq
    simp at hchange

end

/-- **After a reset a controller behaves like a new one if and only if** no bad reading is being
counted when it is reset. -/
theorem reset_iff (config : BackfillConfig) (past : List ℚ) :
    (∀ scores, observe (adjusts (resetCircuitBreaker (adjusts (newAdaptiveThrottle config) past)) scores) =
        observe (adjusts (newAdaptiveThrottle config) scores)) ↔
      (adjusts (newAdaptiveThrottle config) past).consecutiveBad = 0 := by
  obtain ⟨hconfig, hrecovery⟩ := adjusts_fixed (newAdaptiveThrottle config) past
  constructor
  · intro h
    by_contra hb
    have hbad : config.circuitBreakerThreshold - 1 < config.circuitBreakerThreshold := by linarith
    have hnew := closed_of_two_bad (t := newAdaptiveThrottle config) rfl rfl hbad
    have hreset := tripped_of_two_bad
      (t := resetCircuitBreaker (adjusts (newAdaptiveThrottle config) past)) rfl hb
      (lt_of_lt_of_eq hbad (congrArg BackfillConfig.circuitBreakerThreshold hconfig).symm)
    have heq := congrArg Prod.fst (h [config.circuitBreakerThreshold - 1,
      config.circuitBreakerThreshold - 1])
    simp only [observe] at heq
    rw [hnew, hreset] at heq
    cases heq
  · intro hb scores
    refine Alike.observe (Alike.adjusts ⟨hconfig, hrecovery, ?_, ?_, ?_⟩)
    · exact congrArg (Switch.mk false) hb
    · exact congrArg BackfillConfig.initialBatchSize hconfig
    · exact congrArg BackfillConfig.initialThrottleMs hconfig

/-- The first of three bad readings before the reset, the others after it. -/
theorem reset_remembers : ¬∀ (config : BackfillConfig) (past scores : List ℚ),
    observe (adjusts (resetCircuitBreaker (adjusts (newAdaptiveThrottle config) past)) scores) =
      observe (adjusts (newAdaptiveThrottle config) scores) := by
  intro h
  exact absurd (h defaultBackfillConfig [0] [0, 0]) (by decide +kernel)

end MigrationSafety.Safety.Breaker
