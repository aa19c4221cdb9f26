import Mathlib.Data.Rat.Defs
import Mathlib.Algebra.Order.Ring.Unbundled.Rat
import Mathlib.Data.Int.Order.Basic
import Mathlib.Algebra.Group.Nat.Defs

/-! # The adaptive throttle

The controller of a backfill's pace. A reading of the database's health becomes a score, and the score
moves the batch size, the pause and the circuit breaker.

`int` arithmetic wraps (`wrap64`); the score is computed in exact rationals. The last hundred
readings, which the source keeps for its summary endpoint, are left out. -/

namespace MigrationSafety.Safety.Throttle

/-- The value an `int` holds. -/
def wrap64 (n : ℤ) : ℤ := Int.bmod n (2 ^ 64)

structure BackfillConfig where
  initialBatchSize : ℤ
  minBatchSize : ℤ
  maxBatchSize : ℤ
  initialThrottleMs : ℤ
  minThrottleMs : ℤ
  maxThrottleMs : ℤ
  /-- In seconds. -/
  healthCheckInterval : ℕ := 0
  circuitBreakerThreshold : ℚ := 0
deriving DecidableEq

def defaultBackfillConfig : BackfillConfig where
  initialBatchSize := 5000
  minBatchSize := 100
  maxBatchSize := 50000
  initialThrottleMs := 20
  minThrottleMs := 0
  maxThrottleMs := 5000
  healthCheckInterval := 5
  circuitBreakerThreshold := 1 / 10

/-- What `CollectHealthMetrics` gathers. The CPU share is never set. -/
structure DBHealthMetrics where
  activeConns : ℤ := 0
  maxConns : ℤ := 0
  tuplesDead : ℤ := 0
  waitingQueries : ℤ := 0
  maxLagMs : ℚ := 0
deriving DecidableEq

structure AdaptiveThrottle where
  config : BackfillConfig
  currentBatchSize : ℤ
  currentThrottleMs : ℤ
  healthScore : ℚ := 1
  circuitTripped : Bool := false
  tripCount : ℕ := 0
  consecutiveGood : ℕ := 0
  consecutiveBad : ℕ := 0
  recoveryThreshold : ℚ := 3 / 10
deriving DecidableEq

def newAdaptiveThrottle (config : BackfillConfig) : AdaptiveThrottle where
  config := config
  currentBatchSize := config.initialBatchSize
  currentThrottleMs := config.initialThrottleMs

/-! ### The score -/

def connScore (m : DBHealthMetrics) : ℚ :=
  if 0 < m.maxConns then 1 - m.activeConns / m.maxConns else 1

def replScore (m : DBHealthMetrics) : ℚ :=
  if 0 < m.maxLagMs then max (1 - m.maxLagMs / 1000) 0 else 1

def lockScore (m : DBHealthMetrics) : ℚ :=
  if 0 < m.waitingQueries then max (1 - m.waitingQueries / 10) 0 else 1

def bloatScore (m : DBHealthMetrics) : ℚ :=
  if 1000000 < m.tuplesDead then 1 / 2 else if 100000 < m.tuplesDead then 3 / 4 else 1

/-- The weighted average. -/
def healthScore (m : DBHealthMetrics) : ℚ :=
  3 / 10 * connScore m + 3 / 10 * replScore m + 2 / 10 * lockScore m + 2 / 10 * bloatScore m

/-! ### The adjustment -/

namespace AdaptiveThrottle

/-- While the breaker is tripped: three good readings in a row close it and restore the initial
values. -/
def recover (t : AdaptiveThrottle) : AdaptiveThrottle :=
  if t.recoveryThreshold < t.healthScore then
    if 3 ≤ t.consecutiveGood + 1 then
      { t with
        consecutiveBad := 0
        consecutiveGood := 0
        circuitTripped := false
        currentBatchSize := t.config.initialBatchSize
        currentThrottleMs := t.config.initialThrottleMs }
    else { t with consecutiveGood := t.consecutiveGood + 1, consecutiveBad := 0 }
  else { t with consecutiveGood := 0, consecutiveBad := t.consecutiveBad + 1 }

/-- Batch size and pause after a reading that leaves the breaker closed. -/
def pace (t : AdaptiveThrottle) : AdaptiveThrottle :=
  if 8 / 10 < t.healthScore then
    { t with
      currentBatchSize :=
        min ((wrap64 (t.currentBatchSize * 15)).tdiv 10) t.config.maxBatchSize
      currentThrottleMs := max (wrap64 (t.currentThrottleMs - 5)) t.config.minThrottleMs }
  else if t.healthScore < 3 / 10 then
    { t with
      currentBatchSize :=
        max ((wrap64 (t.currentBatchSize * 5)).tdiv 10) t.config.minBatchSize
      currentThrottleMs := min (wrap64 (t.currentThrottleMs + 50)) t.config.maxThrottleMs }
  else if t.healthScore < 5 / 10 then
    { t with
      currentBatchSize :=
        max ((wrap64 (t.currentBatchSize * 8)).tdiv 10) t.config.minBatchSize
      currentThrottleMs := min (wrap64 (t.currentThrottleMs + 20)) t.config.maxThrottleMs }
  else t

/-- `AdjustThrottle`: three bad readings in a row trip the breaker. -/
def adjustThrottle (t : AdaptiveThrottle) : AdaptiveThrottle :=
  if t.circuitTripped then t.recover
  else if t.healthScore < t.config.circuitBreakerThreshold then
    if 3 ≤ t.consecutiveBad + 1 then
      { t with
        consecutiveGood := 0
        circuitTripped := true
        tripCount := t.tripCount + 1
        consecutiveBad := 0 }
    else { t with consecutiveBad := t.consecutiveBad + 1, consecutiveGood := 0 }.pace
  else { t with consecutiveGood := t.consecutiveGood + 1, consecutiveBad := 0 }.pace

/-- `UpdateHealth`, once the metrics have been read. -/
def update (t : AdaptiveThrottle) (m : DBHealthMetrics) : AdaptiveThrottle :=
  { t with healthScore := Throttle.healthScore m }.adjustThrottle

/-- The controller after the readings, in order. -/
def updates (t : AdaptiveThrottle) (ms : List DBHealthMetrics) : AdaptiveThrottle :=
  ms.foldl update t

@[simp] theorem updates_nil (t : AdaptiveThrottle) : t.updates [] = t := rfl

@[simp] theorem updates_snoc (t : AdaptiveThrottle) (ms : List DBHealthMetrics)
    (m : DBHealthMetrics) : t.updates (ms ++ [m]) = (t.updates ms).update m := by
  simp [updates]

end AdaptiveThrottle

end MigrationSafety.Safety.Throttle
