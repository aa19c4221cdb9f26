import MigrationSafety.Lib.Worlds
import MigrationSafety.StateMachine.Run

/-! # Faultless surroundings

One migration with its stored record, its target table and the controller of its backfill, in
surroundings in which everything succeeds (`Site.answers`): no call fails, nothing else writes to the
table, the breaker stays closed, no lag exceeds a limit the plan sets, and every registered service is
compatible. What is measured may be anything else. -/

namespace MigrationSafety.StateMachine.Faultless

open MigrationSafety.Lib.Effects MigrationSafety.Lib.Worlds MigrationSafety.Lib.Binary64
open MigrationSafety.Plan.Validate MigrationSafety.Sql.Rows
open MigrationSafety.Safety.Throttle MigrationSafety.Safety.Executor
open MigrationSafety.StateMachine.Signature MigrationSafety.StateMachine.Handlers

variable {V : Type}

/-! ### Statements on the target -/

/-- `SELECT id … WHERE col IS NULL AND id > lastID ORDER BY id LIMIT limit`. -/
def selected (rows : List (Row V)) (col : String) (lastID limit : ℤ) : List ℤ :=
  (((rows.filter fun r => (r.get col).isNone ∧ lastID < r.id).map Row.id).insertionSort
    (· ≤ ·)).take limit.toNat

/-- `UPDATE … SET col = (expr) WHERE id IN ids`. -/
def updateRows (eval : Eval V) (rows : List (Row V)) (col expr : String) (ids : List ℤ) : List (Row V) :=
  rows.map fun r => if r.id ∈ ids then r.set col (eval expr r) else r

/-- `SELECT COALESCE(MAX(id), 0) … WHERE col IS NOT NULL AND id > lastID`. -/
def maxId (rows : List (Row V)) (col : String) (lastID : ℤ) : ℤ :=
  ((rows.filter fun r => (r.get col).isSome ∧ lastID < r.id).map Row.id).max?.getD 0

/-! ### The world -/

/-- What stays as it is. -/
structure Site (V : Type) where
  id : Id
  plan : ValidPlan
  eval : Eval V
  /-- The registered services, all of them compatible. -/
  services : ℕ

structure World (V : Type) where
  /- the stored record -/
  state : State
  checkpoint : Checkpoint
  terminal : Bool
  /- the target table -/
  rows : List (Row V)
  /- the controller of the backfill -/
  throttle : AdaptiveThrottle
  /-- The DDL that has been executed. -/
  executed : List String
  /-- The operation before. -/
  last : Option Op

/-- A migration that has just been created. -/
def World.init (rows : List (Row V)) : World V where
  state := .pending
  checkpoint := []
  terminal := false
  rows := rows
  throttle := newAdaptiveThrottle defaultBackfillConfig
  executed := []
  last := none

/-- DDL is under way. -/
def World.sends (s : World V) : Prop := s.state = .expanding ∨ s.state = .contracting

instance (s : World V) : Decidable s.sends := inferInstanceAs (Decidable (_ ∨ _))

/-- What the executor lets pass. -/
def Safe (lag : Float64) : Prop :=
  wrap64 (toInt64 lag * millisecond) ≤ defaultDDLConfig.maxReplicationLag

namespace Site

def record (S : Site V) (s : World V) : Record where
  id := S.id
  plan := S.plan.plan
  state := s.state
  checkpoint := s.checkpoint.decode
  terminal := s.terminal

variable [DecidableEq V] in
/-- **The answers of a faultless run.** A composite batch is no statement, so it does not succeed. -/
def answers (S : Site V) (s : World V) : (op : Op) → op.Ret → Prop
  | .load _ => fun r => r = some (S.record s)
  | .saveState .. | .saveCheckpoint .. => fun r => r = true
  | .logDDLExecution .. | .logBackfillProgress .. | .logCanaryObservation .. => fun _ => True
  | .serviceCounts _ => fun r => r = some (S.services, S.services)
  | .ctxDone | .wait _ => fun r => r = false
  | .sleep _ => fun _ => True
  | .lockWaiting => fun r => ∃ n, r = some n ∧ (s.sends → n ≤ defaultDDLConfig.maxLockQueue)
  | .blockingQuery => fun r => r = true
  | .replicationLag => fun r => ∃ lag, r = some lag ∧
      (0 < S.plan.plan.slo.maxP99LatencyMs →
        lag.val ≤ (Float64.ofInt S.plan.plan.slo.maxP99LatencyMs).val) ∧ (s.sends → Safe lag)
  | .connections => fun r => r.isSome = true
  | .deadTuples => fun r => r.isSome = true
  | .beginTx | .setLocal _ | .txExec _ | .commit _ | .poolExec _ => fun r => r = true
  | .setTimeout _ | .terminateBackends => fun _ => True
  | .columnExists .. => fun r => r.isSome = true
  | .countRemaining _ col lastID => fun r =>
      r = some (s.rows.countP fun row => (row.get col).isNone ∧ lastID < row.id)
  | .updateBatch (.single _ col _) lastID limit => fun r => 0 ≤ limit ∧
      r = some (s.rows.countP fun row => row.id ∈ selected s.rows col lastID limit)
  | .updateBatch (.multi ..) .. => fun _ => False
  | .maxId _ col lastID => fun r => r = some (maxId s.rows col lastID)
  | .countNulls _ col => fun r => r = some (nullCount s.rows col)
  | .sampleParity _ col expr _ => fun r => ∃ sample, sample.Sublist s.rows ∧
      r = some (matchCount S.eval sample col expr, sample.length)
  | .fullParity _ col expr => fun r =>
      r = some (s.rows.length, nullCount s.rows col, driftCount S.eval s.rows col expr)
  | .newThrottle _ | .throttleRef => fun r => r = (0 : ℕ)
  | .adjustThrottle .. => fun _ => True
  | .isCircuitTripped => fun r => r = false ∧ s.throttle.circuitTripped = false
  | .getBatchSize => fun r => r = s.throttle.currentBatchSize
  | .getThrottleMs => fun r => r = s.throttle.currentThrottleMs

/-- What an operation changes. -/
def change (S : Site V) (s : World V) : Op → World V
  | .saveState _ _ dst checkpoint terminal =>
    { s with state := dst, checkpoint := checkpoint, terminal := terminal }
  | .saveCheckpoint _ _ checkpoint => { s with checkpoint := checkpoint }
  | .commit stmt | .poolExec stmt => { s with executed := s.executed ++ [stmt] }
  | .updateBatch (.single _ col expr) lastID limit =>
    { s with rows := updateRows S.eval s.rows col expr (selected s.rows col lastID limit) }
  | .newThrottle config => { s with throttle := newAdaptiveThrottle config }
  | .adjustThrottle _ m => { s with throttle := s.throttle.update m }
  | _ => s

def after (S : Site V) (s : World V) (op : Op) : World V := { S.change s op with last := some op }

variable [DecidableEq V] in
/-- The steps of a faultless run that meet the condition. -/
def Moves (S : Site V) (ok : Site V → World V → (op : Op) → op.Ret → Prop) (s : World V)
    (x : Event engine × Unit) (t : World V) : Prop :=
  S.answers s x.1.op x.1.ans ∧ ok S s x.1.op x.1.ans ∧ t = S.after s x.1.op

end Site

end MigrationSafety.StateMachine.Faultless
