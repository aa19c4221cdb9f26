import MigrationSafety.StateMachine.Signature

/-! # The DDL executor

Every DDL statement runs behind a safety check of the lock queue and the replication lag, inside a
transaction with both timeouts set, or, for a CONCURRENTLY statement, outside one with up to three
attempts.

* `execDDL_post`: a call that succeeds has executed its statement exactly once, one that fails has
  not seen it succeed.
* `execDDL_within`: what a call asks for. -/

namespace MigrationSafety.Safety.Executor

open MigrationSafety.Lib.Effects MigrationSafety.Lib.Binary64 MigrationSafety.Sql.Text
open MigrationSafety.Safety.Throttle MigrationSafety.StateMachine.Signature

/-! ### Configuration -/

def millisecond : ℤ := 1000000

def second : ℤ := 1000 * millisecond

structure DDLConfig where
  lockTimeout : ℤ
  statementTimeout : ℤ
  maxLockQueue : ℤ
  maxReplicationLag : ℤ

def defaultDDLConfig : DDLConfig where
  lockTimeout := 3 * second
  statementTimeout := 60 * second
  maxLockQueue := 5
  maxReplicationLag := 30 * second

def maxRetries : ℕ := 3

def retryDelay : ℤ := second

/-- `SET [LOCAL] name = '…ms'`. -/
def setTimeoutSQL (scope name : String) (d : ℤ) : String :=
  "SET " ++ scope ++ name ++ " = '" ++ toString (d / millisecond) ++ "ms'"

/-! ### Health -/

/-- `CheckLockQueue`: the number of waiting queries. -/
def checkLockQueue : Code (Option ℤ) := do
  match ← ask .lockWaiting with
  | none => pure none
  | some n =>
    if 0 < n then
      if ← ask .blockingQuery then pure (some n) else pure none
    else pure (some n)

def checkReplicationLag : Code (Option Float64) := ask .replicationLag

/-- `CollectHealthMetrics`: a failing check of the lock queue or of the replicas is skipped. -/
def collectHealthMetrics : Code (Option DBHealthMetrics) := do
  match ← ask .connections with
  | none => pure none
  | some (active, max) =>
    match ← ask .deadTuples with
    | none => pure none
    | some dead =>
      let waiting ← checkLockQueue
      let lag ← checkReplicationLag
      pure (some
        { activeConns := active, maxConns := max, tuplesDead := dead
          waitingQueries := waiting.getD 0, maxLagMs := (lag.map Float64.val).getD 0 })

/-- `SafetyCheck`: before every DDL statement. -/
def safetyCheck : Code (Except DDLError Unit) := do
  match ← checkLockQueue with
  | none => pure (.error .lockCheckFailed)
  | some n =>
    if defaultDDLConfig.maxLockQueue < n then pure (.error (.lockQueueBlocked n))
    else
      match ← checkReplicationLag with
      | none => pure (.error .replicationCheckFailed)
      | some lag =>
        if defaultDDLConfig.maxReplicationLag < wrap64 (toInt64 lag * millisecond) then
          pure (.error (.replicationLagTooHigh lag))
        else pure (.ok ())

/-! ### Execution -/

/-- `execConcurrently`, with `left` attempts left of `maxRetries`. -/
def execConcurrently (stmt : String) : ℕ → Code (Except DDLError Unit)
  | 0 => pure (.error (.attemptsExhausted maxRetries))
  | left + 1 => do
    match ← safetyCheck with
    | .error _ =>
      if 0 < left then
        let _ ← ask (.sleep (retryDelay * (maxRetries - left)))
        execConcurrently stmt left
      else pure (.error (.safetyCheckAfter maxRetries))
    | .ok _ =>
      -- a failure to set the timeout is only logged
      let _ ← ask (.setTimeout (setTimeoutSQL "" "statement_timeout"
        defaultDDLConfig.statementTimeout))
      if ← ask (.poolExec stmt) then pure (.ok ())
      else if 0 < left then
        let _ ← ask (.sleep (retryDelay * (maxRetries - left)))
        execConcurrently stmt left
      else pure (.error .executeConcurrently)

/-- The transaction of a DDL statement. -/
def execInTx (stmt : String) : Code (Except DDLError Unit) := do
  if ← ask .beginTx then
    if ← ask (.setLocal (setTimeoutSQL "LOCAL " "lock_timeout" defaultDDLConfig.lockTimeout)) then
      if ← ask (.setLocal (setTimeoutSQL "LOCAL " "statement_timeout"
          defaultDDLConfig.statementTimeout)) then
        if ← ask (.txExec stmt) then
          if ← ask (.commit stmt) then pure (.ok ())
          else pure (.error .commit)
        else pure (.error .execute)
      else pure (.error .setStatementTimeout)
    else pure (.error .setLockTimeout)
  else pure (.error .beginTx)

/-- **`ExecDDL`.** -/
def execDDL (stmt : String) : Code (Except DDLError Unit) := do
  match ← safetyCheck with
  | .error e => pure (.error e)
  | .ok _ => if isConcurrentlyDDL stmt then execConcurrently stmt maxRetries else execInTx stmt

/-! ### What it asks -/

/-- The operations of the executor. -/
def executorKinds : List Kind := [.probe, .clock, .ddl]

theorem mem_executorKinds {k : Kind} :
    k ∈ executorKinds ↔ k = .probe ∨ k = .clock ∨ k = .ddl := by
  simp [executorKinds]

theorem checkLockQueue_within : Within [.probe] checkLockQueue := by
  simp [checkLockQueue, Option.forall, Op.kind]

theorem collectHealthMetrics_within : Within [.probe] collectHealthMetrics := by
  simp only [collectHealthMetrics, Prog.perform_bind, within_call, Option.forall]
  refine ⟨by simp [Op.kind], by simp, fun _ => ⟨by simp [Op.kind], by simp, fun _ => ?_⟩⟩
  exact checkLockQueue_within.bind fun _ => by simp [checkReplicationLag, Op.kind]

theorem safetyCheck_within : Within [.probe] safetyCheck := by
  refine checkLockQueue_within.bind fun r => ?_
  cases r <;> simp [checkReplicationLag, Option.forall, Op.kind]

theorem execConcurrently_within (stmt : String) (left : ℕ) :
    Within executorKinds (execConcurrently stmt left) := by
  induction left with
  | zero => simp [execConcurrently]
  | succ left ih =>
    refine (safetyCheck_within.mono (by decide)).bind fun r => ?_
    cases r <;> simp [mem_executorKinds, Op.kind, ih]

theorem execDDL_within (stmt : String) : Within executorKinds (execDDL stmt) := by
  refine (safetyCheck_within.mono (by decide)).bind fun r => ?_
  cases r with
  | error e => simp
  | ok _ =>
    have := execConcurrently_within stmt maxRetries
    simp [this, execInTx, mem_executorKinds, Op.kind]

/-! ### What it executes -/

/-- A call for `stmt`, made after the statements `l`, has executed this one exactly if it succeeded. -/
def Executed (stmt : String) (l : List String) (tr : List (Event engine))
    (r : Except DDLError Unit) : Prop :=
  applied tr = l ++ if r.isOk then [stmt] else []

section Executed
variable {stmt : String} {l : List String} {pre : List (Event engine)}

theorem safetyCheck_post (hl : applied pre = l) :
    safetyCheck.Post (fun tr _ => applied tr = l) pre := by
  refine (safetyCheck_within.spec fun _ _ _ _ => trivial).mono (fun _ _ h => h) ?_
  rintro tr r ⟨t, rfl, -, ht⟩
  have : applied t = [] := applied_eq_nil_of_kind fun ev hev h => by simpa [h] using ht ev hev
  rw [applied_append, this, List.append_nil, hl]

theorem execInTx_post (hl : applied pre = l) : (execInTx stmt).Post (Executed stmt l) pre := by
  simp [execInTx, Executed, applied_cons, appliedBy, Bool.forall_bool, Except.isOk, Except.toBool, hl]

theorem execConcurrently_post (hl : applied pre = l) (left : ℕ) :
    (execConcurrently stmt left).Post (Executed stmt l) pre := by
  induction left generalizing pre with
  | zero => simp [execConcurrently, Executed, Except.isOk, Except.toBool, hl]
  | succ left ih =>
    unfold execConcurrently
    refine (safetyCheck_post hl).bind fun tr r htr => ?_
    -- a failed check and a failed attempt both sleep and go on with one attempt less, if one is left
    have hfail : ∀ t e, applied t = l → (if 0 < left then do
          let _ ← ask (.sleep (retryDelay * (maxRetries - left)))
          execConcurrently stmt left
        else pure (.error e)).Post (Executed stmt l) t := by
      intro t e ht
      split_ifs
      · rw [Prog.perform_bind, post_call]
        exact fun r => ih (by simp [applied_cons, appliedBy, ht])
      · simpa [Executed, Except.isOk, Except.toBool] using ht
    cases r with
    | error e => exact hfail tr _ htr
    | ok _ =>
      refine post_call.mpr fun b => post_call.mpr fun b' => ?_
      cases b' with
      | false => exact hfail _ _ (by simp [applied_cons, appliedBy, htr])
      | true =>
        show applied _ = l ++ [stmt]
        simp [applied_cons, appliedBy, htr]

/-- **A call executes its statement once if it succeeds, and not at all otherwise.** -/
theorem execDDL_post (hl : applied pre = l) : (execDDL stmt).Post (Executed stmt l) pre := by
  unfold execDDL
  refine (safetyCheck_post hl).bind fun tr r htr => ?_
  cases r with
  | error e => simpa [Executed, Except.isOk, Except.toBool] using htr
  | ok _ =>
    dsimp only
    split_ifs
    · exact execConcurrently_post htr maxRetries
    · exact execInTx_post htr

end Executed

end MigrationSafety.Safety.Executor
