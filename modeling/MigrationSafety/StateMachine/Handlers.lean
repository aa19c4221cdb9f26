import MigrationSafety.Safety.Executor
import MigrationSafety.Sql.Rows

/-! # The handlers

The work of each state, as programs. A handler returns a checkpoint to persist and, where it diverts
the run, the next state; or an error, which leaves the migration in its state.

Telemetry, log lines and the text of an event's detail are left out, with what only they use. The
backfill loop is the program of one turn; the run repeats it. -/

namespace MigrationSafety.StateMachine.Handlers

open MigrationSafety.Lib.Effects MigrationSafety.Lib.Binary64
open MigrationSafety.Plan.Validate MigrationSafety.Safety.Throttle MigrationSafety.Safety.Executor
open MigrationSafety.StateMachine.Signature MigrationSafety.Sql.Rows

/-! ### Results -/

/-- A checkpoint to persist and, optionally, a state that overrides the happy path. -/
structure Result where
  checkpoint : Checkpoint
  next : Option State := none

/-- Why a gate does not let the migration proceed. -/
inductive Refusal
  | nullsRemain (nulls : ℕ) (col : String)
  | parityBelow (parity threshold : Float64) (matching sampled : ℕ)
  | lagBeforeCanary (lag : Float64) (max : ℤ)
  | lagAfterWait (lag : Float64)
  | p99Above (p99 : Float64) (max : ℤ)
  | errorRateAbove (errPct max : Float64)
  | servicesNotReady (notReady : ℤ)
  | cutoverParity (parity threshold : Float64) (nulls drifted total : ℕ)

inductive HandlerError
  | cancelled
  | expandStmt (i : ℕ) (stmt : String) (err : DDLError)
  | contractStmt (i : ℕ) (stmt : String) (err : DDLError)
  | rollbackStmt (i : ℕ) (stmt : String) (attempts : ℕ) (err : DDLError)
  | countRemaining
  | backfillBatch
  | getLastId
  | checkpoint
  | verifyNullCount
  | verifyParity
  | canaryCheckpoint
  | cutoverParity
  | refused (why : Refusal)
  | breach (step : ℤ) (why : Refusal) (onFailure : FailureAction)
  | aborted (why : Refusal) (onFailure : FailureAction)

abbrev Outcome := Except HandlerError Result

/-! ### Texts -/

/-- `%.df`. -/
def fixed (d : ℕ) (x : Float64) : String :=
  let n := nearest (x.val * 10 ^ d)
  let digits := toString (n.natAbs % 10 ^ d)
  (if n < 0 then "-" else "") ++ toString (n.natAbs / 10 ^ d) ++
    if d = 0 then "" else "." ++ String.ofList (List.replicate (d - digits.length) '0') ++ digits

def Refusal.text : Refusal → String
  | nullsRemain n col => "verify failed: " ++ toString n ++ " rows still have NULL " ++ col
  | parityBelow p t m s => "verify failed: parity " ++ fixed 5 p ++ " < threshold " ++ fixed 5 t ++
      " (" ++ toString m ++ "/" ++ toString s ++ " sampled)"
  | lagBeforeCanary lag max => "replication lag too high before canary: " ++ fixed 0 lag ++
      "ms (max: " ++ toString max ++ "ms)"
  | lagAfterWait lag => "replication lag still too high after wait: " ++ fixed 0 lag ++ "ms"
  | p99Above p99 max => "p99 " ++ fixed 0 p99 ++ "ms > " ++ toString max ++ "ms"
  | errorRateAbove e max => "error-rate " ++ fixed 2 e ++ "% > " ++ fixed 2 max ++ "%"
  | servicesNotReady n => "cutover blocked: " ++ toString n ++ " services not ready"
  | cutoverParity p t nulls drifted total => "cutover gate failed: parity " ++ fixed 5 p ++ " < " ++
      fixed 5 t ++ " (" ++ toString nulls ++ " nulls, " ++ toString drifted ++ "/" ++
      toString total ++ " drifted)"

/-! ### Pending -/

def noop (name : State) : Code Outcome :=
  pure (.ok { checkpoint := [("step", .text name.text)] })

/-! ### Expand and contract -/

/-- The statements in order, each behind the executor and logged, up to the first failure. -/
def execEach (fail : ℕ → String → DDLError → HandlerError) (id : Id) :
    ℕ → List String → Code (Except HandlerError Unit)
  | _, [] => pure (.ok ())
  | i, stmt :: stmts => do
    match ← execDDL stmt with
    | .error e =>
      let _ ← ask (.logDDLExecution id stmt (some e))
      pure (.error (fail i stmt e))
    | .ok _ =>
      let _ ← ask (.logDDLExecution id stmt none)
      execEach fail id (i + 1) stmts

/-- Run the statements, then report how many there were. -/
def runStmts (fail : ℕ → String → DDLError → HandlerError) (key : String) (id : Id)
    (stmts : List String) : Code Outcome := do
  match ← execEach fail id 0 stmts with
  | .error e => pure (.error e)
  | .ok _ => pure (.ok { checkpoint := [(key, .int stmts.length)] })

def expand (r : Record) : Code Outcome := runStmts .expandStmt "expanded" r.id r.plan.expand

def contract (r : Record) : Code Outcome := runStmts .contractStmt "contracted" r.id r.plan.contract

/-! ### Rollback -/

def tryRollback (id : Id) (stmt : String) : Code (Except DDLError Unit) := do
  match ← execDDL stmt with
  | .error e =>
    let _ ← ask (.logDDLExecution id stmt (some e))
    pure (.error e)
  | .ok _ =>
    let _ ← ask (.logDDLExecution id stmt none)
    pure (.ok ())

/-- One statement, with `left` retries left and exponential backoff. -/
def rollbackStmt (id : Id) (stmt : String) : ℕ → Code (Except DDLError Unit)
  | 0 => tryRollback id stmt
  | left + 1 => do
    match ← tryRollback id stmt with
    | .ok _ => pure (.ok ())
    | .error _ =>
      let _ ← ask (.sleep (retryDelay * 2 ^ (maxRetries - 2 - left)))
      rollbackStmt id stmt left

def rollbackStmts (id : Id) : ℕ → List String → Code (Except HandlerError Unit)
  | _, [] => pure (.ok ())
  | i, stmt :: stmts => do
    match ← rollbackStmt id stmt (maxRetries - 1) with
    | .error e => pure (.error (.rollbackStmt i stmt maxRetries e))
    | .ok _ => rollbackStmts id (i + 1) stmts

/-- `verifyRollback` only logs what it finds. -/
def verifyRollback (table : String) : List String → Code Unit
  | [] => pure ()
  | col :: cols => do
    let _ ← ask (.columnExists table col)
    verifyRollback table cols

def rollback (r : Record) : Code Outcome := do
  let _ ← ask .terminateBackends
  match ← rollbackStmts r.id 0 r.plan.rollback with
  | .error e => pure (.error e)
  | .ok _ =>
    verifyRollback r.plan.table r.plan.dropColumns
    pure (.ok { checkpoint := [("rolled_back", .int r.plan.rollback.length)] })

/-! ### Backfill -/

/-- The variables of the backfill loop. -/
structure Progress where
  lastID : ℤ
  done : ℤ
  batchNum : ℤ

def Progress.checkpoint (pr : Progress) : Checkpoint :=
  [("last_id", .int pr.lastID), ("rows_done", .int pr.done), ("batch_num", .int pr.batchNum)]

/-- The controller's configuration for a plan. -/
def backfillConfig (p : MigrationPlan) : BackfillConfig where
  initialBatchSize := if p.backfill.batchSize ≤ 0 then 1000 else p.backfill.batchSize
  minBatchSize := 100
  maxBatchSize := 50000
  initialThrottleMs := p.backfill.throttleMs
  minThrottleMs := 0
  maxThrottleMs := 5000

def batchStmt (p : MigrationPlan) : BatchStmt :=
  if p.backfill.multiSQL ≠ "" then .multi p.table p.backfill.multiSQL p.backfill.column
  else .single p.table p.backfill.column p.backfill.sourceExpr

/-- Up to the loop: a fresh controller, and where the last run stopped. -/
def backfillEnter (r : Record) : Code (Except HandlerError Progress) := do
  let _ ← ask (.newThrottle (backfillConfig r.plan))
  let lastID := r.checkpoint.int64 "last_id"
  let done := r.checkpoint.int64 "rows_done"
  match ← ask (.countRemaining r.plan.table r.plan.backfill.column lastID) with
  | none => pure (.error .countRemaining)
  | some _ => pure (.ok ⟨lastID, done, r.checkpoint.int64 "batch_num"⟩)

/-- `UpdateHealth` on the controller the field holds when it is called. -/
def updateHealth : Code Unit := do
  let ref ← ask .throttleRef
  match ← collectHealthMetrics with
  | none => pure ()
  | some m => ask (.adjustThrottle ref m)

/-- What a turn of the loop comes to. -/
inductive Turn
  | again (pr : Progress)
  | stop (out : Outcome)

/-- Progress, checkpoint and pause after a batch of `n` rows. -/
def backfillRecord (r : Record) (n : ℕ) (pr : Progress) : Code Turn := do
  let health ← collectHealthMetrics
  let throttleMs ← ask .getThrottleMs
  let _ ← ask (.logBackfillProgress r.id pr.batchNum n throttleMs health)
  if ← ask (.saveCheckpoint r.id .backfilling pr.checkpoint) then
    let pause ← ask .getThrottleMs
    if 0 < wrap64 (pause * millisecond) then
      if ← ask (.wait (wrap64 (pause * millisecond))) then pure (.stop (.error .cancelled))
      else pure (.again pr)
    else pure (.again pr)
  else pure (.stop (.error .checkpoint))

/-- After the batch UPDATE: the new cursor, if it has moved. -/
def backfillAdvance (r : Record) (n : ℕ) (pr : Progress) : Code Turn := do
  match ← ask (.maxId r.plan.table r.plan.backfill.column pr.lastID) with
  | none => pure (.stop (.error .getLastId))
  | some newLastID =>
    if newLastID ≤ pr.lastID then pure (.stop (.ok { checkpoint := pr.checkpoint }))
    else backfillRecord r n ⟨newLastID, pr.done + n, pr.batchNum + 1⟩

/-- **One turn of the backfill loop.** A tripped breaker pauses it. -/
def backfillTurn (r : Record) (pr : Progress) : Code Turn := do
  if ← ask .ctxDone then pure (.stop (.error .cancelled))
  else
    if ← ask .isCircuitTripped then
      let _ ← ask (.sleep (5 * second))
      pure (.again pr)
    else
      updateHealth
      let currentBatch ← ask .getBatchSize
      match ← ask (.updateBatch (batchStmt r.plan) pr.lastID currentBatch) with
      | none => pure (.stop (.error .backfillBatch))
      | some n =>
        if n = 0 then pure (.stop (.ok { checkpoint := pr.checkpoint }))
        else backfillAdvance r n pr

def skipped : Outcome := .ok { checkpoint := [("skipped", .text "no backfill column")] }

/-! ### Verify -/

/-- The larger of the two parity thresholds. -/
def threshold (p : MigrationPlan) : Float64 :=
  if p.verify.parityThreshold.val < p.slo.minParity.val then p.slo.minParity
  else p.verify.parityThreshold

/-- Everything, if the rate is unspecified or out of range. -/
def sampleRate (p : MigrationPlan) : Float64 :=
  if p.verify.sampleRate.val ≤ 0 ∨ 1 < p.verify.sampleRate.val then Float64.ofInt 1
  else p.verify.sampleRate

def verifySample (r : Record) : Code Outcome := do
  let p := r.plan
  match ← ask (.sampleParity p.table p.backfill.column p.backfill.sourceExpr (sampleRate p)) with
  | none => pure (.error .verifyParity)
  | some (matching, sampled) =>
    let parity := ratio matching sampled
    if parity.val < (threshold p).val then
      pure (.error (.refused (.parityBelow parity (threshold p) matching sampled)))
    else pure (.ok { checkpoint := [("parity", .float parity), ("sampled", .int sampled)] })

/-- First no NULL may be left, then a sample must reach the threshold. -/
def verify (r : Record) : Code Outcome := do
  let p := r.plan
  if p.backfill.column = "" then pure skipped
  else
    match ← ask (.countNulls p.table p.backfill.column) with
    | none => pure (.error .verifyNullCount)
    | some nulls =>
      if 0 < nulls then pure (.error (.refused (.nullsRemain nulls p.backfill.column)))
      else verifySample r

/-! ### Canary -/

/-- A healthy baseline, unless the chaos knob forces a breach. -/
def observeCanary (p : MigrationPlan) (step : ℤ) : CanaryObs :=
  if 0 < p.chaos.failCanaryAtStep ∧ p.chaos.failCanaryAtStep ≤ step then
    { p99Ms := ((Float64.ofInt p.slo.maxP99LatencyMs).mul (Float64.ofInt 2)).add (Float64.ofInt 1)
      errPct := (p.slo.maxErrorRatePct.mul (Float64.ofInt 2)).add (Float64.ofInt 1) }
  else
    { p99Ms := (Float64.ofInt p.slo.maxP99LatencyMs).mul (Float64.ofRat (6 / 10))
      errPct := p.slo.maxErrorRatePct.mul (Float64.ofRat (3 / 10)) }

/-- The configured SLO an observation violates, if any. -/
def sloBreached (obs : CanaryObs) (slo : SLO) : Option Refusal :=
  if 0 < slo.maxP99LatencyMs ∧ (Float64.ofInt slo.maxP99LatencyMs).val < obs.p99Ms.val then
    some (.p99Above obs.p99Ms slo.maxP99LatencyMs)
  else if 0 < slo.maxErrorRatePct.val ∧ slo.maxErrorRatePct.val < obs.errPct.val then
    some (.errorRateAbove obs.errPct slo.maxErrorRatePct)
  else none

/-- `float64(slo.MaxP99LatencyMs) * k`. -/
def lagLimit (slo : SLO) (k : ℤ) : Float64 :=
  (Float64.ofInt slo.maxP99LatencyMs).mul (Float64.ofInt k)

/-- The lag check before a step: at twice the limit wait once, at three times give up. A check that
fails is skipped. -/
def preflight (slo : SLO) : Code (Option Refusal) := do
  match ← checkReplicationLag with
  | none => pure none
  | some lag =>
    if (lagLimit slo 2).val < lag.val then
      let _ ← ask (.sleep (5 * second))
      match ← checkReplicationLag with
      | none => pure none
      | some lag' =>
        if (lagLimit slo 3).val < lag'.val then pure (some (.lagAfterWait lag')) else pure none
    else pure none

/-- A healthy step is recorded, then the canary bakes for the step delay. -/
def canaryHealthy (delay : ℤ) (r : Record) (step : ℤ) : Code (Option Outcome) := do
  if ← ask (.saveCheckpoint r.id .canary [("canary_pct", .int step)]) then
    if 0 < delay then
      if ← ask (.wait delay) then pure (some (.error .cancelled)) else pure none
    else pure none
  else pure (some (.error .canaryCheckpoint))

def canaryBreached (r : Record) (step : ℤ) (obs : CanaryObs) (why : Refusal) : Code Outcome := do
  let _ ← ask (.logCanaryObservation r.id step obs true)
  if r.plan.onFailure = .rollback then
    pure (.ok { checkpoint := [("canary_pct", .int step), ("slo_breach", .text why.text)]
                next := some .rollingBack })
  else pure (.error (.breach step why r.plan.onFailure))

/-- The observation of a step is logged before it is judged. -/
def canaryObserve (delay : ℤ) (r : Record) (step : ℤ) : Code (Option Outcome) := do
  let obs := observeCanary r.plan step
  let _ ← ask (.logCanaryObservation r.id step obs false)
  match sloBreached obs r.plan.slo with
  | some why => do
    let out ← canaryBreached r step obs why
    pure (some out)
  | none => canaryHealthy delay r step

/-- One step: `none` lets the canary go on. -/
def canaryStep (delay : ℤ) (r : Record) (step : ℤ) : Code (Option Outcome) := do
  if ← ask .ctxDone then pure (some (.error .cancelled))
  else
    match ← preflight r.plan.slo with
    | some why => pure (some (.error (.refused why)))
    | none => canaryObserve delay r step

def canarySteps (delay : ℤ) (r : Record) : List ℤ → Code Outcome
  | [] => pure (.ok { checkpoint := [("canary_pct", .int 100)] })
  | step :: steps => do
    match ← canaryStep delay r step with
    | some out => pure out
    | none => canarySteps delay r steps

/-- The lag gate before the first step, then the steps. -/
def canary (delay : ℤ) (r : Record) : Code Outcome := do
  match ← checkReplicationLag with
  | none => canarySteps delay r r.plan.canary.steps
  | some lag =>
    if (Float64.ofInt r.plan.slo.maxP99LatencyMs).val < lag.val then
      pure (.error (.refused (.lagBeforeCanary lag r.plan.slo.maxP99LatencyMs)))
    else canarySteps delay r r.plan.canary.steps

/-! ### Cutover -/

/-- `AllServicesReady`: are there services, and are all of them compatible? -/
def allServicesReady (counts : ℕ × ℕ) : Bool := counts.1 = counts.2 && 0 < counts.1

/-- The service gate: not ready twice in a row, five seconds apart. A check that fails is skipped. -/
def serviceGate (id : Id) : Code (Option Refusal) := do
  match ← ask (.serviceCounts id) with
  | none => pure none
  | some counts =>
    if allServicesReady counts then pure none
    else
      let _ ← ask (.sleep (5 * second))
      match ← ask (.serviceCounts id) with
      | none => pure none
      | some counts' =>
        if allServicesReady counts' then pure none
        else pure (some (.servicesNotReady (counts'.1 - counts'.2)))

/-- A refusal at cutover follows `on_failure`. -/
def cutoverAbort (p : MigrationPlan) (checkpoint : Checkpoint) (why : Refusal) : Outcome :=
  if p.onFailure = .rollback then .ok { checkpoint := checkpoint, next := some .rollingBack }
  else .error (.aborted why p.onFailure)

/-- The parity gate over the whole table. -/
def cutoverGate (r : Record) : Code Outcome := do
  let p := r.plan
  match ← ask (.fullParity p.table p.backfill.column p.backfill.sourceExpr) with
  | none => pure (.error .cutoverParity)
  | some (total, nulls, drifted) =>
    let parity := parity total drifted
    if 0 < nulls ∨ parity.val < (threshold p).val then
      let why := Refusal.cutoverParity parity (threshold p) nulls drifted total
      pure (cutoverAbort p [("cutover_parity", .float parity), ("cutover_abort", .text why.text)] why)
    else
      pure (.ok { checkpoint := [("cutover_parity", .float parity), ("rows", .int total)] })

/-- **The point of no return.** -/
def cutover (r : Record) : Code Outcome := do
  match ← serviceGate r.id with
  | some why =>
    let notReady := match why with
      | .servicesNotReady n => n
      | _ => 0
    pure (cutoverAbort r.plan
      [("cutover_abort", .text why.text), ("services_not_ready", .int notReady)] why)
  | none =>
    if r.plan.backfill.column = "" then
      pure (.ok { checkpoint := [("step", .text State.cutover.text)] })
    else cutoverGate r

end MigrationSafety.StateMachine.Handlers
