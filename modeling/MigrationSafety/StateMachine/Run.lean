import MigrationSafety.StateMachine.Handlers

/-! # The run loop

`Run` loads the record of a migration and then, until its own state is terminal, loads it again, runs
the handler of that state and saves the next state. Between two loads it does not compare its state
with the stored one.

The loop is cut at its control points: `body` is the program from one control point to the next. -/

namespace MigrationSafety.StateMachine.Run

open MigrationSafety.Lib.Effects MigrationSafety.Plan.Validate
open MigrationSafety.StateMachine.Signature MigrationSafety.StateMachine.Handlers

/-- Where a run is between two stretches of work. -/
inductive Pt
  | start
  | loop (cur : State)
  | batch (r : Record) (pr : Progress)

/-- The state whose handler is at work. -/
def Pt.state : Pt → Option State
  | start => none
  | loop cur => some cur
  | batch .. => some .backfilling

/-- How a run ends. -/
inductive RunError
  | load
  | cancelled
  | noHandler (cur : State)
  | reload
  | noTransition (cur : State)
  | handler (cur : State) (e : HandlerError)
  | persist (src dst : State)

/-- The end of a stretch: another control point, or the end of the run. -/
inductive Exit
  | goto (pt : Pt)
  | stop (r : Except RunError Unit)

/-- Where a result leads: its own choice, or else the happy path. -/
def Result.target (cur : State) (res : Result) : Option State := res.next.orElse fun _ => next cur

/-- The state that is persisted after the handler of `cur`, unless it failed. -/
def persistedNext (cur : State) : Outcome → Option State
  | .error _ => none
  | .ok res => Result.target cur res

/-- The pause between two steps. -/
def afterSave (delay : ℤ) (dst : State) : Code Exit := do
  if 0 < delay then
    if ← ask (.wait delay) then pure (.stop (.error .cancelled)) else pure (.goto (.loop dst))
  else pure (.goto (.loop dst))

/-- Persist a result and go on. -/
def save (delay : ℤ) (id : Id) (cur dst : State) (checkpoint : Checkpoint) : Code Exit := do
  if ← ask (.saveState id cur dst checkpoint (isTerminal dst)) then afterSave delay dst
  else pure (.stop (.error (.persist cur dst)))

/-- What follows the handler of `cur`. -/
def finish (delay : ℤ) (id : Id) (cur : State) : Outcome → Code Exit
  | .error e => pure (.stop (.error (.handler cur e)))
  | .ok res =>
    match Result.target cur res with
    | none => pure (.stop (.error (.noTransition cur)))
    | some dst => save delay id cur dst res.checkpoint

/-- The table of handlers. That of `Backfilling` is the loop of `batch`, unless there is nothing to
backfill. -/
def handlers (delay : ℤ) : State → Option (Record → Code Outcome)
  | .pending => some fun _ => noop .pending
  | .expanding => some expand
  | .backfilling => some fun _ => pure skipped
  | .verifying => some verify
  | .canary => some (canary delay)
  | .cutover => some cutover
  | .contracting => some contract
  | .rollingBack => some rollback
  | .done => none
  | .rolledBack => none

/-- From the reloaded record to the next control point. -/
def dispatch (delay : ℤ) (id : Id) (cur : State) (h : Record → Code Outcome) (r : Record) :
    Code Exit :=
  if cur = .backfilling ∧ r.plan.backfill.column ≠ "" then do
    match ← backfillEnter r with
    | .error e => finish delay id cur (.error e)
    | .ok pr => pure (.goto (.batch r pr))
  else do
    let out ← h r
    finish delay id cur out

/-- One pass of the loop. -/
def pass (delay : ℤ) (id : Id) (cur : State) : Code Exit := do
  if ← ask .ctxDone then pure (.stop (.error .cancelled))
  else
    match handlers delay cur with
    | none => pure (.stop (.error (.noHandler cur)))
    | some h => do
      match ← ask (.load id) with
      | none => pure (.stop (.error .reload))
      | some r => dispatch delay id cur h r

/-- **`Run`, from one control point to the next.** -/
def body (delay : ℤ) (id : Id) : Pt → Code Exit
  | .start => do
    match ← ask (.load id) with
    | none => pure (.stop (.error .load))
    | some r => pure (.goto (.loop r.state))
  | .loop cur => if isTerminal cur then pure (.stop (.ok ())) else pass delay id cur
  | .batch r pr => do
    match ← backfillTurn r pr with
    | .again pr' => pure (.goto (.batch r pr'))
    | .stop out => finish delay id .backfilling out

end MigrationSafety.StateMachine.Run
