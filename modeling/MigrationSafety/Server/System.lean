import MigrationSafety.Server.Migrations
import MigrationSafety.Lib.Paths
import MigrationSafety.StateMachine.Run

/-! # The engine

The engine at work: the store, the queue of the worker pool, `n` workers each inside at most one
`Run`, and the one throttle field they share. A step is a request, a move of the queue, one answer to
the operation a worker is waiting on, or a crash and restart. The store answers for itself; the clock
and the target database answer what they like (`Env`), and a write to the store may fail with or
without having taken effect.

`log` is a history variable: every operation with its answer, and the run that asked for it. -/

namespace MigrationSafety.Server.System

open MigrationSafety.Lib.Effects MigrationSafety.Lib.Paths
open MigrationSafety.Plan.Validate MigrationSafety.Safety.Throttle
open MigrationSafety.StateMachine.Signature MigrationSafety.StateMachine.Run
open MigrationSafety.Server.Migrations

/-- A worker inside `Run`: the last control point it passed, and what remains until the next. -/
structure Task where
  id : Id
  pt : Pt
  code : Code Exit

/-- A worker's task at a control point. -/
def taskAt (delay : ℤ) (id : Id) (pt : Pt) : Task := ⟨id, pt, body delay id pt⟩

/-- An operation that has been answered, and who asked. -/
structure Entry (n : ℕ) where
  worker : Fin n
  id : Id
  state : Option State
  event : Event engine

structure Engine (n : ℕ) where
  store : Store
  /-- Ids `resumeAll` has yet to submit; until then the server does not listen. -/
  resuming : List Id
  /-- Requests blocked in `Submit`. -/
  blocked : List Id
  /-- The queue of the pool. -/
  jobs : List Id
  workers : Fin n → Option Task
  /-- The controllers that have been made. -/
  throttles : ℕ → AdaptiveThrottle
  throttleCount : ℕ
  /-- The field `adaptiveThrottle` of the runner. -/
  throttle : ℕ
  log : List (Entry n)

/-- How the surroundings answer: `fails` makes a call to the store fail, and `landed` says that a
failed write has taken effect all the same. -/
structure Env where
  ans : (op : Op) → op.Ret
  fails : Bool := false
  landed : Bool := false

/-- The answers of surroundings in which everything succeeds, on an empty table and with one service,
which is ready. -/
def healthyAns : (op : Op) → op.Ret
  | .load _ => none
  | .saveState .. | .saveCheckpoint .. | .logDDLExecution .. | .logBackfillProgress ..
  | .logCanaryObservation .. => true
  | .serviceCounts _ => some (1, 1)
  | .ctxDone | .wait _ => false
  | .sleep _ => ()
  | .lockWaiting => some 0
  | .blockingQuery => true
  | .replicationLag => some (Lib.Binary64.Float64.ofInt 0)
  | .connections => some (1, 100)
  | .deadTuples => some 0
  | .beginTx | .setLocal _ | .txExec _ | .commit _ | .setTimeout _ | .poolExec _
  | .terminateBackends => true
  | .columnExists .. => some false
  | .countRemaining .. | .updateBatch .. | .countNulls .. => some 0
  | .maxId .. => some 0
  | .sampleParity .. => some (0, 0)
  | .fullParity .. => some (0, 0, 0)
  | .newThrottle _ | .throttleRef => 0
  | .adjustThrottle .. => ()
  | .isCircuitTripped => false
  | .getBatchSize | .getThrottleMs => 0

def Env.healthy : Env := { ans := healthyAns }

inductive Act (n : ℕ)
  /-- `POST /plans`; the commit of the new migration may go unreported. -/
  | apply (p : MigrationPlan) (reported : Bool)
  /-- The `i`-th blocked `Submit` goes through. -/
  | send (i : ℕ)
  /-- `resumeAll` submits the next id. -/
  | resume
  | pickup (w : Fin n)
  | work (w : Fin n) (env : Env)
  /-- `POST /migrations/{id}/abort`. -/
  | abort (id : Id)
  /-- The process dies and starts again. -/
  | restart

variable {n : ℕ}

namespace Engine

def init (n : ℕ) : Engine n where
  store := Store.empty
  resuming := []
  blocked := []
  jobs := []
  workers := fun _ => none
  throttles := fun _ => newAdaptiveThrottle defaultBackfillConfig
  throttleCount := 1
  throttle := 0
  log := []

/-! ### Answers -/

/-- The controller in the runner's field. -/
def current (e : Engine n) : AdaptiveThrottle := e.throttles e.throttle

/-- The answer to an operation. -/
def answer (e : Engine n) (env : Env) : (op : Op) → op.Ret
  | .load id => if env.fails then none else e.store.load id
  | .saveState id .. => !env.fails && (e.store.rows id).isSome
  | .saveCheckpoint id .. => !env.fails && (e.store.rows id).isSome
  | .newThrottle _ => e.throttleCount
  | .throttleRef => e.throttle
  | .adjustThrottle .. => ()
  | .isCircuitTripped => e.current.circuitTripped
  | .getBatchSize => e.current.currentBatchSize
  | .getThrottleMs => e.current.currentThrottleMs
  | op => env.ans op

/-- A write to the store. -/
def write (e : Engine n) (env : Env) (s : Store) : Engine n :=
  if env.fails && !env.landed then e else { e with store := s }

/-- What an operation does to the store and the throttle. -/
def effect (e : Engine n) (env : Env) : Op → Engine n
  | .saveState id src dst checkpoint terminal =>
    e.write env (e.store.saveState id src dst checkpoint terminal)
  | .saveCheckpoint id state checkpoint =>
    e.write env (e.store.saveCheckpoint id state checkpoint)
  | .newThrottle config =>
    { e with
      throttles := Function.update e.throttles e.throttleCount (newAdaptiveThrottle config)
      throttleCount := e.throttleCount + 1
      throttle := e.throttleCount }
  | .adjustThrottle ref m =>
    { e with throttles := Function.update e.throttles ref ((e.throttles ref).update m) }
  | _ => e

/-! ### Steps -/

def setWorker (e : Engine n) (w : Fin n) (t : Option Task) : Engine n :=
  { e with workers := Function.update e.workers w t }

/-- `POST /plans`: validate, create, submit. -/
def apply (e : Engine n) (p : MigrationPlan) (reported : Bool) : Engine n :=
  match check p with
  | .error _ => e
  | .ok vp =>
    let c := e.store.createMigration vp
    { e with store := c.2, blocked := if reported then e.blocked ++ [c.1] else e.blocked }

/-- The operation a worker waits on is answered. -/
def serve (e : Engine n) (w : Fin n) (t : Task) (env : Env) (op : Op)
    (k : op.Ret → Code Exit) : Engine n :=
  { (e.effect env op).setWorker w (some { t with code := k (e.answer env op) }) with
    log := e.log ++ [⟨w, t.id, t.pt.state, ⟨op, e.answer env op⟩⟩] }

/-- One move of a worker. -/
def work (delay : ℤ) (e : Engine n) (w : Fin n) (env : Env) : Option (Engine n) :=
  match e.workers w with
  | none => none
  | some t =>
    match t.code with
    | .ret (.goto pt) => some (e.setWorker w (some (taskAt delay t.id pt)))
    | .ret (.stop _) => some (e.setWorker w none)
    | .call op k => some (e.serve w t env op k)

/-- The process starts on the store the last one left. -/
def restart (e : Engine n) : Engine n :=
  { e with
    resuming := e.store.findResumable
    blocked := []
    jobs := []
    workers := fun _ => none
    throttles :=
      Function.update e.throttles e.throttleCount (newAdaptiveThrottle defaultBackfillConfig)
    throttleCount := e.throttleCount + 1
    throttle := e.throttleCount }

/-- **One step of the engine**, with the step delay of the runner. -/
def step (delay : ℤ) (e : Engine n) : Act n → Option (Engine n)
  | .apply p reported => if e.resuming = [] then some (e.apply p reported) else none
  | .send i =>
    match e.blocked[i]? with
    | none => none
    | some id =>
      if e.jobs.length < 2 * n then
        some { e with blocked := e.blocked.eraseIdx i, jobs := e.jobs ++ [id] }
      else none
  | .resume =>
    match e.resuming with
    | [] => none
    | id :: ids =>
      if e.jobs.length < 2 * n then some { e with resuming := ids, jobs := e.jobs ++ [id] }
      else none
  | .pickup w =>
    match e.workers w, e.jobs with
    | none, id :: ids => some { e.setWorker w (some (taskAt delay id .start)) with jobs := ids }
    | _, _ => none
  | .work w env => e.work delay w env
  | .abort id => some { e with store := e.store.updateState id .rolledBack true }
  | .restart => some e.restart

end Engine

/-- `POST /plans`, and a worker takes the job. -/
def submit (p : MigrationPlan) (w : Fin n) : List (Act n) := [.apply p true, .send 0, .pickup w]

/-- The next moves of a worker, while everything succeeds. -/
def drive (w : Fin n) (k : ℕ) : List (Act n) := List.replicate k (.work w .healthy)

/-- The process dies and starts again, and a worker takes up the first migration. -/
def crash (w : Fin n) : List (Act n) := [.restart, .resume, .pickup w]

/-- The runs of the engine all of whose steps meet `ok`. -/
abbrev Runs (delay : ℤ) (ok : Engine n → Act n → Prop) (e : Engine n) (as : List (Act n))
    (e' : Engine n) : Prop :=
  Path (Guarded (Engine.step delay) ok) e as e'

end MigrationSafety.Server.System
