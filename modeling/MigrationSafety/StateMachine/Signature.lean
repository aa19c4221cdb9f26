import MigrationSafety.Lib.Effects
import MigrationSafety.Plan.Validate
import MigrationSafety.Safety.Throttle

/-! # States, records and operations

The nodes of the migration lifecycle with their happy-path transitions (`next`), the record a run
loads, and the operations a run asks its surroundings for: the engine's own store, the clock, the
target database, and the throttle of the runner. The handlers are programs over this signature.

`applied` and `attempted` are the statements a sequence of operations has executed successfully, and
has at least sent. -/

namespace MigrationSafety.StateMachine.Signature

open MigrationSafety.Lib.Effects MigrationSafety.Lib.Binary64
open MigrationSafety.Plan.Validate MigrationSafety.Safety.Throttle

/-! ### The lifecycle -/

/-- A node in the migration lifecycle. -/
inductive State
  | pending
  | expanding
  | backfilling
  | verifying
  | canary
  | cutover
  | contracting
  | done
  | rollingBack
  | rolledBack
deriving DecidableEq

/-- The happy-path transition table. -/
def next : State → Option State
  | .pending => some .expanding
  | .expanding => some .backfilling
  | .backfilling => some .verifying
  | .verifying => some .canary
  | .canary => some .cutover
  | .cutover => some .contracting
  | .contracting => some .done
  | .rollingBack => some .rolledBack
  | .done => none
  | .rolledBack => none

/-- Does the state end the workflow? -/
def isTerminal (s : State) : Bool := s = .done || s = .rolledBack

theorem next_isSome {s : State} (h : isTerminal s = false) : ∃ t, next s = some t := by
  cases s <;> first | exact ⟨_, rfl⟩ | cases h

def State.text : State → String
  | pending => "Pending"
  | expanding => "Expanding"
  | backfilling => "Backfilling"
  | verifying => "Verifying"
  | canary => "Canary"
  | cutover => "Cutover"
  | contracting => "Contracting"
  | done => "Done"
  | rollingBack => "RollingBack"
  | rolledBack => "RolledBack"

/-! ### Records -/

/-- The key of a migration. -/
abbrev Id := ℕ

/-- A value of a checkpoint: an `int`, a `float64` or a string. -/
inductive Json
  | int (n : ℤ)
  | float (x : Float64)
  | text (s : String)
deriving DecidableEq

abbrev Checkpoint := List (String × Json)

/-- What decoding makes of a stored value: every number is a `float64`. -/
def Json.decode : Json → Json
  | int n => float (Float64.ofInt n)
  | v => v

def Checkpoint.decode (c : Checkpoint) : Checkpoint := c.map fun kv => (kv.1, kv.2.decode)

/-- `int64(v)`; outside the range of the type, the value amd64 gives. -/
def toInt64 (x : Float64) : ℤ :=
  let n := if 0 ≤ x.val then ⌊x.val⌋ else ⌈x.val⌉
  if -2 ^ 63 ≤ n ∧ n < 2 ^ 63 then n else -2 ^ 63

/-- `rec.Checkpoint[key].(float64)` as an integer, and 0 where there is no number. -/
def Checkpoint.int64 (c : Checkpoint) (key : String) : ℤ :=
  match c.lookup key with
  | some (.float x) => toInt64 x
  | _ => 0

/-- The persisted state of a migration, as `Load` returns it. -/
structure Record where
  id : Id
  plan : MigrationPlan
  state : State
  checkpoint : Checkpoint := []
  terminal : Bool := false
  updatedAt : ℕ := 0

/-! ### Operations -/

/-- An SLO observation of a canary step. -/
structure CanaryObs where
  p99Ms : Float64
  errPct : Float64
deriving DecidableEq

/-- Why the DDL executor gave up. -/
inductive DDLError
  | lockCheckFailed
  | lockQueueBlocked (waiting : ℤ)
  | replicationCheckFailed
  | replicationLagTooHigh (lag : Float64)
  | beginTx
  | setLockTimeout
  | setStatementTimeout
  | execute
  | commit
  | safetyCheckAfter (attempts : ℕ)
  | executeConcurrently
  | attemptsExhausted (attempts : ℕ)
deriving DecidableEq

/-- The batch UPDATE, in the two forms the backfill handler writes it. -/
inductive BatchStmt
  | single (table col expr : String)
  | multi (table multiSQL col : String)
deriving DecidableEq

/-- The rows of a batch: after the cursor `$1`, at most `$2`. -/
def selectBatch (table col : String) : String :=
  "\n\t\t\t\tWHERE id IN (\n\t\t\t\t\tSELECT id FROM " ++ table ++ " \n\t\t\t\t\tWHERE " ++ col ++
    " IS NULL \n\t\t\t\t\t  AND id > $1\n\t\t\t\t\tORDER BY id \n\t\t\t\t\tLIMIT $2\n\t\t\t\t)"

/-- The text of a batch UPDATE. -/
def BatchStmt.text : BatchStmt → String
  | .single table col expr => "\n\t\t\t\tUPDATE " ++ table ++ " SET " ++ col ++ " = (" ++ expr ++ ")" ++
      selectBatch table col
  | .multi table multiSQL col => "\n\t\t\t\tUPDATE " ++ table ++ " SET " ++ multiSQL ++
      selectBatch table col

/-- The query of `fullTableParity`. -/
def fullParitySQL (table col expr : String) : String :=
  "SELECT count(*) AS total,\n\t\t        count(*) FILTER (WHERE " ++ col ++
    " IS NULL) AS nulls,\n\t\t        count(*) FILTER (WHERE " ++ col ++ " IS DISTINCT FROM (" ++
    expr ++ ")) AS drifted\n\t\t   FROM " ++ table

/-- What a run asks for. -/
inductive Op
  /- the engine's store -/
  | load (id : Id)
  | saveState (id : Id) (src dst : State) (checkpoint : Checkpoint) (terminal : Bool)
  | saveCheckpoint (id : Id) (state : State) (checkpoint : Checkpoint)
  | logDDLExecution (id : Id) (stmt : String) (err : Option DDLError)
  | logBackfillProgress (id : Id) (batchNum rows throttleMs : ℤ) (health : Option DBHealthMetrics)
  | logCanaryObservation (id : Id) (step : ℤ) (obs : CanaryObs) (breached : Bool)
  | serviceCounts (id : Id)
  /- the clock; durations are in nanoseconds -/
  | ctxDone
  | wait (duration : ℤ)
  | sleep (duration : ℤ)
  /- health of the target database -/
  | lockWaiting
  | blockingQuery
  | replicationLag
  | connections
  | deadTuples
  /- statements on the target database -/
  | beginTx
  | setLocal (setting : String)
  | txExec (stmt : String)
  | commit (stmt : String)
  | setTimeout (setting : String)
  | poolExec (stmt : String)
  | terminateBackends
  | columnExists (table col : String)
  /- the backfilled column -/
  | countRemaining (table col : String) (lastID : ℤ)
  | updateBatch (stmt : BatchStmt) (lastID limit : ℤ)
  | maxId (table col : String) (lastID : ℤ)
  | countNulls (table col : String)
  | sampleParity (table col expr : String) (rate : Float64)
  | fullParity (table col expr : String)
  /- the throttle field of the runner -/
  | newThrottle (config : BackfillConfig)
  | throttleRef
  | adjustThrottle (ref : ℕ) (m : DBHealthMetrics)
  | isCircuitTripped
  | getBatchSize
  | getThrottleMs
deriving DecidableEq

/-- The answers. A failed query answers `none` or `false`; `ctxDone` and `wait` answer whether the
context is cancelled. -/
@[reducible] def Op.Ret : Op → Type
  | load _ => Option Record
  | saveState .. | saveCheckpoint .. | logDDLExecution .. | logBackfillProgress ..
  | logCanaryObservation .. => Bool
  | serviceCounts _ => Option (ℕ × ℕ)
  | ctxDone | wait _ => Bool
  | sleep _ => Unit
  | lockWaiting => Option ℤ
  | blockingQuery => Bool
  | replicationLag => Option Float64
  | connections => Option (ℤ × ℤ)
  | deadTuples => Option ℤ
  | beginTx | setLocal _ | txExec _ | commit _ | setTimeout _ | poolExec _ | terminateBackends =>
    Bool
  | columnExists .. => Option Bool
  | countRemaining .. | updateBatch .. | countNulls .. => Option ℕ
  | maxId .. => Option ℤ
  | sampleParity .. => Option (ℕ × ℕ)
  | fullParity .. => Option (ℕ × ℕ × ℕ)
  | newThrottle _ => ℕ
  | throttleRef => ℕ
  | adjustThrottle .. => Unit
  | isCircuitTripped => Bool
  | getBatchSize | getThrottleMs => ℤ

/-- What an operation is about. -/
inductive Kind
  | cursor
  | journal
  | clock
  | probe
  | ddl
  | column
  | throttle
deriving DecidableEq

def Op.kind : Op → Kind
  | load _ | saveState .. => .cursor
  | saveCheckpoint .. | logDDLExecution .. | logBackfillProgress .. | logCanaryObservation ..
  | serviceCounts _ => .journal
  | ctxDone | wait _ | sleep _ => .clock
  | lockWaiting | blockingQuery | replicationLag | connections | deadTuples => .probe
  | beginTx | setLocal _ | txExec _ | commit _ | setTimeout _ | poolExec _ | terminateBackends
  | columnExists .. => .ddl
  | countRemaining .. | updateBatch .. | maxId .. | countNulls .. | sampleParity ..
  | fullParity .. => .column
  | newThrottle _ | throttleRef | adjustThrottle .. | isCircuitTripped | getBatchSize
  | getThrottleMs => .throttle

/-- The signature of the engine's programs. -/
@[reducible] def engine : Sig := ⟨Op, Op.Ret⟩

abbrev Code (α : Type) := Prog engine α

/-- One operation. -/
abbrev ask (e : Op) : Code e.Ret := Prog.perform (S := engine) e

/-! ### What a program is about -/

/-- The program only asks for operations of these kinds. -/
def Within (ks : List Kind) {α : Type} (p : Code α) : Prop :=
  p.All (fun e => Op.kind e ∈ ks) fun _ => True

section Within
variable {ks ks' : List Kind} {α β : Type}

@[simp] theorem within_ret {a : α} : Within ks (Prog.ret a) := trivial

@[simp] theorem within_call {e : Op} {k : e.Ret → Code α} :
    Within ks (Prog.call (S := engine) e k) ↔ e.kind ∈ ks ∧ ∀ r, Within ks (k r) := Iff.rfl

theorem within_ask {e : Op} : Within ks (ask e) ↔ e.kind ∈ ks :=
  ⟨fun h => h.1, fun h => ⟨h, fun _ => trivial⟩⟩

@[simp] theorem within_ite {c : Prop} [Decidable c] {p q : Code α} :
    Within ks (if c then p else q) ↔ (c → Within ks p) ∧ (¬c → Within ks q) := all_ite

theorem Within.bind {p : Code α} {f : α → Code β} (hp : Within ks p) (hf : ∀ a, Within ks (f a)) :
    Within ks (p >>= f) := Prog.All.bind hp fun a _ => hf a

theorem Within.mono {p : Code α} (hp : Within ks p) (h : ks ⊆ ks') : Within ks' p :=
  Prog.All.mono hp (fun _ he => h he) fun _ h => h

theorem Within.after {p q : Code α} {tr : List (Event engine)} (hp : Within ks p)
    (h : After p tr q) : Within ks q ∧ ∀ ev ∈ tr, Op.kind ev.op ∈ ks := Prog.All.after hp h

/-- What such a program leaves: the events of one of its runs, all of these kinds. -/
theorem Within.spec {p : Code α} {C : List (Event engine) → Op → Prop} {pre : List (Event engine)}
    (hp : Within ks p) (hC : ∀ t e, (∀ ev ∈ t, Op.kind ev.op ∈ ks) → e.kind ∈ ks → C (pre ++ t) e) :
    p.Spec C (fun tr a => ∃ t, tr = pre ++ t ∧ Runs p t a ∧ ∀ ev ∈ t, Op.kind ev.op ∈ ks) pre :=
  (Prog.All.spec hp hC).mono (fun _ _ h => h) fun _ _ h => h.2

end Within

/-! ### The statements of a trace -/

/-- The statement an event has executed, if it has succeeded. -/
def appliedBy : Event engine → Option String
  | ⟨.commit stmt, true⟩ => some stmt
  | ⟨.poolExec stmt, true⟩ => some stmt
  | _ => none

/-- **The statements executed successfully.** -/
def applied (tr : List (Event engine)) : List String := tr.filterMap appliedBy

/-- The statement an operation sends to the target, whatever its answer. -/
def Op.attempts : Op → Option String
  | txExec stmt => some stmt
  | commit stmt => some stmt
  | poolExec stmt => some stmt
  | _ => none

/-- Does the operation execute DDL or a backfill UPDATE on the target? -/
def Op.executes : Op → Bool
  | updateBatch .. => true
  | op => op.attempts.isSome

theorem executes_of_kind {op : Op} (h : op.kind ≠ .ddl) (h' : op.kind ≠ .column) :
    op.executes = false := by
  cases op <;> first | rfl | exact absurd rfl h | exact absurd rfl h'

/-- The statements sent. -/
def attempted (tr : List (Event engine)) : List String := tr.filterMap fun ev => ev.op.attempts

theorem attempts_of_kind {e : Op} (h : e.kind ≠ .ddl) : e.attempts = none := by
  cases e <;> first | rfl | exact absurd rfl h

@[simp] theorem applied_nil : applied [] = [] := rfl

@[simp] theorem applied_append (t t' : List (Event engine)) :
    applied (t ++ t') = applied t ++ applied t' := List.filterMap_append

@[simp] theorem attempted_nil : attempted [] = [] := rfl

@[simp] theorem attempted_append (t t' : List (Event engine)) :
    attempted (t ++ t') = attempted t ++ attempted t' := List.filterMap_append

theorem applied_cons (ev : Event engine) (tr : List (Event engine)) :
    applied (ev :: tr) = (appliedBy ev).toList ++ applied tr := by
  unfold applied
  rw [List.filterMap_cons]
  cases appliedBy ev <;> rfl

/-- An operation that sends nothing executes nothing. -/
theorem appliedBy_eq_none {ev : Event engine} (h : ev.op.attempts = none) : appliedBy ev = none := by
  obtain ⟨op, ans⟩ := ev
  cases op <;> first | rfl | cases h

/-- No other kind of operation sends anything. -/
theorem applied_eq_nil_of_kind {tr : List (Event engine)} (h : ∀ ev ∈ tr, Op.kind ev.op ≠ .ddl) :
    applied tr = [] :=
  List.filterMap_eq_nil_iff.mpr fun ev hev => appliedBy_eq_none (attempts_of_kind (h ev hev))

end MigrationSafety.StateMachine.Signature
