import MigrationSafety.StateMachine.Batches

/-! # The queries on the backfilled column

Backfill, verify and cutover write their queries from the plan: table, column, expression and, in a
batch, the composite statement. `Query` lists them, and nothing else on the column is ever asked for
(`performs_query`); a plan without a tracked column asks for none. -/

namespace MigrationSafety.StateMachine.Queries

open MigrationSafety.Lib.Effects MigrationSafety.Plan.Validate MigrationSafety.Safety.Executor
open MigrationSafety.StateMachine.Signature MigrationSafety.StateMachine.Handlers
open MigrationSafety.StateMachine.Run MigrationSafety.StateMachine.Trace
open MigrationSafety.StateMachine.Batches (Reaches)

variable {p : MigrationPlan} {r : Record} {delay : ℤ}

/-- **The queries of a plan.** -/
inductive Query (p : MigrationPlan) : Op → Prop
  | countRemaining {lastID : ℤ} : Query p (.countRemaining p.table p.backfill.column lastID)
  | updateBatch {lastID limit : ℤ} : Query p (.updateBatch (batchStmt p) lastID limit)
  | maxId {lastID : ℤ} : Query p (.maxId p.table p.backfill.column lastID)
  | countNulls : Query p (.countNulls p.table p.backfill.column)
  | sampleParity :
    Query p (.sampleParity p.table p.backfill.column p.backfill.sourceExpr (sampleRate p))
  | fullParity : Query p (.fullParity p.table p.backfill.column p.backfill.sourceExpr)

/-- An operation on the column is a query of the plan. -/
def Queried (p : MigrationPlan) (op : Op) : Prop :=
  op.kind = .column → p.backfill.column ≠ "" ∧ Query p op

/-- The program asks for nothing else on the column. -/
def Asking (p : MigrationPlan) {α : Type} (c : Code α) : Prop := c.All (Queried p) fun _ => True

theorem Asking.of_within {α : Type} {c : Code α} {ks : List Kind} (hc : Within ks c)
    (h : Kind.column ∉ ks) : Asking p c :=
  Prog.All.mono hc (fun _ hop hk => absurd (hk ▸ hop) h) fun _ _ => trivial

theorem Asking.bind {α β : Type} {c : Code α} {f : α → Code β} (hc : Asking p c)
    (hf : ∀ a, Asking p (f a)) : Asking p (c >>= f) := Prog.All.bind hc fun a _ => hf a

/-! ### The handlers -/

theorem asking_verify (r : Record) : Asking r.plan (verify r) := by
  unfold Asking
  simp only [verify, all_ite]
  refine ⟨fun _ => trivial, fun hcol => ?_⟩
  simp only [Prog.perform_bind, all_call, Option.forall, all_ite]
  refine ⟨fun _ => ⟨hcol, .countNulls⟩, trivial, fun n => ⟨fun _ => trivial, fun _ => ?_⟩⟩
  simp only [verifySample, Prog.perform_bind, all_call, Option.forall]
  exact ⟨fun _ => ⟨hcol, .sampleParity⟩, trivial, fun c => by simp⟩

theorem asking_cutover (r : Record) : Asking r.plan (cutover r) := by
  have hgate : Asking r.plan (serviceGate r.id) := by
    simp [Asking, serviceGate, Option.forall, Queried, Op.kind]
  refine hgate.bind fun why => ?_
  cases why with
  | some why => trivial
  | none =>
    unfold Asking
    simp only [all_ite]
    refine ⟨fun _ => trivial, fun hcol => ?_⟩
    simp only [cutoverGate, Prog.perform_bind, all_call, Option.forall]
    exact ⟨fun _ => ⟨hcol, .fullParity⟩, trivial, fun c => by simp⟩

theorem asking_handlers {cur : State} {h : Record → Code Outcome}
    (hc : handlers delay cur = some h) (r : Record) : Asking r.plan (h r) := by
  cases cur <;> simp only [handlers, Option.some.injEq, reduceCtorEq] at hc <;> subst hc
  case pending => trivial
  case expanding => exact .of_within (runStmts_within _ _ _ _) (by decide)
  case backfilling => trivial
  case verifying => exact asking_verify r
  case canary => exact .of_within (canary_within delay r) (by decide)
  case cutover => exact asking_cutover r
  case contracting => exact .of_within (runStmts_within _ _ _ _) (by decide)
  case rollingBack => exact .of_within (rollback_within r) (by decide)

theorem asking_backfillEnter (hcol : r.plan.backfill.column ≠ "") :
    Asking r.plan (backfillEnter r) := by
  unfold Asking
  simp only [backfillEnter, Prog.perform_bind, all_call, Option.forall]
  exact ⟨by simp [Queried, Op.kind], fun _ => ⟨fun _ => ⟨hcol, .countRemaining⟩, trivial,
    fun _ => trivial⟩⟩

theorem asking_backfillTurn (hcol : r.plan.backfill.column ≠ "") (pr : Progress) :
    Asking r.plan (backfillTurn r pr) := by
  have hhealth : Asking r.plan collectHealthMetrics :=
    .of_within collectHealthMetrics_within (by decide)
  have hupdate : Asking r.plan updateHealth := by
    refine ⟨by simp [Queried, Op.kind], fun _ => hhealth.bind fun m => ?_⟩
    cases m <;> simp [Asking, Prog.perform, Queried, Op.kind]
  have hrecord : ∀ n pr, Asking r.plan (backfillRecord r n pr) := fun n pr =>
    hhealth.bind fun m => by simp [Asking, Queried, Op.kind]
  unfold Asking
  simp only [backfillTurn, Prog.perform_bind, all_call, all_ite]
  refine ⟨by simp [Queried, Op.kind], fun _ => ⟨fun _ => trivial, fun _ => ?_⟩⟩
  refine ⟨by simp [Queried, Op.kind], fun _ => ⟨fun _ => by simp [Queried, Op.kind], fun _ => ?_⟩⟩
  refine hupdate.bind fun _ => ?_
  simp only [Asking, Prog.perform_bind, all_call, Option.forall, all_ite, backfillAdvance]
  refine ⟨by simp [Queried, Op.kind], fun _ => ⟨fun _ => ⟨hcol, .updateBatch⟩, trivial, fun n => ?_⟩⟩
  refine ⟨fun _ => trivial, fun _ => ⟨fun _ => ⟨hcol, .maxId⟩, trivial, fun m => ?_⟩⟩
  exact ⟨fun _ => trivial, fun _ => hrecord _ _⟩

/-! ### A run of the record -/

theorem asking_finish {cur : State} (id : Id) (out : Outcome) :
    Asking p (finish delay id cur out) :=
  (finish_all delay id cur out).mono (fun _ hop hk => by simp [hk] at hop) fun _ _ => trivial

theorem asking_dispatch {cur : State} {h : Record → Code Outcome}
    (hc : handlers delay cur = some h) (r : Record) :
    Asking r.plan (dispatch delay r.id cur h r) := by
  unfold dispatch
  split_ifs with hbatch
  · refine (asking_backfillEnter hbatch.2).bind fun x => ?_
    cases x with
    | error e => exact asking_finish ..
    | ok pr => trivial
  · exact (asking_handlers hc r).bind fun out => asking_finish ..

/-- A run asks for the operation while it works on the record. -/
def Performs (r : Record) (op : Op) : Prop :=
  (∃ delay cur h t k, handlers delay cur = some h ∧
    After (dispatch delay r.id cur h r) t (.call op k)) ∨
  ∃ pr t k, Reaches r pr ∧ After (backfillTurn r pr) t (.call op k)

/-- **What a run asks of the column is a query of its plan.** -/
theorem performs_query {op : Op} (h : Performs r op) : Queried r.plan op := by
  rcases h with ⟨delay, cur, h, t, k, hc, ha⟩ | ⟨pr, t, k, hpr, ha⟩
  · exact ((asking_dispatch hc r).after ha).1.1
  · exact ((asking_backfillTurn hpr.column_ne pr).after ha).1.1

end MigrationSafety.StateMachine.Queries
