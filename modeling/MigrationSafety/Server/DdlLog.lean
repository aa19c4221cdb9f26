import MigrationSafety.Server.Steps

/-! # The log of DDL statements

Expand, contract and rollback write an entry to the log after every call of the executor, with its
success or its error. `Reports` says when: a success is entered directly after the statement has been
executed, before the run asks for anything else, and a failure only when every success so far has been
entered. A crash in between loses the entry, never more than one for each worker.

* `reports_execDDL`, `reports_body`: every program of a run reports.
* `log_accounts`: in every run of the engine the successes a worker has entered are, in order, the
  statements it has executed, but for at most one for each restart, and the one it is about to enter. -/

namespace MigrationSafety.Server.DdlLog

open MigrationSafety.Lib.Effects MigrationSafety.Lib.Paths
open MigrationSafety.Sql.Text MigrationSafety.Plan.Validate MigrationSafety.Safety.Executor
open MigrationSafety.StateMachine.Signature MigrationSafety.StateMachine.Handlers
open MigrationSafety.StateMachine.Run MigrationSafety.StateMachine.Trace
open MigrationSafety.Server.System MigrationSafety.Server.Steps

/-! ### Reports -/

/-- The statement an event enters as a success. -/
def reportedBy : Event engine → Option String
  | ⟨.logDDLExecution _ stmt none, _⟩ => some stmt
  | _ => none

/-- **The statements entered as successes.** -/
def reported (tr : List (Event engine)) : List String := tr.filterMap reportedBy

@[simp] theorem reported_append (t t' : List (Event engine)) :
    reported (t ++ t') = reported t ++ reported t' := List.filterMap_append

/-- Every success has been entered. -/
def Settled (tr : List (Event engine)) : Prop := applied tr = reported tr

theorem settled_nil : Settled [] := rfl

/-- What a run of `id` may ask for after `tr`. -/
def Reports (id : Id) (tr : List (Event engine)) : Op → Prop
  | .logDDLExecution i stmt none => i = id ∧ applied tr = reported tr ++ [stmt]
  | .logDDLExecution i _ (some _) => i = id ∧ Settled tr
  | _ => Settled tr

/-- The operations that have nothing to do with the log. -/
def Op.plain : Op → Bool
  | .logDDLExecution .. => false
  | op => op.attempts.isNone

section Programs
variable {id : Id} {op : Op} {tr : List (Event engine)} {α β : Type} {stmt : String}

theorem reports_plain (h : Op.plain op = true) (htr : Settled tr) : Reports id tr op := by
  cases op <;> first | exact htr | cases h

/-- Sending a statement without success, and setting a timeout, enter and execute nothing. -/
theorem Settled.idle (htr : Settled tr) (ev : Event engine) (happ : appliedBy ev = none)
    (hrep : reportedBy ev = none) : Settled (tr ++ [ev]) := by
  unfold Settled
  rw [applied_append, reported_append, htr]
  simp [applied_cons, happ, reported, hrep]

theorem Settled.plain (htr : Settled tr) (op : Op) (h : Op.plain op = true) (r : op.Ret) :
    Settled (tr ++ [⟨op, r⟩]) := by
  refine htr.idle ⟨op, r⟩ (appliedBy_eq_none ?_) ?_
  · cases op <;> first | rfl | cases h
  · cases op <;> first | rfl | cases h

/-- Continuing `tr`, the program enters what it executes, and leaves nothing to enter. -/
abbrev Reporting (id : Id) (p : Code α) (tr : List (Event engine)) : Prop :=
  p.Spec (Reports id) (fun tr _ => Settled tr) tr

theorem reporting_plain {p : Code α} (hp : p.All (fun op => Op.plain op = true) fun _ => True)
    (htr : Settled tr) : Reporting id p tr := by
  induction p generalizing tr with
  | ret a => exact htr
  | call op k ih => exact ⟨reports_plain hp.1 htr, fun r => ih r (hp.2 r) (htr.plain op hp.1 r)⟩

theorem Reporting.bind {p : Code α} {f : α → Code β} (hp : Reporting id p tr)
    (hf : ∀ a tr, Settled tr → Reporting id (f a) tr) : Reporting id (p >>= f) tr :=
  Prog.Spec.bind hp fun tr a htr => hf a tr htr

theorem plain_of_kind {ks : List Kind} (hjournal : Kind.journal ∉ ks) (hddl : Kind.ddl ∉ ks)
    {p : Code α} (hp : Within ks p) : p.All (fun op => Op.plain op = true) fun _ => True := by
  refine Prog.All.mono hp (fun op hop => ?_) fun _ h => h
  cases op <;> first | rfl | exact absurd hop hjournal | exact absurd hop hddl

/-! ### The executor -/

/-- After a call of the executor: the statement is to be entered if it has been executed. -/
def Executing (stmt : String) (tr : List (Event engine)) (r : Except DDLError Unit) : Prop :=
  applied tr = reported tr ++ if r.isOk then [stmt] else []

theorem Settled.executing {e : DDLError} (htr : Settled tr) : Executing stmt tr (.error e) := by
  unfold Executing
  rw [htr]
  simp [Except.isOk, Except.toBool]

theorem executing_ok (htr : Settled tr) {ev : Event engine} (happ : appliedBy ev = some stmt)
    (hrep : reportedBy ev = none) : Executing stmt (tr ++ [ev]) (.ok ()) := by
  unfold Executing
  rw [applied_append, reported_append, htr]
  simp [applied_cons, happ, reported, hrep, Except.isOk, Except.toBool]

theorem reporting_safetyCheck (htr : Settled tr) : Reporting id safetyCheck tr :=
  reporting_plain (plain_of_kind (by decide) (by decide) safetyCheck_within) htr

theorem spec_execInTx (htr : Settled tr) :
    (execInTx stmt).Spec (Reports id) (Executing stmt) tr := by
  refine ⟨htr, fun b => ?_⟩
  have hbegin := htr.idle ⟨.beginTx, b⟩ rfl rfl
  cases b with
  | false => exact hbegin.executing
  | true =>
    refine ⟨hbegin, fun b => ?_⟩
    have hlock := hbegin.idle ⟨.setLocal _, b⟩ rfl rfl
    cases b with
    | false => exact hlock.executing
    | true =>
      refine ⟨hlock, fun b => ?_⟩
      have hstmt := hlock.idle ⟨.setLocal _, b⟩ rfl rfl
      cases b with
      | false => exact hstmt.executing
      | true =>
        refine ⟨hstmt, fun b => ?_⟩
        have hexec := hstmt.idle ⟨.txExec stmt, b⟩ rfl rfl
        cases b with
        | false => exact hexec.executing
        | true =>
          refine ⟨hexec, fun b => ?_⟩
          cases b with
          | false => exact (hexec.idle ⟨.commit stmt, false⟩ rfl rfl).executing
          | true => exact executing_ok hexec rfl rfl

theorem spec_execConcurrently (left : ℕ) (htr : Settled tr) :
    (execConcurrently stmt left).Spec (Reports id) (Executing stmt) tr := by
  induction left generalizing tr with
  | zero => exact htr.executing
  | succ left ih =>
    -- what a failed check and a failed attempt both come to
    have hfail : ∀ t e, Settled t → (if 0 < left then do
          let _ ← ask (.sleep (retryDelay * (maxRetries - left)))
          execConcurrently stmt left
        else pure (.error e)).Spec (Reports id) (Executing stmt) t := by
      intro t e ht
      split_ifs
      · exact ⟨ht, fun r => ih (ht.idle ⟨.sleep _, r⟩ rfl rfl)⟩
      · exact ht.executing
    unfold execConcurrently
    refine Prog.Spec.bind (reporting_safetyCheck htr) fun t r ht => ?_
    cases r with
    | error e => exact hfail t _ ht
    | ok _ =>
      refine ⟨ht, fun b => ?_⟩
      have hset := ht.idle ⟨.setTimeout _, b⟩ rfl rfl
      refine ⟨hset, fun b => ?_⟩
      cases b with
      | false => exact hfail _ _ (hset.idle ⟨.poolExec stmt, false⟩ rfl rfl)
      | true => exact executing_ok hset rfl rfl

/-- **The executor** executes at most its own statement, and last. -/
theorem spec_execDDL (htr : Settled tr) : (execDDL stmt).Spec (Reports id) (Executing stmt) tr := by
  refine Prog.Spec.bind (reporting_safetyCheck htr) fun t r ht => ?_
  cases r with
  | error e => exact ht.executing
  | ok _ =>
    dsimp only
    split_ifs
    · exact spec_execConcurrently maxRetries ht
    · exact spec_execInTx ht

theorem Executing.failed {e : DDLError} (h : Executing stmt tr (.error e)) : Settled tr := by
  simpa [Executing, Settled, Except.isOk, Except.toBool] using h

/-- The entry of a success. -/
theorem Executing.entered {u : Unit} (h : Executing stmt tr (.ok u)) (i : Id) (b : Bool) :
    Settled (tr ++ [⟨.logDDLExecution i stmt none, b⟩]) := by
  have happ : applied tr = reported tr ++ [stmt] := h
  unfold Settled
  rw [applied_append, reported_append, happ]
  exact List.append_nil _

/-! ### The handlers -/

theorem reporting_execEach {fail : ℕ → String → DDLError → HandlerError} (i : ℕ) (stmts : List String)
    (htr : Settled tr) : Reporting id (execEach fail id i stmts) tr := by
  induction stmts generalizing i tr with
  | nil => exact htr
  | cons stmt stmts ih =>
    refine (spec_execDDL htr).bind fun t r ht => ?_
    cases r with
    | error e => exact ⟨⟨rfl, ht.failed⟩, fun b => ht.failed.idle _ rfl rfl⟩
    | ok _ => exact ⟨⟨rfl, ht⟩, fun b => ih (i + 1) (ht.entered id b)⟩

theorem reporting_runStmts {fail : ℕ → String → DDLError → HandlerError} {key : String}
    (stmts : List String) (htr : Settled tr) : Reporting id (runStmts fail key id stmts) tr :=
  Reporting.bind (reporting_execEach 0 stmts htr) fun r _ ht => by cases r <;> exact ht

theorem reporting_tryRollback (htr : Settled tr) : Reporting id (tryRollback id stmt) tr := by
  refine (spec_execDDL htr).bind fun t r ht => ?_
  cases r with
  | error e => exact ⟨⟨rfl, ht.failed⟩, fun b => ht.failed.idle _ rfl rfl⟩
  | ok _ => exact ⟨⟨rfl, ht⟩, fun b => ht.entered id b⟩

theorem reporting_rollbackStmt (left : ℕ) (htr : Settled tr) :
    Reporting id (rollbackStmt id stmt left) tr := by
  induction left generalizing tr with
  | zero => exact reporting_tryRollback htr
  | succ left ih =>
    refine Reporting.bind (reporting_tryRollback htr) fun r t ht => ?_
    cases r with
    | ok _ => exact ht
    | error e => exact ⟨ht, fun u => ih (ht.idle _ rfl rfl)⟩

theorem reporting_rollbackStmts (i : ℕ) (stmts : List String) (htr : Settled tr) :
    Reporting id (rollbackStmts id i stmts) tr := by
  induction stmts generalizing i tr with
  | nil => exact htr
  | cons stmt stmts ih =>
    refine Reporting.bind (reporting_rollbackStmt _ htr) fun r t ht => ?_
    cases r with
    | error e => exact ht
    | ok _ => exact ih (i + 1) ht

theorem plain_verifyRollback (table : String) (cols : List String) :
    (verifyRollback table cols).All (fun op => Op.plain op = true) fun _ => True := by
  induction cols with
  | nil => trivial
  | cons col cols ih => exact ⟨rfl, fun _ => ih⟩

theorem reporting_rollback {r : Record} (htr : Settled tr) : Reporting r.id (rollback r) tr := by
  refine spec_perform_bind.mpr ⟨htr, fun b => ?_⟩
  have hdrained := htr.idle ⟨.terminateBackends, b⟩ rfl rfl
  refine Reporting.bind (reporting_rollbackStmts 0 _ hdrained) fun x t ht => ?_
  cases x with
  | error e => exact ht
  | ok _ => exact Reporting.bind (reporting_plain (plain_verifyRollback _ _) ht) fun _ _ hu => hu

end Programs

/-! ### The run -/

section Run
variable {id : Id} {tr : List (Event engine)} {delay : ℤ} {r : Record}

/-- The program has nothing to do with the log. -/
abbrev PlainCode {α : Type} (p : Code α) : Prop := p.All (fun op => Op.plain op = true) fun _ => True

theorem plain_canaryStep (step : ℤ) : PlainCode (canaryStep delay r step) := by
  have hpre : PlainCode (preflight r.plan.slo) :=
    plain_of_kind (by decide) (by decide) (preflight_within _)
  refine ⟨rfl, fun b => ?_⟩
  cases b with
  | true => trivial
  | false =>
    refine hpre.bind fun why _ => ?_
    cases why with
    | some why => trivial
    | none =>
      cases hb : sloBreached (observeCanary r.plan step) r.plan.slo with
      | none => simp [canaryObserve, hb, canaryHealthy, Op.plain, Op.attempts]
      | some why =>
        simp only [canaryObserve, hb, canaryBreached, Prog.perform_bind, Prog.bind_call]
        split_ifs <;> simp [Op.plain, Op.attempts]

theorem plain_canarySteps (steps : List ℤ) : PlainCode (canarySteps delay r steps) := by
  induction steps with
  | nil => trivial
  | cons step steps ih =>
    refine (plain_canaryStep step).bind fun out _ => ?_
    cases out with
    | some out => trivial
    | none => exact ih

theorem plain_canary : PlainCode (canary delay r) := by
  have hsteps : PlainCode (canarySteps delay r r.plan.canary.steps) := plain_canarySteps _
  simp only [canary, checkReplicationLag, Prog.perform_bind, all_call, Option.forall, all_ite]
  exact ⟨rfl, hsteps, fun _ => ⟨fun _ => trivial, fun _ => hsteps⟩⟩

theorem plain_verify : PlainCode (verify r) := by
  simp [verify, verifySample, skipped, Option.forall, Op.plain, Op.attempts]

theorem plain_cutover : PlainCode (cutover r) := by
  have hgate : PlainCode (serviceGate r.id) := by
    simp [serviceGate, Option.forall, Op.plain, Op.attempts]
  refine hgate.bind fun why _ => ?_
  cases why with
  | some why => trivial
  | none => simp [cutoverGate, Option.forall, Op.plain, Op.attempts]

theorem plain_backfillEnter : PlainCode (backfillEnter r) := by
  simp [backfillEnter, Option.forall, Op.plain, Op.attempts]

theorem plain_backfillTurn (pr : Progress) : PlainCode (backfillTurn r pr) := by
  have hhealth : PlainCode collectHealthMetrics :=
    plain_of_kind (by decide) (by decide) collectHealthMetrics_within
  have hrecord : ∀ n pr, PlainCode (backfillRecord r n pr) := fun n pr =>
    hhealth.bind fun m _ => by simp [Op.plain, Op.attempts]
  have hupdate : PlainCode updateHealth := by
    refine ⟨rfl, fun ref => hhealth.bind fun m _ => ?_⟩
    cases m with
    | none => trivial
    | some m => exact ⟨rfl, fun _ => trivial⟩
  simp only [backfillTurn, Prog.perform_bind, all_call, all_ite]
  refine ⟨rfl, fun b => ⟨fun _ => trivial, fun _ => ⟨rfl, fun b => ⟨fun _ => ?_, fun _ => ?_⟩⟩⟩⟩
  · exact ⟨rfl, fun _ => trivial⟩
  · refine hupdate.bind fun _ _ => ?_
    simp only [backfillAdvance, Prog.perform_bind, all_call, Option.forall, all_ite]
    refine ⟨rfl, fun limit => ⟨rfl, trivial, fun n => ⟨fun _ => trivial, fun _ => ⟨rfl, ?_⟩⟩⟩⟩
    exact ⟨trivial, fun _ => ⟨fun _ => trivial, fun _ => hrecord _ _⟩⟩

theorem plain_finish (cur : State) (out : Outcome) : PlainCode (finish delay id cur out) := by
  cases out with
  | error e => trivial
  | ok res =>
    cases hd : Result.target cur res <;> simp [finish, hd, save, afterSave, Op.plain, Op.attempts]

theorem reporting_handlers {cur : State} {h : Record → Code Outcome} (hc : handlers delay cur = some h)
    (htr : Settled tr) : Reporting r.id (h r) tr := by
  cases cur <;> simp only [handlers, Option.some.injEq, reduceCtorEq] at hc <;> subst hc
  case pending => exact htr
  case expanding => exact reporting_runStmts _ htr
  case backfilling => exact htr
  case verifying => exact reporting_plain plain_verify htr
  case canary => exact reporting_plain plain_canary htr
  case cutover => exact reporting_plain plain_cutover htr
  case contracting => exact reporting_runStmts _ htr
  case rollingBack => exact reporting_rollback htr

/-- A load that finds a record finds that of the migration. -/
def Genuine (ev : Event engine) : Prop := ∀ i r, ev = ⟨.load i, some r⟩ → r.id = i

/-- What a run asks for, if its loads are genuine. -/
def Entering (id : Id) (tr : List (Event engine)) (op : Op) : Prop :=
  (∀ ev ∈ tr, Genuine ev) → Reports id tr op

theorem Reports.after {pre u : List (Event engine)} {op : Op} (h : Reports id u op)
    (hpre : Settled pre) : Reports id (pre ++ u) op := by
  have hpre : applied pre = reported pre := hpre
  have hsettled : Settled u → Settled (pre ++ u) := fun hu => by
    unfold Settled at hu ⊢
    rw [applied_append, reported_append, hpre, hu]
  cases op with
  | logDDLExecution i stmt err =>
    cases err with
    | none =>
      refine ⟨h.1, ?_⟩
      rw [applied_append, reported_append, hpre, h.2, List.append_assoc]
    | some err => exact ⟨h.1, hsettled h.2⟩
  | _ => exact hsettled h

theorem entering_plain {α : Type} {p : Code α} (hp : PlainCode p) (htr : Settled tr) :
    p.Spec (Entering id) (fun tr _ => Settled tr) tr :=
  Prog.Spec.mono (reporting_plain hp htr) (fun _ _ h _ => h) fun _ _ h => h

/-- A handler that works on the record of the migration. -/
theorem entering_handler {α : Type} {p : Code α} (hp : Reporting r.id p []) (htr : Settled tr)
    (hload : ⟨.load id, some r⟩ ∈ tr) : p.Spec (Entering id) (fun tr _ => Settled tr) tr := by
  have hshift := Prog.Spec.shift hp tr
  rw [List.append_nil] at hshift
  refine hshift.mono ?_ ?_
  · rintro _ op ⟨u, rfl, hu⟩ hgen
    have hid : r.id = id := hgen _ (List.mem_append_left u hload) id r rfl
    rw [← hid]
    exact hu.after htr
  · rintro _ a ⟨u, rfl, hu⟩
    have hu : applied u = reported u := hu
    have htr : applied tr = reported tr := htr
    unfold Settled
    rw [applied_append, reported_append, htr, hu]

/-- **Every stretch of a run enters what it executes.** -/
theorem entering_body (pt : Pt) :
    (body delay id pt).Spec (Entering id) (fun tr _ => Settled tr) [] := by
  have hfinish : ∀ cur out tr, Settled tr →
      (finish delay id cur out).Spec (Entering id) (fun tr _ => Settled tr) tr :=
    fun cur out tr htr => entering_plain (plain_finish cur out) htr
  cases pt with
  | start =>
    refine ⟨fun _ => settled_nil, fun r => ?_⟩
    have hload := settled_nil.plain (.load id) rfl r
    cases r <;> exact hload
  | batch r pr =>
    refine (entering_plain (plain_backfillTurn pr) settled_nil).bind fun tr x htr => ?_
    cases x with
    | again pr' => exact htr
    | stop out => exact hfinish _ out tr htr
  | loop cur =>
    unfold body
    dsimp only
    split_ifs
    · exact settled_nil
    · refine spec_perform_bind.mpr ⟨fun _ => settled_nil, fun b => ?_⟩
      have hctx := settled_nil.plain .ctxDone rfl b
      cases b with
      | true => exact hctx
      | false =>
        rw [if_neg Bool.false_ne_true]
        cases hc : handlers delay cur with
        | none => exact hctx
        | some h =>
          refine spec_perform_bind.mpr ⟨fun _ => hctx, fun r => ?_⟩
          have hload := hctx.plain (.load id) rfl r
          cases r with
          | none => exact hload
          | some r =>
            dsimp only
            unfold dispatch
            split_ifs
            · refine (entering_plain plain_backfillEnter hload).bind fun tr x htr => ?_
              cases x with
              | error e => exact hfinish _ _ tr htr
              | ok pr => exact htr
            · refine (entering_handler (reporting_handlers hc settled_nil) hload (by simp)).bind ?_
              exact fun tr out htr => hfinish _ out tr htr

end Run

/-! ### The engine -/

section Log
variable {n : ℕ} {delay : ℤ} {e e' : Engine n} {a : Act n} {w w' : Fin n} {l l' : List (Entry n)}

/-- The statements that have been executed, each with the migration of the run. -/
def executions (l : List (Entry n)) : List (Id × String) :=
  l.filterMap fun x => (appliedBy x.event).map fun stmt => (x.id, stmt)

/-- The migration and the statement of an entry of a success. -/
def entryOf : Event engine → Option (Id × String)
  | ⟨.logDDLExecution i stmt none, _⟩ => some (i, stmt)
  | _ => none

/-- **The successes in the log.** -/
def successes (l : List (Entry n)) : List (Id × String) := l.filterMap fun x => entryOf x.event

/-- What a worker has done. -/
def doneBy (e : Engine n) (w : Fin n) : List (Entry n) := e.log.filter fun x => x.worker = w

@[simp] theorem executions_append : executions (l ++ l') = executions l ++ executions l' :=
  List.filterMap_append

@[simp] theorem successes_append : successes (l ++ l') = successes l ++ successes l' :=
  List.filterMap_append

theorem executions_map (w : Fin n) (t : Task) (tr : List (Event engine)) :
    executions (tr.map (entry w t)) = (applied tr).map fun stmt => (t.id, stmt) := by
  unfold executions applied
  rw [List.filterMap_map, List.map_filterMap]
  rfl

/-- The successes of `l` are executions of `l`, in order, and all but `d` of them. -/
structure Accounted (d : ℕ) (l : List (Entry n)) : Prop where
  sublist : (successes l).Sublist (executions l)
  length_le : (executions l).length ≤ (successes l).length + d

theorem Accounted.mono {d d' : ℕ} (h : Accounted d l) (hd : d ≤ d') : Accounted d' l :=
  ⟨h.sublist, h.length_le.trans (Nat.add_le_add_left hd _)⟩

theorem Accounted.append {d d' : ℕ} (h : Accounted d l) (h' : Accounted d' l') :
    Accounted (d + d') (l ++ l') := by
  refine ⟨?_, ?_⟩
  · rw [successes_append, executions_append]
    exact h.sublist.append h'.sublist
  · rw [successes_append, executions_append, List.length_append, List.length_append]
    have hl := h.length_le
    have hl' := h'.length_le
    omega

/-! ### Workers -/

/-- At most the last statement has yet to be entered. -/
def Balanced (tr : List (Event engine)) : Prop :=
  Settled tr ∨ ∃ stmt, applied tr = reported tr ++ [stmt]

theorem Reports.balanced {id : Id} {tr : List (Event engine)} {op : Op} (h : Reports id tr op)
    (r : op.Ret) : Balanced (tr ++ [⟨op, r⟩]) := by
  have hother : Settled tr → reportedBy ⟨op, r⟩ = none → Balanced (tr ++ [⟨op, r⟩]) := by
    intro htr hrep
    cases happ : appliedBy ⟨op, r⟩ with
    | none => exact Or.inl (htr.idle _ happ hrep)
    | some stmt =>
      refine Or.inr ⟨stmt, ?_⟩
      rw [applied_append, reported_append, htr]
      simp [applied_cons, happ, reported, hrep]
  cases op with
  | logDDLExecution i stmt err =>
    cases err with
    | none =>
      refine Or.inl ?_
      unfold Settled
      rw [applied_append, reported_append, h.2]
      exact List.append_nil _
    | some err => exact hother h.2 rfl
  | _ => exact hother h rfl

/-- The entries are those of the migration. -/
def Own (id : Id) (tr : List (Event engine)) : Prop := ∀ ev ∈ tr, ∀ x, entryOf ev = some x → x.1 = id

/-- A worker in the middle of a stretch. -/
structure Midway (t : Task) (tr : List (Event engine)) : Prop where
  spec : t.code.Spec (Entering t.id) (fun tr _ => Settled tr) tr
  genuine : ∀ ev ∈ tr, Genuine ev
  own : Own t.id tr
  balanced : Balanced tr

theorem entryOf_eq (ev : Event engine) : (entryOf ev).map Prod.snd = reportedBy ev := by
  obtain ⟨op, r⟩ := ev
  cases op with
  | logDDLExecution i stmt err => cases err <;> rfl
  | _ => rfl

theorem Own.successes_map {t : Task} {tr : List (Event engine)} (h : Own t.id tr) (w : Fin n) :
    successes (tr.map (entry w t)) = (reported tr).map fun stmt => (t.id, stmt) := by
  unfold successes reported
  rw [List.filterMap_map, List.map_filterMap]
  refine List.filterMap_congr fun ev hev => ?_
  change entryOf ev = _
  rw [← entryOf_eq]
  cases hx : entryOf ev with
  | none => rfl
  | some x =>
    rw [← h ev hev x hx]
    rfl

theorem midway_taskAt (delay : ℤ) (id : Id) (pt : Pt) : Midway (taskAt delay id pt) [] :=
  ⟨entering_body pt, by simp, by simp [Own], Or.inl settled_nil⟩

theorem Midway.settled {t : Task} {tr : List (Event engine)} {x : Exit} (h : Midway t tr)
    (hc : t.code = .ret x) : Settled tr := by
  have hspec := h.spec
  rw [hc] at hspec
  exact hspec

theorem Midway.reports {t : Task} {tr : List (Event engine)} {op : Op} {k : op.Ret → Code Exit}
    (h : Midway t tr) (hc : t.code = .call op k) : Reports t.id tr op := by
  have hspec := h.spec
  rw [hc] at hspec
  exact hspec.1 h.genuine

/-- One more answer. -/
theorem Midway.next {t : Task} {tr : List (Event engine)} {op : Op} {k : op.Ret → Code Exit}
    (h : Midway t tr) (hc : t.code = .call op k) {r : op.Ret} (hr : Genuine ⟨op, r⟩) :
    Midway { t with code := k r } (tr ++ [⟨op, r⟩]) := by
  have hreports := h.reports hc
  refine ⟨?_, ?_, ?_, hreports.balanced r⟩
  · have hspec := h.spec
    rw [hc] at hspec
    exact hspec.2 r
  · exact fun ev hev => (List.mem_append.mp hev).elim (h.genuine ev)
      fun hev => List.mem_singleton.mp hev ▸ hr
  · intro ev hev x hx
    rcases List.mem_append.mp hev with hev | hev
    · exact h.own ev hev x hx
    · obtain rfl := List.mem_singleton.mp hev
      cases op with
      | logDDLExecution i stmt err =>
        cases err with
        | none =>
          cases hx
          exact hreports.1
        | some err => cases hx
      | _ => cases hx

/-- What has yet to be entered is entered next. -/
theorem Midway.owing {t : Task} {tr : List (Event engine)} {stmt : String} (h : Midway t tr)
    (howing : applied tr = reported tr ++ [stmt]) :
    ∃ k, t.code = .call (.logDDLExecution t.id stmt none) k := by
  have hnot : ¬Settled tr := fun hs => by
    have hs : applied tr = reported tr := hs
    rw [hs] at howing
    simpa using congrArg List.length howing
  cases hc : t.code with
  | ret x => exact absurd (h.settled hc) hnot
  | call op k =>
    have hreports := h.reports hc
    cases op with
    | logDDLExecution i stmt' err =>
      cases err with
      | none =>
        obtain ⟨rfl, hlast⟩ := hreports
        obtain rfl : stmt = stmt' := by simpa using howing.symm.trans hlast
        exact ⟨k, rfl⟩
      | some err => exact absurd hreports.2 hnot
    | _ => exact absurd hreports hnot

theorem Midway.accounted {t : Task} {tr : List (Event engine)} (h : Midway t tr) (w : Fin n) :
    Accounted 1 (tr.map (entry w t)) := by
  refine ⟨?_, ?_⟩ <;> rw [h.own.successes_map, executions_map]
  · refine List.Sublist.map _ ?_
    rcases h.balanced with heq | ⟨stmt, heq⟩
    · rw [show applied tr = reported tr from heq]
    · rw [heq]
      exact List.sublist_append_left _ _
  · rw [List.length_map, List.length_map]
    rcases h.balanced with heq | ⟨stmt, heq⟩
    · rw [show applied tr = reported tr from heq]
      exact Nat.le_succ _
    · rw [heq, List.length_append]
      exact le_rfl

theorem Midway.accounted_settled {t : Task} {tr : List (Event engine)} (h : Midway t tr)
    (hs : Settled tr) (w : Fin n) : Accounted 0 (tr.map (entry w t)) := by
  have heq : applied tr = reported tr := hs
  refine ⟨?_, ?_⟩ <;> rw [h.own.successes_map, executions_map, heq]
  · exact Nat.le_add_right _ _

/-- Every worker has entered what it has executed, but for `d` statements and the stretch it is in. -/
def Entered (d : ℕ) (e : Engine n) : Prop :=
  ∀ w, ∃ l, Accounted d l ∧
    (e.workers w = none ∧ doneBy e w = l ∨
      ∃ t tr, e.workers w = some t ∧ doneBy e w = l ++ tr.map (entry w t) ∧ Midway t tr)

theorem entered_init : Entered 0 (Engine.init n) :=
  fun _ => ⟨[], ⟨List.Sublist.refl _, le_rfl⟩, Or.inl ⟨rfl, rfl⟩⟩

/-- A worker between two stretches has settled its account. -/
theorem Entered.settled {d : ℕ} (h : Entered d e)
    (hw : ∀ t, e.workers w = some t → ∃ y, t.code = .ret y) : Accounted d (doneBy e w) := by
  obtain ⟨l, hl, ⟨-, hdone⟩ | ⟨t, tr, ht, hdone, hmid⟩⟩ := h w
  · rwa [hdone]
  · obtain ⟨y, hy⟩ := hw t ht
    rw [hdone]
    exact hl.append (hmid.accounted_settled (hmid.settled hy) w)

/-- It then starts another one, or none. -/
theorem Entered.setWorker {d : ℕ} {x : Option Task} (h : Entered d e)
    (hw : ∀ t, e.workers w = some t → ∃ y, t.code = .ret y) (hx : ∀ t, x = some t → Midway t []) :
    Entered d (e.setWorker w x) := by
  intro w'
  by_cases hww : w' = w
  · subst hww
    refine ⟨doneBy e w', h.settled hw, ?_⟩
    cases x with
    | none => exact Or.inl ⟨setWorker_self none, rfl⟩
    | some t =>
      refine Or.inr ⟨t, [], setWorker_self _, ?_, hx t rfl⟩
      rw [List.map_nil, List.append_nil]
      rfl
  · rw [setWorker_of_ne x hww]
    exact h w'

theorem genuine_answer (env : Env) (op : Op) : Genuine ⟨op, e.answer env op⟩ := by
  intro i r heq
  obtain ⟨rfl, hans⟩ := Event.mk.inj heq
  obtain ⟨-, -, hid, -⟩ := load_answer (eq_of_heq hans)
  exact hid

def Act.isRestart : Act n → Bool
  | .restart => true
  | _ => false

/-- The restarts of a run. -/
def restarts (as : List (Act n)) : ℕ := as.countP Act.isRestart

/-- **Every step keeps the accounts**; a restart may cost each worker one entry. -/
theorem Entered.step {d : ℕ} (h : Entered d e) (hs : Stepped delay e a e') :
    Entered (d + (Act.isRestart a).toNat) e' := by
  cases hs with
  | @pickup w id ids hw hj =>
    have hset : Entered d (e.setWorker w (some (taskAt delay id .start))) :=
      h.setWorker (fun t ht => by rw [hw] at ht; cases ht) fun t ht => by
        cases ht
        exact midway_taskAt delay id .start
    exact hset
  | @goto w env t pt hw hc =>
    refine h.setWorker (fun t' ht => ?_) fun t' ht => ?_
    · rw [hw] at ht
      cases ht
      exact ⟨_, hc⟩
    · cases ht
      exact midway_taskAt delay t.id pt
  | @stop w env t x hw hc =>
    refine h.setWorker (fun t' ht => ?_) fun t' ht => ?_
    · rw [hw] at ht
      cases ht
      exact ⟨_, hc⟩
    · cases ht
  | @serve w env t op k hw hc =>
    intro w'
    obtain ⟨l, hl, hrest⟩ := h w'
    refine ⟨l, hl, ?_⟩
    by_cases hww : w' = w
    · subst hww
      rcases hrest with ⟨hnone, -⟩ | ⟨t', tr, ht', hdone, hmid⟩
      · rw [hw] at hnone
        cases hnone
      · obtain rfl : t = t' := Option.some.inj (hw.symm.trans ht')
        refine Or.inr ⟨_, _, workers_serve t env op k, ?_, hmid.next hc (genuine_answer env op)⟩
        unfold doneBy at hdone ⊢
        rw [log_serve, List.filter_append, hdone, List.map_append]
        simp [entry]
    · rw [workers_serve_of_ne t env op k hww]
      have hother : ¬(entry w t ⟨op, e.answer env op⟩).worker = w' := fun heq => hww heq.symm
      have hdone : doneBy (e.serve w t env op k) w' = doneBy e w' := by
        unfold doneBy
        rw [log_serve, List.filter_append]
        simp [hother]
      rw [hdone]
      exact hrest
  | restart =>
    intro w
    obtain ⟨l, hl, hrest⟩ := h w
    rcases hrest with ⟨-, hdone⟩ | ⟨t, tr, -, hdone, hmid⟩
    · exact ⟨l, hl.mono (Nat.le_succ d), Or.inl ⟨rfl, hdone⟩⟩
    · exact ⟨_, hl.append (hmid.accounted w), Or.inl ⟨rfl, hdone⟩⟩
  | _ => exact h

theorem entered_of_runs {as : List (Act n)} (h : Runs delay (fun _ _ => True) (Engine.init n) as e) :
    Entered (restarts as) e := by
  induction h with
  | nil => exact entered_init
  | @snoc s t as a _ ha ih =>
    have hcount : restarts (as ++ [a]) = restarts as + (Act.isRestart a).toNat := by
      unfold restarts
      rw [List.countP_append, List.countP_singleton]
      cases Act.isRestart a <;> rfl
    rw [hcount]
    exact ih.step (step_inv ha.1)

end Log

end MigrationSafety.Server.DdlLog
