import MigrationSafety.StateMachine.Gates

/-! # What a completed handler has done

When a run moves a migration from one state to the next, its handler has returned; `Advance` is what
the trace of the handler then contains, by the two states (`completed_advance`). In particular the
statements of Expand and of Rollback have been executed, each once and in order. -/

namespace MigrationSafety.StateMachine.Outcomes

open MigrationSafety.Lib.Effects MigrationSafety.Lib.Binary64 MigrationSafety.Sql.Rows
open MigrationSafety.Plan.Validate MigrationSafety.Safety.Executor
open MigrationSafety.StateMachine.Signature MigrationSafety.StateMachine.Handlers
open MigrationSafety.StateMachine.Run MigrationSafety.StateMachine.Trace
open MigrationSafety.StateMachine.Gates

variable {delay : ℤ} {id : Id} {r : Record} {t pre : List (Event engine)} {l : List String}

/-! ### Statements -/

section Statements
variable {fail : ℕ → String → DDLError → HandlerError} {key : String} {stmts : List String}

/-- A list of statements that succeeds has executed each once, in order. -/
theorem execEach_post (i : ℕ) (hl : applied pre = l) : (execEach fail id i stmts).Post
    (fun tr out => out.isOk = true → applied tr = l ++ stmts) pre := by
  induction stmts generalizing i pre l with
  | nil => simpa [execEach] using fun _ => hl
  | cons stmt stmts ih =>
    unfold execEach
    refine (execDDL_post hl).bind fun tr x hx => ?_
    cases x with
    | error e => simp [Except.isOk, Except.toBool]
    | ok _ =>
      refine post_call.mpr fun b => ?_
      have htr : applied (tr ++ [⟨.logDDLExecution id stmt none, b⟩]) = l ++ [stmt] := by
        simpa [applied_cons, appliedBy, Executed, Except.isOk, Except.toBool] using hx
      exact (ih (i + 1) htr).mono fun _ _ h hok => by rw [h hok, List.append_assoc]; rfl

theorem runStmts_runs {res : Result} (h : Runs (runStmts fail key id stmts) t (.ok res)) :
    applied t = stmts ∧ res.next = none := by
  have hp : (runStmts fail key id stmts).Post
      (fun tr out => ∀ res, out = .ok res → applied tr = stmts ∧ res.next = none) [] := by
    refine (execEach_post 0 applied_nil).bind fun tr x hx => ?_
    cases x with
    | error e => simp
    | ok _ => simpa using hx rfl
  exact hp.runs h res rfl

/-- A statement of a rollback counts once, whatever it took. -/
theorem tryRollback_post {stmt : String} (hl : applied pre = l) :
    (tryRollback id stmt).Post (Executed stmt l) pre := by
  refine (execDDL_post hl).bind fun tr x hx => ?_
  cases x <;> simpa [applied_cons, appliedBy, Executed, Except.isOk, Except.toBool] using hx

theorem rollbackStmt_post {stmt : String} (left : ℕ) (hl : applied pre = l) :
    (rollbackStmt id stmt left).Post (Executed stmt l) pre := by
  induction left generalizing pre with
  | zero => exact tryRollback_post hl
  | succ left ih =>
    refine (tryRollback_post hl).bind fun tr x hx => ?_
    cases x with
    | ok _ => exact hx
    | error e =>
      refine post_call.mpr fun u => ?_
      refine ih ?_
      simpa [applied_cons, appliedBy, Executed, Except.isOk, Except.toBool] using hx

theorem rollbackStmts_post (i : ℕ) (hl : applied pre = l) : (rollbackStmts id i stmts).Post
    (fun tr out => out.isOk = true → applied tr = l ++ stmts) pre := by
  induction stmts generalizing i pre l with
  | nil => simpa [rollbackStmts] using fun _ => hl
  | cons stmt stmts ih =>
    refine (rollbackStmt_post _ hl).bind fun tr x hx => ?_
    cases x with
    | error e => simp [Except.isOk, Except.toBool]
    | ok _ =>
      have htr : applied tr = l ++ [stmt] := by
        simpa [Executed, Except.isOk, Except.toBool] using hx
      exact (ih (i + 1) htr).mono fun _ _ h hok => by rw [h hok, List.append_assoc]; rfl

theorem verifyRollback_post {table : String} {cols : List String} (hl : applied pre = l) :
    (verifyRollback table cols).Post (fun tr _ => applied tr = l) pre := by
  induction cols generalizing pre with
  | nil => exact hl
  | cons col cols ih => exact post_call.mpr fun b => ih (by simpa [applied_cons, appliedBy] using hl)

/-- **A rollback that succeeds has executed its statements**, in order. -/
theorem rollback_runs {res : Result} (h : Runs (rollback r) t (.ok res)) :
    applied t = r.plan.rollback ∧ res.next = none := by
  have hp : (rollback r).Post
      (fun tr out => ∀ res, out = .ok res → applied tr = r.plan.rollback ∧ res.next = none) [] := by
    refine post_call.mpr fun b => ?_
    have hb : applied ([] ++ [⟨.terminateBackends, b⟩]) = [] := rfl
    refine (rollbackStmts_post 0 hb).bind fun tr x hx => ?_
    cases x with
    | error e => simp
    | ok _ =>
      refine (verifyRollback_post (hx rfl)).bind fun tr' _ htr' => ?_
      simpa using htr'
  exact hp.runs h res rfl

end Statements

/-! ### Where the handlers lead -/

/-- A result, if there is one, follows the happy path. -/
def Straight (out : Outcome) : Prop := ∀ res, out = .ok res → res.next = none

/-- A result follows the happy path, or diverts to a rollback. -/
def MayDivert (out : Outcome) : Prop :=
  ∀ res, out = .ok res → res.next = none ∨ res.next = some .rollingBack

@[simp] theorem straight_error (e : HandlerError) : Straight (.error e) := by
  rintro res ⟨⟩

@[simp] theorem straight_ok (c : Checkpoint) : Straight (.ok { checkpoint := c }) := by
  rintro res ⟨⟩
  rfl

theorem verify_all (r : Record) : (verify r).All (fun _ => True) Straight := by
  simp [verify, verifySample, skipped, Option.forall]

theorem cutoverAbort_mayDivert (p : MigrationPlan) (c : Checkpoint) (why : Refusal) :
    MayDivert (cutoverAbort p c why) := by
  intro res hres
  unfold cutoverAbort at hres
  split_ifs at hres
  cases hres
  exact Or.inr rfl

theorem cutover_all (r : Record) : (cutover r).All (fun _ => True) MayDivert := by
  have hgate : (serviceGate r.id).All (fun _ => True) fun _ => True :=
    Prog.All.mono (serviceGate_within r.id) (fun _ _ => trivial) fun _ h => h
  refine hgate.bind fun why _ => ?_
  cases why with
  | some why => exact cutoverAbort_mayDivert _ _ _
  | none =>
    simp only [all_ite]
    refine ⟨fun _ => by simp [MayDivert], fun _ => ?_⟩
    simp only [cutoverGate, Prog.perform_bind, all_call, Option.forall, all_ite]
    refine ⟨trivial, by simp [MayDivert], fun c => ⟨fun _ => cutoverAbort_mayDivert _ _ _, fun _ => ?_⟩⟩
    simp [MayDivert]

theorem backfillTurn_all_straight (r : Record) (pr : Progress) : (backfillTurn r pr).All
    (fun _ => True) fun x => ∀ out, x = .stop out → Straight out := by
  have hhealth : collectHealthMetrics.All (fun _ => True) fun _ => True :=
    Prog.All.mono collectHealthMetrics_within (fun _ _ => trivial) fun _ h => h
  have hupdate : updateHealth.All (fun _ => True) fun _ => True := by
    simp only [updateHealth, Prog.perform_bind, all_call]
    refine ⟨trivial, fun _ => hhealth.bind fun m _ => ?_⟩
    cases m <;> simp [Prog.perform]
  have hrecord : ∀ n pr, (backfillRecord r n pr).All (fun _ => True)
      fun x => ∀ out, x = .stop out → Straight out :=
    fun n pr => hhealth.bind fun m _ => by simp
  simp only [backfillTurn, Prog.perform_bind, all_call, all_ite]
  refine ⟨trivial, fun _ => ⟨by simp, fun _ => ⟨trivial, fun _ => ⟨by simp, fun _ => ?_⟩⟩⟩⟩
  refine hupdate.bind fun _ _ => ?_
  simp [backfillAdvance, hrecord, Option.forall]

/-! ### Advances -/

/-- The cutover has measured the whole table, and it was within the thresholds. -/
def Measured (p : MigrationPlan) (ev : Event engine) : Prop :=
  ∃ total drifted : ℕ, (threshold p).val ≤ (parity total drifted).val ∧
    ev = ⟨.fullParity p.table p.backfill.column p.backfill.sourceExpr, some (total, 0, drifted)⟩

/-- A canary of the migration that has passed: it has observed every step, without a breach. -/
def Observed (delay : ℤ) (id : Id) (p : MigrationPlan) (t : List (Event engine)) : Prop :=
  ∃ r c, r.id = id ∧ r.plan = p ∧ Runs (canary delay r) t (.ok { checkpoint := c }) ∧
    (observed t).map Prod.fst = p.canary.steps ∧ ¬Breached p.slo t

/-- What the trace of a handler contains when it leads from the first state to the second. -/
inductive Advance (delay : ℤ) (id : Id) (p : MigrationPlan) (t : List (Event engine)) :
    State → State → Prop
  | started : Advance delay id p t .pending .expanding
  | expanded (h : applied t = p.expand) : Advance delay id p t .expanding .backfilling
  | backfilled : Advance delay id p t .backfilling .verifying
  | verified : Advance delay id p t .verifying .canary
  | observed (h : Observed delay id p t) : Advance delay id p t .canary .cutover
  | committed (h : p.backfill.column = "" ∨ ∃ ev ∈ t, Measured p ev) :
      Advance delay id p t .cutover .contracting
  | contracted : Advance delay id p t .contracting .done
  | diverted {cur : State} (h : cur = .canary ∨ cur = .cutover) :
      Advance delay id p t cur .rollingBack
  | rolledBack (h : applied t = p.rollback) : Advance delay id p t .rollingBack .rolledBack

theorem target_of_next {cur : State} {res : Result} (h : res.next = none) :
    Result.target cur res = next cur := by simp [Result.target, h]

theorem target_of_divert {cur : State} {res : Result} (h : res.next = some .rollingBack) :
    Result.target cur res = some .rollingBack := by simp [Result.target, h]

/-- The handler of a state, by the state it leads to. -/
theorem advance_of_handler {cur dst : State} {h : Record → Code Outcome} {res : Result}
    (hc : handlers delay cur = some h) (ht : Runs (h r) t (.ok res))
    (hd : Result.target cur res = some dst) : Advance delay r.id r.plan t cur dst := by
  cases cur <;> simp only [handlers, Option.some.injEq, reduceCtorEq] at hc <;> subst hc
  case pending =>
    obtain ⟨-, hres⟩ := runs_ret.mp ht
    cases hres
    cases hd
    exact .started
  case expanding =>
    obtain ⟨happ, hn⟩ := runStmts_runs ht
    cases (target_of_next hn).symm.trans hd
    exact .expanded happ
  case backfilling =>
    obtain ⟨-, hres⟩ := runs_ret.mp ht
    cases hres
    cases hd
    exact .backfilled
  case verifying =>
    cases (target_of_next (((verify_all r).runs ht).1 res rfl)).symm.trans hd
    exact .verified
  case canary =>
    have hend := (canary_runs ht).1
    generalize hout : (Except.ok res : Outcome) = out at hend
    cases hend with
    | passed hs hb hl =>
      cases hout
      cases hd
      exact .observed ⟨r, _, rfl, rfl, ht, hs, hb⟩
    | failed hb => cases hout
    | breached hdiv hl =>
      subst hout
      have hdiv : Result.target .canary res = _ := hdiv
      rw [hd] at hdiv
      split_ifs at hdiv
      cases hdiv
      exact .diverted (Or.inl rfl)
  case cutover =>
    rcases ((cutover_all r).runs ht).1 res rfl with hn | hn
    · have hnext : Result.target .cutover res = _ := target_of_next hn
      cases hnext.symm.trans hd
      refine .committed (((cutover_runs ht).1 hnext).imp_right ?_)
      rintro ⟨total, drifted, hp, hm⟩
      exact ⟨_, hm, total, drifted, hp, rfl⟩
    · cases (target_of_divert hn).symm.trans hd
      exact .diverted (Or.inr rfl)
  case contracting =>
    cases (target_of_next (runStmts_runs ht).2).symm.trans hd
    exact .contracted
  case rollingBack =>
    obtain ⟨happ, hn⟩ := rollback_runs ht
    cases (target_of_next hn).symm.trans hd
    exact .rolledBack happ

/-- **What has been done when a run saves a new state**: the last events are those of a handler that
leads there, on the plan that has been loaded. -/
theorem completed_advance {pt : Pt} {tr : List (Event engine)} {src dst : State} {p : MigrationPlan}
    (h : Completed delay id pt tr src dst)
    (hp : ∀ r, ⟨.load id, some r⟩ ∈ tr → r.id = id ∧ r.plan = p) :
    ∃ t0 t, tr = t0 ++ t ∧ Advance delay id p t src dst := by
  cases h with
  | @handler cur _ h r t res hc ht hd hb =>
    obtain ⟨rfl, rfl⟩ := hp r (by simp)
    exact ⟨[⟨.ctxDone, false⟩, ⟨.load r.id, some r⟩], t, rfl, advance_of_handler hc ht hd⟩
  | @batch r pr _ _ res ht hd =>
    have hn : res.next = none := ((backfillTurn_all_straight r pr).runs ht).1 _ rfl res rfl
    cases (target_of_next hn).symm.trans hd
    exact ⟨[], tr, rfl, .backfilled⟩

end MigrationSafety.StateMachine.Outcomes
