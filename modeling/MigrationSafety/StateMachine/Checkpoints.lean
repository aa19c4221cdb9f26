import MigrationSafety.StateMachine.CanarySteps

/-! # What a run persists

Checkpoints are written by `SaveCheckpoint`, inside the backfill and the canary, and with every new
state. `body_view` says what a run asks for as far as they and the observations of the canary are
concerned: only the canary observes, and only what it writes holds a `canary_pct`. -/

namespace MigrationSafety.StateMachine.Checkpoints

open MigrationSafety.Lib.Effects MigrationSafety.Plan.Validate MigrationSafety.Safety.Executor
open MigrationSafety.StateMachine.Signature MigrationSafety.StateMachine.Handlers
open MigrationSafety.StateMachine.Run MigrationSafety.StateMachine.CanarySteps

variable {delay : ℤ} {id : Id} {r : Record} {pr : Progress}

/-- The `canary_pct` of a checkpoint. -/
def percentOf (c : Checkpoint) : Option ℤ :=
  match c.lookup "canary_pct" with
  | some (.int n) => some n
  | _ => none

@[simp] theorem percentOf_percent (step : ℤ) : percentOf (percent step) = some step := by
  simp [percentOf, percent]

/-- The checkpoint an operation writes. -/
def Op.persists : Op → Option Checkpoint
  | .saveState _ _ _ c _ => some c
  | .saveCheckpoint _ _ c => some c
  | _ => none

/-- Is the operation a checkpoint within a state, or an observation? -/
def Op.marks : Op → Bool
  | .saveCheckpoint .. | .logCanaryObservation .. => true
  | _ => false

theorem marks_of_kind {op : Op} (h : op.kind ≠ .journal) : Op.marks op = false := by
  cases op <;> first | rfl | exact absurd rfl h

/-- A result without a `canary_pct`. -/
def Plain (out : Outcome) : Prop := ∀ res, out = .ok res → percentOf res.checkpoint = none

@[simp] theorem plain_error (e : HandlerError) : Plain (.error e) := by
  rintro res ⟨⟩

@[simp] theorem plain_ok {c : Checkpoint} {s : Option State} :
    Plain (.ok { checkpoint := c, next := s }) ↔ percentOf c = none := by
  simp [Plain]

/-! ### The handlers but the canary -/

/-- The program makes no marks and ends with a result that meets `Q`. -/
def Markless {α : Type} (Q : α → Prop) (p : Code α) : Prop :=
  p.All (fun op => Op.marks op = false) Q

theorem Markless.of_within {α : Type} {p : Code α} {ks : List Kind} (h : Within ks p)
    (hks : Kind.journal ∉ ks) : Markless (fun _ => True) p :=
  Prog.All.mono h (fun _ hop => marks_of_kind fun hk => hks (hk ▸ hop)) fun _ h => h

theorem execDDL_markless (stmt : String) : Markless (fun _ => True) (execDDL stmt) :=
  .of_within (execDDL_within stmt) (by decide)

theorem execEach_markless (fail : ℕ → String → DDLError → HandlerError) (i : ℕ)
    (stmts : List String) : Markless (fun _ => True) (execEach fail id i stmts) := by
  induction stmts generalizing i with
  | nil => trivial
  | cons stmt stmts ih =>
    refine (execDDL_markless stmt).bind fun x _ => ?_
    cases x with
    | error e => exact ⟨rfl, fun _ => trivial⟩
    | ok _ => exact ⟨rfl, fun _ => ih (i + 1)⟩

theorem runStmts_markless {fail : ℕ → String → DDLError → HandlerError} {key : String}
    {stmts : List String} (hk : key ≠ "canary_pct") :
    Markless Plain (runStmts fail key id stmts) := by
  refine (execEach_markless fail 0 stmts).bind fun x _ => ?_
  cases x with
  | error e => simp
  | ok _ => simp [percentOf, List.lookup_cons, beq_eq_false_iff_ne.mpr hk.symm]

theorem tryRollback_markless (stmt : String) :
    Markless (fun _ => True) (tryRollback id stmt) := by
  refine (execDDL_markless stmt).bind fun x _ => ?_
  cases x <;> exact ⟨rfl, fun _ => trivial⟩

theorem rollbackStmt_markless (stmt : String) (left : ℕ) :
    Markless (fun _ => True) (rollbackStmt id stmt left) := by
  induction left with
  | zero => exact tryRollback_markless stmt
  | succ left ih =>
    refine (tryRollback_markless stmt).bind fun x _ => ?_
    cases x with
    | ok _ => trivial
    | error e => exact ⟨rfl, fun _ => ih⟩

theorem rollbackStmts_markless (i : ℕ) (stmts : List String) :
    Markless (fun _ => True) (rollbackStmts id i stmts) := by
  induction stmts generalizing i with
  | nil => trivial
  | cons stmt stmts ih =>
    refine (rollbackStmt_markless stmt _).bind fun x _ => ?_
    cases x with
    | error e => trivial
    | ok _ => exact ih (i + 1)

theorem verifyRollback_markless (table : String) (cols : List String) :
    Markless (fun _ => True) (verifyRollback table cols) := by
  induction cols with
  | nil => trivial
  | cons col cols ih => exact ⟨rfl, fun _ => ih⟩

theorem rollback_markless : Markless Plain (rollback r) := by
  refine ⟨rfl, fun _ => (rollbackStmts_markless 0 _).bind fun x _ => ?_⟩
  cases x with
  | error e => simp
  | ok _ => exact (verifyRollback_markless _ _).bind fun _ _ => by simp [percentOf, List.lookup_cons]

theorem verify_markless : Markless Plain (verify r) := by
  simp [Markless, verify, verifySample, skipped, Option.forall, Op.marks, percentOf, List.lookup_cons]

theorem cutoverAbort_plain {p : MigrationPlan} {c : Checkpoint} {why : Refusal}
    (h : percentOf c = none) : Plain (cutoverAbort p c why) := by
  unfold cutoverAbort
  split_ifs <;> simp [h]

theorem cutover_markless : Markless Plain (cutover r) := by
  have hgate : Markless (fun _ => True) (serviceGate r.id) := by
    simp [Markless, serviceGate, Option.forall, Op.marks]
  refine hgate.bind fun why _ => ?_
  cases why with
  | some why => exact cutoverAbort_plain (by simp [percentOf, List.lookup_cons])
  | none =>
    simp only [cutoverGate, Prog.perform_bind, all_call, Option.forall, all_ite]
    refine ⟨fun _ => by simp [percentOf, List.lookup_cons], fun _ => ⟨rfl, plain_error _, fun c =>
      ⟨fun _ => cutoverAbort_plain ?_, fun _ => ?_⟩⟩⟩ <;> simp [percentOf, List.lookup_cons]

theorem skipped_plain : Plain skipped := by simp [skipped, percentOf, List.lookup_cons]

theorem handlers_markless {cur : State} {h : Record → Code Outcome}
    (hc : handlers delay cur = some h) (hcur : cur ≠ .canary) (r : Record) :
    Markless Plain (h r) := by
  cases cur <;> simp only [handlers, Option.some.injEq, reduceCtorEq] at hc <;> subst hc
  case pending => simp [Markless, noop, percentOf, List.lookup_cons]
  case expanding => exact runStmts_markless (by decide)
  case backfilling => exact skipped_plain
  case verifying => exact verify_markless
  case canary => exact absurd rfl hcur
  case cutover => exact cutover_markless
  case contracting => exact runStmts_markless (by decide)
  case rollingBack => exact rollback_markless

/-! ### The backfill -/

/-- The operation is no observation, and a checkpoint only one of the backfill. -/
def BackfillMark (r : Record) (op : Op) : Prop :=
  Op.marks op = false ∨ ∃ c, percentOf c = none ∧ op = .saveCheckpoint r.id .backfilling c

theorem Progress.percentOf_checkpoint (pr : Progress) : percentOf pr.checkpoint = none := by
  simp [Progress.checkpoint, percentOf, List.lookup_cons]

theorem backfillEnter_markless : Markless (fun _ => True) (backfillEnter r) := by
  simp [Markless, backfillEnter, Option.forall, Op.marks]

theorem backfillTurn_marks : (backfillTurn r pr).All (BackfillMark r)
    fun x => ∀ out, x = .stop out → Plain out := by
  have hprobe : ∀ {α : Type} {p : Code α}, Within [.probe] p → p.All (BackfillMark r) fun _ => True :=
    fun hp => Prog.All.mono hp
      (fun _ hop => Or.inl (marks_of_kind fun hk => by simp [hk] at hop)) fun _ h => h
  have hrecord : ∀ n pr, (backfillRecord r n pr).All (BackfillMark r)
      fun x => ∀ out, x = .stop out → Plain out := by
    intro n pr
    refine (hprobe collectHealthMetrics_within).bind fun m _ => ?_
    simp [BackfillMark, Op.marks, Progress.percentOf_checkpoint]
  have hupdate : updateHealth.All (BackfillMark r) fun _ => True := by
    simp only [updateHealth, Prog.perform_bind, all_call]
    refine ⟨Or.inl rfl, fun _ => (hprobe collectHealthMetrics_within).bind fun m _ => ?_⟩
    cases m with
    | none => trivial
    | some m => exact ⟨Or.inl rfl, fun _ => trivial⟩
  simp only [backfillTurn, Prog.perform_bind, all_call, all_ite]
  refine ⟨Or.inl rfl, fun _ => ⟨by simp, fun _ => ⟨Or.inl rfl, fun _ => ⟨fun _ => ?_, fun _ => ?_⟩⟩⟩⟩
  · exact ⟨Or.inl rfl, fun _ => by simp⟩
  · refine hupdate.bind fun _ _ => ?_
    simp [backfillAdvance, hrecord, Option.forall, BackfillMark, Op.marks,
      Progress.percentOf_checkpoint]

/-! ### Stretches -/

/-- What a stretch of a run may ask for, in view of what it persists and observes. -/
inductive View (id : Id) : Pt → List (Event engine) → Op → Prop
  | canary {r : Record} {t : List (Event engine)} {op : Op} (h : CanaryAsk r t op) :
      View id (.loop .canary) (⟨.ctxDone, false⟩ :: ⟨.load id, some r⟩ :: t) op
  | passed {r : Record} {t : List (Event engine)} {res : Result} {dst : State} {terminal : Bool}
      (h : CanaryDone r t (.ok res)) :
      View id (.loop .canary) (⟨.ctxDone, false⟩ :: ⟨.load id, some r⟩ :: t)
        (.saveState id .canary dst res.checkpoint terminal)
  | backfill {r : Record} {pr : Progress} {tr : List (Event engine)} {c : Checkpoint}
      (hp : percentOf c = none) : View id (.batch r pr) tr (.saveCheckpoint r.id .backfilling c)
  | plain {pt : Pt} {tr : List (Event engine)} {op : Op} (hm : Op.marks op = false)
      (hp : ∀ c, Op.persists op = some c → percentOf c = none) : View id pt tr op

theorem persists_eq_none {op : Op} (h : Op.marks op = false) (h' : op.kind ≠ .cursor) :
    Op.persists op = none := by
  cases op <;> first | rfl | exact absurd rfl h' | cases h

theorem View.unmarked {pt : Pt} {tr : List (Event engine)} {op : Op} (h : Op.marks op = false)
    (h' : op.kind ≠ .cursor) : View id pt tr op :=
  .plain h fun c hc => by rw [persists_eq_none h h'] at hc; cases hc

theorem View.load {pt : Pt} {tr : List (Event engine)} {i : Id} : View id pt tr (.load i) :=
  .plain rfl (by rintro c ⟨⟩)

/-- What follows a handler persists what the handler has returned. -/
theorem finish_view {pt : Pt} {cur : State} {out : Outcome} {tr : List (Event engine)}
    (h : ∀ res dst terminal, out = .ok res →
      View id pt tr (.saveState id cur dst res.checkpoint terminal)) :
    (finish delay id cur out).Spec (View id pt) (fun _ _ => True) tr := by
  cases out with
  | error e => trivial
  | ok res =>
    cases hd : Result.target cur res with
    | none =>
      simp only [finish, hd]
      trivial
    | some dst =>
      simp only [finish, hd, save]
      refine spec_perform_bind.mpr ⟨h res dst _ rfl, fun ok => ?_⟩
      cases ok with
      | false => trivial
      | true =>
        by_cases hpos : 0 < delay
        · simp only [if_true, afterSave, if_pos hpos]
          refine spec_perform_bind.mpr ⟨.unmarked rfl (by simp [Op.kind]), fun b => ?_⟩
          cases b <;> trivial
        · simp only [if_true, afterSave, if_neg hpos]
          trivial

/-- A plain result is saved plainly. -/
theorem finish_plain {pt : Pt} {cur : State} {out : Outcome} {tr : List (Event engine)}
    (h : Plain out) : (finish delay id cur out).Spec (View id pt) (fun _ _ => True) tr :=
  finish_view fun res dst terminal hres => .plain rfl (by rintro c ⟨⟩; exact h res hres)

/-- A program without marks, which saves no state. -/
theorem Markless.view {α : Type} {Q : α → Prop} {pt : Pt} {p : Code α} {tr : List (Event engine)}
    {ks : List Kind} (hp : Markless Q p) (hk : Within ks p) (hks : Kind.cursor ∉ ks) :
    p.Spec (View id pt) (fun _ => Q) tr := by
  have hp' : p.All (fun op => Op.marks op = false ∧ Op.kind op ≠ .cursor) Q :=
    Prog.All.and hp hk fun op hm hop => ⟨hm, fun hc => hks (hc ▸ hop)⟩
  exact (hp'.spec fun t op _ hop => View.unmarked hop.1 hop.2).mono (fun _ _ h => h)
    fun _ _ h => h.1

/-- A program without marks, and what follows it. -/
theorem markless_view {pt : Pt} {cur : State} {p : Code Outcome} {tr : List (Event engine)}
    {ks : List Kind} (hp : Markless Plain p) (hk : Within ks p) (hks : Kind.cursor ∉ ks) :
    (p >>= finish delay id cur).Spec (View id pt) (fun _ _ => True) tr := by
  refine (hp.view hk hks).bind ?_
  rintro tr out hout
  exact finish_plain hout

theorem dispatch_view {cur : State} {h : Record → Code Outcome}
    (hc : handlers delay cur = some h) (r : Record) :
    (dispatch delay id cur h r).Spec (View id (.loop cur)) (fun _ _ => True)
      [⟨.ctxDone, false⟩, ⟨.load id, some r⟩] := by
  unfold dispatch
  split_ifs with hcol
  · refine (backfillEnter_markless.view (Trace.backfillEnter_within r) (by decide)).bind ?_
    rintro tr x -
    cases x with
    | error e => exact finish_plain (plain_error e)
    | ok pr => trivial
  · by_cases hcur : cur = .canary
    · subst hcur
      obtain rfl : h = canary delay := (Option.some_injective _ hc).symm
      have hspec := (@canary_spec delay r).shift [⟨.ctxDone, false⟩, ⟨.load id, some r⟩]
      refine (hspec.mono ?_ fun _ _ h => h).bind ?_
      · rintro _ op ⟨u, rfl, hu⟩
        exact .canary hu
      · rintro _ out ⟨u, rfl, hu⟩
        refine finish_view ?_
        rintro res dst terminal rfl
        exact .passed hu
    · exact markless_view (handlers_markless hc hcur r) (Trace.handlers_within hc r) (by decide)

/-- **What a stretch of a run persists and observes.** -/
theorem body_view (delay : ℤ) (id : Id) (pt : Pt) :
    (body delay id pt).Spec (View id pt) (fun _ _ => True) [] := by
  cases pt with
  | start =>
    refine spec_perform_bind.mpr ⟨.load, fun r => ?_⟩
    cases r <;> trivial
  | batch r pr =>
    have hturn : (backfillTurn r pr).All (fun op => BackfillMark r op ∧ Op.kind op ≠ .cursor)
        fun x => ∀ out, x = .stop out → Plain out :=
      backfillTurn_marks.and (Trace.backfillTurn_within r pr) fun op hm hop =>
        ⟨hm, fun hc => by simp [hc, Trace.mem_backfillKinds] at hop⟩
    refine (hturn.spec fun t op _ hop => ?_).bind ?_
    · rcases hop with ⟨hm | ⟨c, hp, rfl⟩, hk⟩
      · exact .unmarked hm hk
      · exact .backfill hp
    · rintro tr x ⟨hx, -⟩
      cases x with
      | again pr' => trivial
      | stop out => exact finish_plain (hx out rfl)
  | loop cur =>
    by_cases ht : isTerminal cur = true
    · simp only [body, ht, if_true]
      trivial
    · simp only [body, ht, Bool.false_eq_true, if_false]
      refine spec_perform_bind.mpr ⟨.unmarked rfl (by decide), fun b => ?_⟩
      cases b with
      | true => trivial
      | false =>
        cases hc : handlers delay cur with
        | none => trivial
        | some h =>
          refine spec_perform_bind.mpr ⟨.load, fun r => ?_⟩
          cases r with
          | none => trivial
          | some r => exact dispatch_view hc r

end MigrationSafety.StateMachine.Checkpoints
