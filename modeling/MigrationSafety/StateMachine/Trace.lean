import MigrationSafety.StateMachine.Run

/-! # What a run asks for

`body_spec` says once what a stretch of a run can do: `Ask` is what it may ask for and `Done` how it
may end, in view of its events so far. Every invariant of the engine is derived from it.

A handler never loads or saves a record (`handlers_within`), so a record is saved only after the
handler of its state has returned (`Completed`), and after that the run only pauses. -/

namespace MigrationSafety.StateMachine.Trace

open MigrationSafety.Lib.Effects MigrationSafety.Plan.Validate MigrationSafety.Safety.Executor
open MigrationSafety.StateMachine.Signature MigrationSafety.StateMachine.Handlers
open MigrationSafety.StateMachine.Run

/-! ### What a handler asks for -/

/-- The operations of a handler: neither the position of the migration nor the throttle. -/
def workKinds : List Kind := [.journal, .clock, .probe, .ddl, .column]

/-- The operations of the handlers that execute statements of the plan. -/
def stmtKinds : List Kind := [.journal, .clock, .probe, .ddl]

/-- The operations of the canary. -/
def canaryKinds : List Kind := [.journal, .clock, .probe]

/-- The operations of the gates. -/
def gateKinds : List Kind := [.journal, .clock, .probe, .column]

/-- The operations of the backfill loop. -/
def backfillKinds : List Kind := [.journal, .clock, .probe, .column, .throttle]

theorem mem_stmtKinds {k : Kind} :
    k ∈ stmtKinds ↔ k ≠ .cursor ∧ k ≠ .throttle ∧ k ≠ .column := by
  cases k <;> decide

theorem mem_canaryKinds {k : Kind} : k ∈ canaryKinds ↔ k = .journal ∨ k = .clock ∨ k = .probe := by
  cases k <;> decide

theorem mem_gateKinds {k : Kind} :
    k ∈ gateKinds ↔ k ≠ .cursor ∧ k ≠ .throttle ∧ k ≠ .ddl := by
  cases k <;> decide

theorem mem_backfillKinds {k : Kind} : k ∈ backfillKinds ↔ k ≠ .cursor ∧ k ≠ .ddl := by
  cases k <;> decide

theorem execDDL_within_stmt (stmt : String) : Within stmtKinds (execDDL stmt) :=
  (execDDL_within stmt).mono (by decide)

theorem execEach_within (fail : ℕ → String → DDLError → HandlerError) (id : Id) (i : ℕ)
    (stmts : List String) : Within stmtKinds (execEach fail id i stmts) := by
  induction stmts generalizing i with
  | nil => simp [execEach]
  | cons stmt stmts ih =>
    refine (execDDL_within_stmt stmt).bind fun r => ?_
    cases r <;> simp [mem_stmtKinds, Op.kind, ih]

theorem runStmts_within (fail : ℕ → String → DDLError → HandlerError) (key : String) (id : Id)
    (stmts : List String) : Within stmtKinds (runStmts fail key id stmts) :=
  (execEach_within fail id 0 stmts).bind fun r => by cases r <;> simp

theorem tryRollback_within (id : Id) (stmt : String) : Within stmtKinds (tryRollback id stmt) :=
  (execDDL_within_stmt stmt).bind fun r => by cases r <;> simp [mem_stmtKinds, Op.kind]

theorem rollbackStmt_within (id : Id) (stmt : String) (left : ℕ) :
    Within stmtKinds (rollbackStmt id stmt left) := by
  induction left with
  | zero => exact tryRollback_within id stmt
  | succ left ih =>
    refine (tryRollback_within id stmt).bind fun r => ?_
    cases r <;> simp [mem_stmtKinds, Op.kind, ih]

theorem rollbackStmts_within (id : Id) (i : ℕ) (stmts : List String) :
    Within stmtKinds (rollbackStmts id i stmts) := by
  induction stmts generalizing i with
  | nil => simp [rollbackStmts]
  | cons stmt stmts ih =>
    refine (rollbackStmt_within id stmt _).bind fun r => ?_
    cases r <;> simp [ih]

theorem verifyRollback_within (table : String) (cols : List String) :
    Within stmtKinds (verifyRollback table cols) := by
  induction cols with
  | nil => simp [verifyRollback]
  | cons col cols ih => simp [verifyRollback, mem_stmtKinds, Op.kind, ih]

theorem rollback_within (r : Record) : Within stmtKinds (rollback r) := by
  simp only [rollback, Prog.perform_bind, within_call]
  refine ⟨by simp [mem_stmtKinds, Op.kind], fun _ => (rollbackStmts_within _ _ _).bind fun x => ?_⟩
  cases x with
  | error e => simp
  | ok _ => exact (verifyRollback_within _ _).bind fun _ => by simp

theorem verify_within (r : Record) : Within gateKinds (verify r) := by
  simp [verify, verifySample, skipped, Option.forall, mem_gateKinds, Op.kind]

theorem preflight_within (slo : SLO) : Within [.probe, .clock] (preflight slo) := by
  simp [preflight, checkReplicationLag, Option.forall, Op.kind]

theorem canaryObserve_within (delay : ℤ) (r : Record) (step : ℤ) :
    Within canaryKinds (canaryObserve delay r step) := by
  cases hb : sloBreached (observeCanary r.plan step) r.plan.slo with
  | none => simp [canaryObserve, hb, canaryHealthy, mem_canaryKinds, Op.kind]
  | some why =>
    simp only [canaryObserve, hb, canaryBreached, Prog.perform_bind, Prog.bind_call]
    split_ifs <;> simp [mem_canaryKinds, Op.kind]

theorem canaryStep_within (delay : ℤ) (r : Record) (step : ℤ) :
    Within canaryKinds (canaryStep delay r step) := by
  simp only [canaryStep, Prog.perform_bind, within_call, within_ite]
  refine ⟨by simp [mem_canaryKinds, Op.kind], fun _ => ⟨fun _ => by simp, fun _ => ?_⟩⟩
  refine ((preflight_within _).mono (by decide)).bind fun why => ?_
  cases why <;> simp [canaryObserve_within]

theorem canarySteps_within (delay : ℤ) (r : Record) (steps : List ℤ) :
    Within canaryKinds (canarySteps delay r steps) := by
  induction steps with
  | nil => simp [canarySteps]
  | cons step steps ih =>
    refine (canaryStep_within delay r step).bind fun out => ?_
    cases out <;> simp [ih]

theorem canary_within (delay : ℤ) (r : Record) : Within canaryKinds (canary delay r) := by
  have := canarySteps_within delay r r.plan.canary.steps
  simp [canary, checkReplicationLag, Option.forall, mem_canaryKinds, Op.kind, this]

theorem serviceGate_within (id : Id) : Within gateKinds (serviceGate id) := by
  simp [serviceGate, Option.forall, mem_gateKinds, Op.kind]

theorem cutover_within (r : Record) : Within gateKinds (cutover r) := by
  refine (serviceGate_within r.id).bind fun why => ?_
  cases why with
  | some why => simp
  | none => simp [cutoverGate, Option.forall, mem_gateKinds, Op.kind]

/-- **No handler loads or saves a record.** -/
theorem handlers_within {delay : ℤ} {cur : State} {h : Record → Code Outcome}
    (hc : handlers delay cur = some h) (r : Record) : Within workKinds (h r) := by
  cases cur <;> simp only [handlers, Option.some.injEq, reduceCtorEq] at hc <;> subst hc
  · simp [noop]
  · exact (runStmts_within _ _ _ _).mono (by decide)
  · simp [skipped]
  · exact (verify_within r).mono (by decide)
  · exact (canary_within delay r).mono (by decide)
  · exact (cutover_within r).mono (by decide)
  · exact (runStmts_within _ _ _ _).mono (by decide)
  · exact (rollback_within r).mono (by decide)

theorem backfillEnter_within (r : Record) : Within backfillKinds (backfillEnter r) := by
  simp [backfillEnter, Option.forall, mem_backfillKinds, Op.kind]

theorem backfillTurn_within (r : Record) (pr : Progress) :
    Within backfillKinds (backfillTurn r pr) := by
  have hhealth : Within backfillKinds collectHealthMetrics :=
    collectHealthMetrics_within.mono (by decide)
  have hrecord : ∀ n pr, Within backfillKinds (backfillRecord r n pr) := fun n pr =>
    hhealth.bind fun m => by simp [mem_backfillKinds, Op.kind]
  have hupdate : Within backfillKinds updateHealth := by
    simp only [updateHealth, Prog.perform_bind, within_call]
    refine ⟨by simp [mem_backfillKinds, Op.kind], fun _ => hhealth.bind fun m => ?_⟩
    cases m with
    | none => simp
    | some m => exact within_ask.mpr (by simp [mem_backfillKinds, Op.kind])
  simp only [backfillTurn, Prog.perform_bind, within_call, within_ite]
  refine ⟨by simp [mem_backfillKinds, Op.kind], fun _ => ⟨fun _ => by simp, fun _ => ?_⟩⟩
  refine ⟨by simp [mem_backfillKinds, Op.kind], fun _ => ⟨fun _ => ?_, fun _ => ?_⟩⟩
  · simp [mem_backfillKinds, Op.kind]
  · refine hupdate.bind fun _ => ?_
    simp [backfillAdvance, hrecord, Option.forall, mem_backfillKinds, Op.kind]

/-- What follows a handler is a save and a pause, and does not enter the backfill loop. -/
theorem finish_all (delay : ℤ) (id : Id) (cur : State) (out : Outcome) :
    (finish delay id cur out).All (fun op => Op.kind op = .cursor ∨ Op.kind op = .clock)
      fun x => ∀ r pr, x ≠ .goto (.batch r pr) := by
  cases out with
  | error e => simp [finish]
  | ok res => cases hd : Result.target cur res <;> simp [finish, hd, save, afterSave, Op.kind]

/-- Where a stretch of a run leads, as long as it stays in `Backfilling`. -/
def follow : Exit → Option Pt
  | .goto (.loop .backfilling) => some (.loop .backfilling)
  | .goto (.batch r pr) => some (.batch r pr)
  | _ => none

theorem follow_of_ne {x : Exit} {pt : Pt} (hx : ∀ r pr, x ≠ .goto (.batch r pr))
    (h : follow x = some pt) : pt = .loop .backfilling := by
  rcases x with (_ | cur | ⟨r, pr⟩) | _
  · cases h
  · cases cur <;> cases h
    rfl
  · exact absurd rfl (hx r pr)
  · cases h

/-- Three handlers send statements to the target. -/
def Pt.sends (pt : Pt) : Prop :=
  pt.state = some .expanding ∨ pt.state = some .contracting ∨ pt.state = some .rollingBack

/-- The program sends something only at such a point. -/
def Sending (pt : Pt) {α : Type} (p : Code α) : Prop :=
  p.All (fun op => Op.kind op = .ddl → Pt.sends pt) fun _ => True

section Sending
variable {pt : Pt} {α β : Type}

theorem Sending.of_within {p : Code α} {ks : List Kind} (hp : Within ks p) (h : Kind.ddl ∉ ks) :
    Sending pt p :=
  Prog.All.mono hp (fun _ hop hk => absurd (hk ▸ hop) h) fun _ _ => trivial

theorem Sending.of_sends (hpt : Pt.sends pt) {p : Code α} {ks : List Kind} (hp : Within ks p) :
    Sending pt p :=
  Prog.All.mono hp (fun _ _ _ => hpt) fun _ _ => trivial

theorem Sending.bind {p : Code α} {f : α → Code β} (hp : Sending pt p)
    (hf : ∀ a, Sending pt (f a)) : Sending pt (p >>= f) := Prog.All.bind hp fun a _ => hf a

theorem sending_finish (delay : ℤ) (id : Id) (cur : State) (out : Outcome) :
    Sending pt (finish delay id cur out) :=
  (finish_all delay id cur out).mono (fun _ hop hk => by simp [hk] at hop) fun _ _ => trivial

theorem sending_handlers {delay : ℤ} {cur : State} {h : Record → Code Outcome}
    (hc : handlers delay cur = some h) (r : Record) : Sending (.loop cur) (h r) := by
  cases cur <;> simp only [handlers, Option.some.injEq, reduceCtorEq] at hc <;> subst hc
  case pending => trivial
  case expanding => exact .of_sends (by simp [Pt.sends, Pt.state]) (runStmts_within _ _ _ _)
  case backfilling => trivial
  case verifying => exact .of_within (verify_within r) (by decide)
  case canary => exact .of_within (canary_within delay r) (by decide)
  case cutover => exact .of_within (cutover_within r) (by decide)
  case contracting => exact .of_sends (by simp [Pt.sends, Pt.state]) (runStmts_within _ _ _ _)
  case rollingBack => exact .of_sends (by simp [Pt.sends, Pt.state]) (rollback_within r)

theorem sending_dispatch {delay : ℤ} {id : Id} {cur : State} {h : Record → Code Outcome}
    (hc : handlers delay cur = some h) (r : Record) :
    Sending (.loop cur) (dispatch delay id cur h r) := by
  unfold dispatch
  split_ifs
  · refine (Sending.of_within (backfillEnter_within r) (by decide)).bind fun x => ?_
    cases x with
    | error e => exact sending_finish ..
    | ok pr => trivial
  · exact (sending_handlers hc r).bind fun out => sending_finish ..

/-- **Nothing is sent outside the handlers of `Expanding`, `Contracting` and `RollingBack`.** -/
theorem sending_body (delay : ℤ) (id : Id) (pt : Pt) : Sending pt (body delay id pt) := by
  cases pt with
  | start => exact ⟨by simp [Op.kind], fun r => by cases r <;> trivial⟩
  | batch r pr =>
    refine (Sending.of_within (backfillTurn_within r pr) (by decide)).bind fun x => ?_
    cases x with
    | again pr' => trivial
    | stop out => exact sending_finish ..
  | loop cur =>
    by_cases ht : isTerminal cur = true
    · simp only [body, ht, if_true]
      trivial
    · simp only [body, ht, Bool.false_eq_true, if_false]
      refine ⟨by simp [Op.kind], fun b => ?_⟩
      cases b with
      | true => trivial
      | false =>
        cases hc : handlers delay cur with
        | none => trivial
        | some h =>
          refine ⟨by simp [Op.kind], fun r => ?_⟩
          cases r with
          | none => trivial
          | some r => exact sending_dispatch hc r

end Sending

/-! ### What a stretch of a run asks for, and how it ends -/

/-- After the events of the stretch, the handler has returned a result that leads from the first state
to the second. -/
inductive Completed (delay : ℤ) (id : Id) : Pt → List (Event engine) → State → State → Prop
  | handler {cur dst : State} {h : Record → Code Outcome} {r : Record} {t : List (Event engine)}
      {res : Result} (hc : handlers delay cur = some h) (ht : Runs (h r) t (.ok res))
      (hd : Result.target cur res = some dst)
      (hb : cur = .backfilling → r.plan.backfill.column = "") :
      Completed delay id (.loop cur) (⟨.ctxDone, false⟩ :: ⟨.load id, some r⟩ :: t) cur dst
  | batch {r : Record} {pr : Progress} {dst : State} {t : List (Event engine)} {res : Result}
      (ht : Runs (backfillTurn r pr) t (.stop (.ok res)))
      (hd : Result.target .backfilling res = some dst) :
      Completed delay id (.batch r pr) t .backfilling dst

def Op.isSave : Op → Bool
  | .saveState .. => true
  | _ => false

/-- Nothing has been saved yet. -/
def NoSave (tr : List (Event engine)) : Prop := ∀ ev ∈ tr, Op.isSave ev.op = false

/-- The operations a stretch may ask for. -/
inductive Ask (delay : ℤ) (id : Id) (pt : Pt) : List (Event engine) → Op → Prop
  | load {tr : List (Event engine)} (hs : NoSave tr) : Ask delay id pt tr (.load id)
  | work {tr : List (Event engine)} {op : Op} (hs : NoSave tr) (hk : op.kind ≠ .cursor) :
      Ask delay id pt tr op
  | save {tr : List (Event engine)} {src dst : State} {checkpoint : Checkpoint}
      (h : Completed delay id pt tr src dst) :
      Ask delay id pt tr (.saveState id src dst checkpoint (isTerminal dst))
  | bake {tr : List (Event engine)} {src dst : State} {checkpoint : Checkpoint} :
      Ask delay id pt (tr ++ [⟨.saveState id src dst checkpoint (isTerminal dst), true⟩])
        (.wait delay)

/-- The ways a stretch may end. -/
inductive Done (delay : ℤ) (id : Id) : Pt → List (Event engine) → Exit → Prop
  | stop {pt : Pt} {tr : List (Event engine)} {x : Except RunError Unit} :
      Done delay id pt tr (.stop x)
  | loaded {r : Record} :
      Done delay id .start [⟨.load id, some r⟩] (.goto (.loop r.state))
  | saved {pt : Pt} {tr t : List (Event engine)} {src dst : State} {checkpoint : Checkpoint}
      (htr : NoSave tr) (ht : NoSave t) :
      Done delay id pt (tr ++ ⟨.saveState id src dst checkpoint (isTerminal dst), true⟩ :: t)
        (.goto (.loop dst))
  | enter {r : Record} {pr : Progress} {t : List (Event engine)} (ht : NoSave t)
      (hl : ⟨.load id, some r⟩ ∈ t) :
      Done delay id (.loop .backfilling) t (.goto (.batch r pr))
  | again {r : Record} {pr pr' : Progress} {t : List (Event engine)} (ht : NoSave t) :
      Done delay id (.batch r pr) t (.goto (.batch r pr'))

theorem isSave_of_kind {op : Op} (h : op.kind ≠ .cursor) : Op.isSave op = false := by
  cases op <;> first | rfl | exact absurd rfl h

theorem noSave_of_kind {ks : List Kind} {t : List (Event engine)} (hks : Kind.cursor ∉ ks)
    (h : ∀ ev ∈ t, Op.kind ev.op ∈ ks) : NoSave t :=
  fun ev hev => isSave_of_kind fun hk => hks (hk ▸ h ev hev)

theorem NoSave.append {t t' : List (Event engine)} (h : NoSave t) (h' : NoSave t') :
    NoSave (t ++ t') := by
  intro ev hev
  rcases List.mem_append.mp hev with hev | hev
  · exact h ev hev
  · exact h' ev hev

theorem noSave_nil : NoSave [] := by simp [NoSave]

/-- When something is saved, nothing has been saved before. -/
theorem Completed.noSave {delay : ℤ} {id : Id} {pt : Pt} {tr : List (Event engine)}
    {src dst : State} (h : Completed delay id pt tr src dst) : NoSave tr := by
  cases h with
  | @handler cur _ h r t res hc ht _ _ =>
    have := noSave_of_kind (by decide) ((handlers_within hc r).after ht).2
    exact NoSave.append (t := [_, _]) (by simp [NoSave, Op.isSave]) this
  | @batch r pr _ t res ht _ =>
    exact noSave_of_kind (by decide) ((backfillTurn_within r pr).after ht).2

theorem Completed.pt_state {delay : ℤ} {id : Id} {pt : Pt} {tr : List (Event engine)}
    {src dst : State} (h : Completed delay id pt tr src dst) : pt.state = some src := by
  cases h <;> rfl

/-- The first save of a list is determined. -/
theorem first_save {t t' u u' : List (Event engine)} {x x' : Event engine} (ht : NoSave t)
    (ht' : NoSave t') (hx : Op.isSave x.op = true) (hx' : Op.isSave x'.op = true)
    (h : t ++ x :: u = t' ++ x' :: u') : t = t' ∧ x = x' ∧ u = u' := by
  induction t generalizing t' with
  | nil =>
    cases t' with
    | nil =>
      obtain ⟨rfl, rfl⟩ := List.cons_eq_cons.mp h
      exact ⟨rfl, rfl, rfl⟩
    | cons y t' =>
      obtain ⟨rfl, -⟩ := List.cons_eq_cons.mp h
      rw [ht' x (by simp)] at hx
      cases hx
  | cons y t ih =>
    cases t' with
    | nil =>
      obtain ⟨rfl, -⟩ := List.cons_eq_cons.mp h
      rw [ht y (by simp)] at hx'
      cases hx'
    | cons y' t' =>
      obtain ⟨hy, hrest⟩ := List.cons_eq_cons.mp h
      obtain ⟨htt, hxx, huu⟩ := ih (fun ev hev => ht ev (by simp [hev]))
        (fun ev hev => ht' ev (by simp [hev])) hrest
      exact ⟨by rw [hy, htt], hxx, huu⟩

/-- A save is asked for with the right id and flag, when the handler has returned. -/
theorem Ask.save_inv {delay : ℤ} {id i : Id} {pt : Pt} {tr : List (Event engine)} {src dst : State}
    {c : Checkpoint} {terminal : Bool} (h : Ask delay id pt tr (.saveState i src dst c terminal)) :
    i = id ∧ terminal = isTerminal dst ∧ Completed delay id pt tr src dst := by
  cases h with
  | work _ hk => exact absurd rfl hk
  | save hc => exact ⟨rfl, rfl, hc⟩

theorem Ask.load_inv {delay : ℤ} {id i : Id} {pt : Pt} {tr : List (Event engine)}
    (h : Ask delay id pt tr (.load i)) : i = id := by
  cases h with
  | load _ => rfl
  | work _ hk => exact absurd rfl hk

section Body
variable {delay : ℤ} {id : Id} {pt : Pt} {pre : List (Event engine)}

/-- A program of other kinds asks for what it may, and leaves a run of itself. -/
theorem work_spec {α : Type} {p : Code α} {ks : List Kind} (hp : Within ks p)
    (hks : Kind.cursor ∉ ks) (hpre : NoSave pre) :
    p.Spec (Ask delay id pt)
      (fun tr a => ∃ t, tr = pre ++ t ∧ Runs p t a ∧ NoSave t) pre := by
  refine (hp.spec fun t e ht he => ?_).mono (fun _ _ h => h) ?_
  · exact Ask.work (hpre.append (noSave_of_kind hks ht)) fun hk => hks (hk ▸ he)
  · rintro tr a ⟨t, rfl, hr, ht⟩
    exact ⟨t, rfl, hr, noSave_of_kind hks ht⟩

theorem save_spec {src dst : State} {checkpoint : Checkpoint}
    (h : Completed delay id pt pre src dst) :
    (save delay id src dst checkpoint).Spec (Ask delay id pt) (Done delay id pt) pre := by
  refine spec_perform_bind.mpr ⟨Ask.save h, fun ok => ?_⟩
  cases ok with
  | false => exact Done.stop
  | true =>
    by_cases hd : 0 < delay
    · simp only [if_true, afterSave, if_pos hd]
      refine spec_perform_bind.mpr ⟨Ask.bake, fun b => ?_⟩
      cases b with
      | true => exact Done.stop
      | false =>
        rw [List.append_assoc]
        exact Done.saved (t := [⟨.wait delay, false⟩]) h.noSave (by simp [NoSave, Op.isSave])
    · simp only [if_true, afterSave, if_neg hd]
      exact Done.saved h.noSave noSave_nil

/-- After the handler. -/
theorem finish_spec {cur : State} {out : Outcome}
    (h : ∀ res dst, out = .ok res → Result.target cur res = some dst →
      Completed delay id pt pre cur dst) :
    (finish delay id cur out).Spec (Ask delay id pt) (Done delay id pt) pre := by
  cases out with
  | error e => exact Done.stop
  | ok res =>
    cases hd : Result.target cur res with
    | none =>
      simp only [finish, hd]
      exact Done.stop
    | some dst => simpa only [finish, hd] using save_spec (h res dst rfl hd)

theorem pass_spec {cur : State} :
    (pass delay id cur).Spec (Ask delay id (.loop cur)) (Done delay id (.loop cur)) [] := by
  refine spec_perform_bind.mpr ⟨Ask.work noSave_nil (by decide), fun b => ?_⟩
  cases b with
  | true => exact Done.stop
  | false =>
    have hb : NoSave ([] ++ [⟨.ctxDone, false⟩]) := by simp [NoSave, Op.isSave]
    cases hc : handlers delay cur with
    | none => simpa [hc] using Done.stop
    | some h =>
      simp only [Bool.false_eq_true, if_false]
      refine spec_perform_bind.mpr ⟨Ask.load hb, fun r => ?_⟩
      cases r with
      | none => exact Done.stop
      | some r =>
        have hl : NoSave ([] ++ [⟨.ctxDone, false⟩] ++ [⟨.load id, some r⟩]) := by
          simp [NoSave, Op.isSave]
        simp only [dispatch]
        split_ifs with hcol
        · obtain ⟨rfl, -⟩ := hcol
          refine (work_spec (backfillEnter_within r) (by decide) hl).bind ?_
          rintro tr x ⟨t, rfl, -, ht⟩
          cases x with
          | error e => exact Done.stop
          | ok pr => exact Done.enter (hl.append ht) (by simp)
        · refine (work_spec (handlers_within hc r) (by decide) hl).bind ?_
          rintro tr x ⟨t, rfl, hr, ht⟩
          refine finish_spec ?_
          rintro res dst rfl hd
          exact Completed.handler hc hr hd fun hcur => by
            by_contra hne
            exact hcol ⟨hcur, hne⟩

/-- **What a stretch of a run asks for, and how it ends.** -/
theorem body_spec (delay : ℤ) (id : Id) (pt : Pt) :
    (body delay id pt).Spec (Ask delay id pt) (Done delay id pt) [] := by
  cases pt with
  | start =>
    refine spec_perform_bind.mpr ⟨Ask.load noSave_nil, fun r => ?_⟩
    cases r with
    | none => exact Done.stop
    | some r => exact Done.loaded
  | loop cur =>
    by_cases ht : isTerminal cur = true
    · simpa [body, ht] using Done.stop
    · simpa [body, ht] using pass_spec
  | batch r pr =>
    refine (work_spec (backfillTurn_within r pr) (by decide) noSave_nil).bind ?_
    rintro tr x ⟨t, rfl, hr, ht⟩
    cases x with
    | again pr' => exact Done.again ht
    | stop out =>
      refine finish_spec ?_
      rintro res dst rfl hd
      exact Completed.batch hr hd

end Body

end MigrationSafety.StateMachine.Trace
