import MigrationSafety.StateMachine.Trace

/-! # The statement of a batch

The generator writes the composite backfill as a whole UPDATE, and the runner puts it where it expects
a SET list. So the statement of a batch is never the one the column specs call for
(`not_conforms_multi`), and the two agree only where nothing is sent (`batches_conform_iff`). -/

namespace MigrationSafety.StateMachine.Batches

open MigrationSafety.Lib.Effects MigrationSafety.Sql.Text MigrationSafety.Ddl.Generate
open MigrationSafety.Plan.Validate MigrationSafety.Safety.Executor
open MigrationSafety.StateMachine.Signature
open MigrationSafety.StateMachine.Handlers MigrationSafety.StateMachine.Run
open MigrationSafety.StateMachine.Trace

variable {r : Record} {table : String} {cols : List ColumnSpec} {c : ColumnSpec}

/-! ### What is sent -/

/-- The progress a backfill of the record can reach. -/
inductive Reaches (r : Record) : Progress → Prop
  | enter {delay : ℤ} {h : Record → Code Outcome} {t : List (Event engine)} {pr : Progress}
      (ht : Runs (dispatch delay r.id .backfilling h r) t (.goto (.batch r pr))) : Reaches r pr
  | again {pr pr' : Progress} {t : List (Event engine)} (h : Reaches r pr)
      (ht : Runs (backfillTurn r pr) t (.again pr')) : Reaches r pr'

/-- **A backfill of the record can send the statement.** -/
def Sends (r : Record) (stmt : BatchStmt) : Prop :=
  ∃ pr t lastID limit k, Reaches r pr ∧
    After (backfillTurn r pr) t (.call (.updateBatch stmt lastID limit) k)

/-- Nothing is sent without a tracked column. -/
theorem Reaches.column_ne {pr : Progress} (h : Reaches r pr) : r.plan.backfill.column ≠ "" := by
  induction h with
  | @enter delay h t pr ht =>
    intro hcol
    unfold dispatch at ht
    rw [if_neg fun h => h.2 hcol] at ht
    obtain ⟨t1, t2, out, rfl, -, h2⟩ := runs_bind.mp ht
    exact ((finish_all _ _ _ _).runs h2).1 _ _ rfl
  | again _ _ ih => exact ih

/-- If the operation is a batch UPDATE, it is this one. -/
def Batch (stmt : BatchStmt) : Op → Prop
  | .updateBatch s .. => s = stmt
  | _ => True

theorem Batch.of_probe {α : Type} {p : Code α} (hp : Within [.probe] p) (stmt : BatchStmt) :
    p.All (Batch stmt) fun _ => True :=
  Prog.All.mono hp (fun op hop => by cases op <;> trivial) fun _ h => h

/-- A turn of the loop sends only the statement of the plan. -/
theorem backfillTurn_all (r : Record) (pr : Progress) :
    (backfillTurn r pr).All (Batch (batchStmt r.plan)) fun _ => True := by
  have hhealth := Batch.of_probe collectHealthMetrics_within (batchStmt r.plan)
  have hupdate : updateHealth.All (Batch (batchStmt r.plan)) fun _ => True := by
    simp only [updateHealth, Prog.perform_bind, all_call]
    refine ⟨trivial, fun _ => hhealth.bind fun m _ => ?_⟩
    cases m <;> simp [Prog.perform, Batch]
  have hrecord : ∀ n pr, (backfillRecord r n pr).All (Batch (batchStmt r.plan)) fun _ => True :=
    fun n pr => hhealth.bind fun m _ => by simp [Batch]
  simp only [backfillTurn, Prog.perform_bind, all_call, all_ite]
  refine ⟨trivial, fun _ => ⟨fun _ => trivial, fun _ => ⟨trivial, fun _ => ⟨fun _ => ?_, fun _ => ?_⟩⟩⟩⟩
  · simp [Batch]
  · refine hupdate.bind fun _ _ => ?_
    simp [backfillAdvance, hrecord, Option.forall, Batch]

/-- A plan with a tracked column reaches its first batch. -/
theorem sends_batchStmt (hcol : r.plan.backfill.column ≠ "") : Sends r (batchStmt r.plan) := by
  have henter : Reaches r ⟨r.checkpoint.int64 "last_id", r.checkpoint.int64 "rows_done",
      r.checkpoint.int64 "batch_num"⟩ := by
    refine @Reaches.enter r 0 (fun _ => pure skipped)
      [⟨.newThrottle (backfillConfig r.plan), 0⟩,
        ⟨.countRemaining r.plan.table r.plan.backfill.column (r.checkpoint.int64 "last_id"),
          some 0⟩] _ ?_
    unfold dispatch
    rw [if_pos ⟨rfl, hcol⟩]
    exact After.cons (After.cons After.nil)
  exact ⟨_, [⟨.ctxDone, false⟩, ⟨.isCircuitTripped, false⟩, ⟨.throttleRef, 0⟩, ⟨.connections, none⟩,
    ⟨.getBatchSize, 1⟩], _, _, _, henter,
    After.cons (After.cons (After.cons (After.cons (After.cons After.nil))))⟩

/-- **The statement of a plan**, if there is a tracked column. -/
theorem sends_iff {stmt : BatchStmt} :
    Sends r stmt ↔ r.plan.backfill.column ≠ "" ∧ stmt = batchStmt r.plan := by
  constructor
  · rintro ⟨pr, t, lastID, limit, k, hpr, ha⟩
    exact ⟨hpr.column_ne, ((backfillTurn_all r pr).after ha).1.1⟩
  · rintro ⟨hcol, rfl⟩
    exact sends_batchStmt hcol

/-! ### What should be sent -/

/-- The batch UPDATE of the columns, with a check for NULL. -/
def template (table : String) (cols : List ColumnSpec) (check : String) : String :=
  "UPDATE " ++ table ++ " SET " ++ ", ".intercalate (cols.map setClause) ++
    " WHERE id IN (SELECT id FROM " ++ table ++ " WHERE " ++ check ++
    " AND id > $1 ORDER BY id LIMIT $2)"

/-- The text is such a statement, up to white space. -/
def Conforms (table : String) (cols : List ColumnSpec) (stmt : String) : Prop :=
  ∃ check, compact stmt = compact (template table cols check)

/-- A SET list starts with its first column. -/
theorem compact_setList (cols : List ColumnSpec) (hc : identRe c.name = true) : ∃ l,
    compact (", ".intercalate ((c :: cols).map setClause)) = c.name.toList ++ '=' :: l := by
  have hset : compact (setClause c) = c.name.toList ++ '=' :: '(' :: (compact c.expression ++ [')']) := by
    simp only [setClause, compact_append, compact_of_identRe hc]
    simp [compact]
  cases cols with
  | nil => exact ⟨_, by simpa using hset⟩
  | cons c' cols =>
    rw [List.map_cons, String.intercalate_cons_of_ne_nil (by simp), compact_append, compact_append,
      hset]
    refine ⟨'(' :: (compact c.expression ++ ')' :: (compact ", " ++
      compact (", ".intercalate ((c' :: cols).map setClause)))), ?_⟩
    simp

/-- **The composite statement never conforms**: it has a whole UPDATE for its SET list. -/
theorem not_conforms_multi {col : String} (ht : identRe table = true) (hc : identRe c.name = true) :
    ¬Conforms table (c :: cols)
      (BatchStmt.multi table (generateCompositeBackfill table (c :: cols)) col).text := by
  rintro ⟨check, h⟩
  obtain ⟨l, hl⟩ := compact_setList cols hc
  have hupd : compact "\n\t\t\t\tUPDATE " = "UPDATE".toList := by decide
  have hupd' : compact "UPDATE " = "UPDATE".toList := by decide
  unfold BatchStmt.text generateCompositeBackfill template at h
  rw [if_neg (List.cons_ne_nil c cols)] at h
  simp only [compact_append, List.append_assoc] at h
  rw [hl, hupd, hupd', compact_of_identRe ht] at h
  -- what stands before the first `=` is longer than the name of the column
  have h' := congrArg lhs (List.append_cancel_left (List.append_cancel_left
    (List.append_cancel_left h)))
  have hset : compact " SET " = "SET".toList := by decide
  have hne : ∀ c ∈ "UPDATE".toList, c ≠ '=' := List.forall_iff_forall_mem.mp (by decide)
  have hne' : ∀ c ∈ "SET".toList, c ≠ '=' := List.forall_iff_forall_mem.mp (by decide)
  simp only [List.append_assoc, List.cons_append] at h'
  rw [lhs_append hne, lhs_append (ne_eq_of_identRe ht), hset, lhs_append hne',
    lhs_append (ne_eq_of_identRe hc), lhs_append (ne_eq_of_identRe hc), lhs_eq_cons, lhs_eq_cons] at h'
  have hlen := congrArg List.length h'
  have h6 : "UPDATE".toList.length = 6 := by decide
  simp only [List.length_append, h6] at hlen
  omega

/-! ### Plans from column specs -/

/-- The backfill that is filled in for a plan with expressions. -/
theorem backfill_prepare {p : MigrationPlan} {cs : List ColumnSpec}
    (h : exprCols p.addColumns = c :: cs) (hcol : p.backfill.column = "")
    (hmulti : p.backfill.multiSQL = "") :
    p.prepare.withDefaults.backfill.column = c.name ∧
      p.prepare.withDefaults.backfill.multiSQL = generateCompositeBackfill p.table (c :: cs) := by
  have hd : p.declarative := Or.inl fun hnil => by simp [hnil, exprCols] at h
  obtain ⟨h1, -, h3⟩ := @backfill_of_exprCols_cons p.table _ p.dropColumns _ _ h
  have hprep : p.prepare.withDefaults.backfill =
      p.backfill.fill (generate p.table p.addColumns p.dropColumns) := by
    unfold MigrationPlan.prepare
    rw [if_pos hd]
    rfl
  rw [hprep, ← h1, ← h3]
  unfold Backfill.fill
  rw [hcol, hmulti]
  exact ⟨orText_empty _, orText_empty _⟩

theorem composite_ne_empty (table : String) (c : ColumnSpec) (cs : List ColumnSpec) :
    generateCompositeBackfill table (c :: cs) ≠ "" := by
  intro h
  have hlen := congrArg String.length h
  simp [generateCompositeBackfill] at hlen

/-- **When generator and runner agree**: only where the first column with an expression has no name,
and nothing is sent. -/
theorem batches_conform_iff {p : MigrationPlan} {cs : List ColumnSpec} (hv : validate p = .ok r.plan)
    (h : exprCols p.addColumns = c :: cs) (hcol : p.backfill.column = "")
    (hmulti : p.backfill.multiSQL = "") :
    (∀ stmt, Sends r stmt → Conforms p.table (c :: cs) stmt.text) ↔ c.name = "" := by
  obtain ⟨hp, hacc⟩ := validate_ok hv
  obtain ⟨hname, hsql⟩ := backfill_prepare h hcol hmulti
  have htable : r.plan.table = p.table := by rw [hp]; exact table_prepare p
  rw [← hp] at hname hsql
  constructor
  · intro hconf
    by_contra hne
    have hcol' : r.plan.backfill.column ≠ "" := hname ▸ hne
    have hstmt : batchStmt r.plan = .multi p.table (generateCompositeBackfill p.table (c :: cs)) c.name := by
      unfold batchStmt
      rw [hsql, if_pos (composite_ne_empty _ _ _), hname, htable]
    have hbad := hconf _ (sends_batchStmt hcol')
    rw [hstmt] at hbad
    exact not_conforms_multi (htable ▸ hacc.table) (hname ▸ hacc.column hcol') hbad
  · intro hempty stmt hs
    exact absurd (hname.trans hempty) (sends_iff.mp hs).1

/-- Nothing is sent for a plan whose column has no name. -/
theorem batches_conform_iff_unnamed :
    validate unnamedColumnPlan = .ok unnamedColumnPlan.prepare.withDefaults ∧ ∀ stmt, Sends
      { id := 0, plan := unnamedColumnPlan.prepare.withDefaults, state := .backfilling } stmt →
        Conforms "t" [{ name := "", expression := "a" }] stmt.text :=
  ⟨validate_unnamedColumnPlan, (batches_conform_iff (p := unnamedColumnPlan)
    validate_unnamedColumnPlan (by decide) rfl rfl).mpr rfl⟩

/-- **The statement sent for two columns is not the one they call for.** -/
theorem batch_not_conforms : ¬∀ (p : MigrationPlan) (r : Record) (c : ColumnSpec)
    (cs : List ColumnSpec), validate p = .ok r.plan → exprCols p.addColumns = c :: cs →
      p.backfill.column = "" → p.backfill.sourceExpr = "" → p.backfill.multiSQL = "" →
      ∀ stmt, Sends r stmt → Conforms p.table (c :: cs) stmt.text := by
  intro hall
  let r : Record := { id := 0, plan := twoColumnPlan.prepare.withDefaults, state := .backfilling }
  have hconf := hall twoColumnPlan r _ _ validate_twoColumnPlan rfl rfl rfl rfl _
    (sends_batchStmt (r := r) (by decide +kernel))
  exact not_conforms_multi (by decide) (by decide) hconf

end MigrationSafety.StateMachine.Batches
