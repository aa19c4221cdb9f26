import MigrationSafety.Lib.Templates
import MigrationSafety.Ddl.IndexNames
import MigrationSafety.StateMachine.Queries
import MigrationSafety.Server.Backends
import MigrationSafety.Server.Routes

/-! # The names put into statements

The generator and the handlers build their statements with format strings. Here each statement is a
template, so that the names put into it can be told from the rest, and each template is proved to be
the statement (`render_generated`, `render_template`).

`validate` checks two of the names, the table and the tracked column. So every name is one if and only
if those of the column specs are (`sanitized_iff`). -/

namespace MigrationSafety.Server.Interpolation

open MigrationSafety.Lib.Templates MigrationSafety.Lib.Binary64
open MigrationSafety.Lib.Effects
open MigrationSafety.Sql.Text MigrationSafety.Ddl.Generate MigrationSafety.Ddl.IndexNames
open MigrationSafety.Plan.Validate MigrationSafety.StateMachine.Signature
open MigrationSafety.StateMachine.Handlers MigrationSafety.StateMachine.Queries
open MigrationSafety.Server.Backends MigrationSafety.Server.Auth
open MigrationSafety.Server.Routes (Libs Call QueryError Handling server driftScan planned decoded)

variable {table : String} {col : ColumnSpec} {cols add : List ColumnSpec} {drop : List String}

/-! ### The generator -/

def addColumnT (table : String) (col : ColumnSpec) : Template :=
  [.lit "ALTER TABLE ", .name table, .lit " ADD COLUMN IF NOT EXISTS ", .name col.name, .lit " ",
    .raw col.type]

def setNotNullT (table : String) (col : ColumnSpec) : Template :=
  [.lit "ALTER TABLE ", .name table, .lit " ALTER COLUMN ", .name col.name, .lit " SET NOT NULL"]

def createIndexT (table : String) (col : ColumnSpec) : Template :=
  [.lit "CREATE INDEX CONCURRENTLY IF NOT EXISTS ", .name (idxName table col), .lit " ON ",
    .name table, .lit " (", .name col.name, .lit ")"]

def dropColumnT (table colName : String) : Template :=
  [.lit "ALTER TABLE ", .name table, .lit " DROP COLUMN IF EXISTS ", .name colName]

def dropIndexT (table : String) (col : ColumnSpec) : Template :=
  [.lit "DROP INDEX IF EXISTS ", .name (idxName table col)]

def setClauseT (col : ColumnSpec) : Template :=
  [.name col.name, .lit " = (", .raw col.expression, .lit ")"]

def nullCheckT (col : ColumnSpec) : Template := [.name col.name, .lit " IS NULL"]

def compositeT (table : String) (cols : List ColumnSpec) : Template :=
  if cols = [] then []
  else [.lit "UPDATE ", .name table, .lit " SET "] ++ sepBy ", " (cols.map setClauseT) ++
    [.lit " WHERE id IN (SELECT id FROM ", .name table, .lit " WHERE "] ++
    sepBy " OR " (cols.map nullCheckT) ++ [.lit " ORDER BY id LIMIT $1)"]

/-- The statements `generate` writes: expand, contract, rollback and backfill. -/
structure Generated where
  expand : List Template
  contract : List Template
  rollback : List Template
  backfillMulti : Template

def generated (table : String) (add : List ColumnSpec) (drop : List String) : Generated where
  expand := add.flatMap fun col =>
    addColumnT table col :: if col.indexed then [createIndexT table col] else []
  contract := drop.map (dropColumnT table) ++
    (add.filter fun col => !col.nullable).map (setNotNullT table)
  rollback := add.flatMap fun col =>
    (if col.indexed then [dropIndexT table col] else []) ++ [dropColumnT table col.name]
  backfillMulti := compositeT table (exprCols add)

def Generated.all (g : Generated) : List Template :=
  g.expand ++ g.contract ++ g.rollback ++ [g.backfillMulti]

theorem render_compositeT (table : String) (cols : List ColumnSpec) :
    render (compositeT table cols) = generateCompositeBackfill table cols := by
  have hset : ∀ col, render (setClauseT col) = setClause col := fun col => by
    unfold setClauseT setClause
    simp only [render_cons, render_nil, Piece.text, String.append_empty]
    simp only [String.append_assoc]
  have hnull : ∀ col, render (nullCheckT col) = nullCheck col := fun col => by
    unfold nullCheckT nullCheck
    simp only [render_cons, render_nil, Piece.text, String.append_empty]
  unfold compositeT generateCompositeBackfill
  split_ifs
  · rfl
  · simp only [render_append, render_sepBy, List.map_map, Function.comp_def, hset, hnull]
    simp only [render_cons, render_nil, Piece.text, String.append_empty]
    simp only [String.append_assoc]

/-- **The templates are the statements of `generate`.** -/
theorem render_generated (table : String) (add : List ColumnSpec) (drop : List String) :
    (generate table add drop).expand = (generated table add drop).expand.map render ∧
      (generate table add drop).contract = (generated table add drop).contract.map render ∧
      (generate table add drop).rollback = (generated table add drop).rollback.map render ∧
      (generate table add drop).backfillMulti = render (generated table add drop).backfillMulti := by
  have hadd : ∀ col, render (addColumnT table col) = addColumnDDL table col := fun col => by
    unfold addColumnT addColumnDDL
    simp only [render_cons, render_nil, Piece.text, String.append_empty]
    simp only [String.append_assoc]
  have hset : ∀ col, render (setNotNullT table col) = setNotNullDDL table col := fun col => by
    unfold setNotNullT setNotNullDDL
    simp only [render_cons, render_nil, Piece.text, String.append_empty]
    simp only [String.append_assoc]
  have hindex : ∀ col, render (createIndexT table col) = createIndexDDL table col := fun col => by
    unfold createIndexT createIndexDDL
    simp only [render_cons, render_nil, Piece.text, String.append_empty]
    simp only [String.append_assoc]
  have hdrop : ∀ name, render (dropColumnT table name) = dropColumnDDL table name := fun name => by
    unfold dropColumnT dropColumnDDL
    simp only [render_cons, render_nil, Piece.text, String.append_empty]
    simp only [String.append_assoc]
  have hdropIndex : ∀ col, render (dropIndexT table col) = dropIndexDDL table col := fun col => by
    unfold dropIndexT dropIndexDDL
    simp only [render_cons, render_nil, Piece.text, String.append_empty]
  unfold generate generated
  refine ⟨?_, ?_, ?_, (render_compositeT _ _).symm⟩
  · rw [List.map_flatMap]
    refine congrArg (List.flatMap · add) (funext fun col => ?_)
    split_ifs <;> simp only [List.map_cons, List.map_nil, hadd, hindex]
  · simp only [List.map_append, List.map_map, Function.comp_def, hdrop, hset]
  · rw [List.map_flatMap]
    refine congrArg (List.flatMap · add) (funext fun col => ?_)
    split_ifs <;> simp only [List.map_append, List.map_cons, List.map_nil, hdrop, hdropIndex]

/-! ### The handlers -/

def selectBatchT (table col : String) : Template :=
  [.lit "\n\t\t\t\tWHERE id IN (\n\t\t\t\t\tSELECT id FROM ", .name table,
    .lit " \n\t\t\t\t\tWHERE ", .name col,
    .lit " IS NULL \n\t\t\t\t\t  AND id > $1\n\t\t\t\t\tORDER BY id \n\t\t\t\t\tLIMIT $2\n\t\t\t\t)"]

def batchT : BatchStmt → Template
  | .single table col expr =>
    [.lit "\n\t\t\t\tUPDATE ", .name table, .lit " SET ", .name col, .lit " = (", .raw expr, .lit ")"] ++
      selectBatchT table col
  | .multi table multiSQL col =>
    [.lit "\n\t\t\t\tUPDATE ", .name table, .lit " SET ", .raw multiSQL] ++ selectBatchT table col

def fullParityT (table col expr : String) : Template :=
  [.lit "SELECT count(*) AS total,\n\t\t        count(*) FILTER (WHERE ", .name col,
    .lit " IS NULL) AS nulls,\n\t\t        count(*) FILTER (WHERE ", .name col,
    .lit " IS DISTINCT FROM (", .raw expr, .lit ")) AS drifted\n\t\t   FROM ", .name table]

/-- The statement of an operation on the column. -/
def template : Op → Option Template
  | .countRemaining table col _ =>
    some [.lit "SELECT count(*) FROM ", .name table, .lit " WHERE ", .name col,
      .lit " IS NULL AND id > $1"]
  | .updateBatch stmt .. => some (batchT stmt)
  | .maxId table col _ =>
    some [.lit "\n\t\t\tSELECT COALESCE(MAX(id), 0) FROM ", .name table, .lit " \n\t\t\tWHERE ",
      .name col, .lit " IS NOT NULL AND id > $1"]
  | .countNulls table col =>
    some [.lit "SELECT count(*) FROM ", .name table, .lit " WHERE ", .name col, .lit " IS NULL"]
  | .sampleParity table col expr rate =>
    some [.lit "SELECT count(*) FILTER (WHERE ", .name col, .lit " IS NOT DISTINCT FROM (", .raw expr,
      .lit ")) AS matches, count(*) AS sampled\n\t\t   FROM ", .name table,
      .lit " WHERE random() < ", .raw (fixed 6 rate)]
  | .fullParity table col expr => some (fullParityT table col expr)
  | _ => none

theorem render_batchT (stmt : BatchStmt) : render (batchT stmt) = stmt.text := by
  cases stmt <;>
  · unfold batchT BatchStmt.text selectBatchT selectBatch
    simp only [render_append, render_cons, render_nil, Piece.text, String.append_empty]
    simp only [String.append_assoc]

theorem render_fullParityT (table col expr : String) :
    render (fullParityT table col expr) = fullParitySQL table col expr := by
  unfold fullParityT fullParitySQL
  simp only [render_cons, render_nil, Piece.text, String.append_empty]
  simp only [String.append_assoc]

/-- **The templates are the statements of the handlers.** -/
theorem render_template {op : Op} {sql : String} (h : Op.sql op = some sql) (hk : op.kind = .column) :
    (template op).map render = some sql := by
  rw [← h]
  cases op <;> simp only [Op.kind, reduceCtorEq] at hk
  case updateBatch stmt lastID limit => exact congrArg some (render_batchT stmt)
  case fullParity table col expr => exact congrArg some (render_fullParityT table col expr)
  case countRemaining => cases h
  case maxId => cases h
  case countNulls table col =>
    unfold template Op.sql
    simp only [Option.map_some, render_cons, render_nil, Piece.text, String.append_empty]
    simp only [String.append_assoc]
  case sampleParity table col expr rate =>
    unfold template Op.sql
    simp only [Option.map_some, render_cons, render_nil, Piece.text, String.append_empty]
    simp only [String.append_assoc]

/-! ### The statements of a plan -/

/-- **A statement built for the plan**: by the generator, or by a handler on the column. -/
inductive Interpolates (p : MigrationPlan) : Template → Prop
  | generated {t : Template} (hd : p.declarative)
      (ht : t ∈ (generated p.table p.addColumns p.dropColumns).all) : Interpolates p t
  | queried {op : Op} {t : Template} (hcol : p.backfill.column ≠ "") (hq : Query p op)
      (ht : template op = some t) : Interpolates p t

/-- Whatever a run asks of the column is such a statement. -/
theorem interpolates_of_performs {r : Record} {op : Op} {t : Template} (h : Performs r op)
    (ht : template op = some t) : Interpolates r.plan t := by
  have hk : op.kind = .column := by cases op <;> first | rfl | cases ht
  obtain ⟨hcol, hq⟩ := performs_query h hk
  exact .queried hcol hq ht

/-- A drift scan of the plan sends the query. -/
def Scans (p : MigrationPlan) (sql : String) : Prop :=
  ∃ (c : Libs) (ctx : Ctx) (submitted : MigrationPlan) (vp : ValidPlan) (t : List (Event server))
    (k : Except QueryError Unit → Handling), c.plan ctx.request.body = .ok submitted ∧
      check submitted = .ok vp ∧ vp.plan = p ∧
        After (driftScan c ctx) t (Prog.call (S := server) (Call.query sql) k)

/-- It recomputes the expression of the plan over the whole table. -/
theorem scans_query {p : MigrationPlan} {sql : String} (h : Scans p sql) : p.backfill.column ≠ "" ∧
    sql = fullParitySQL p.table p.backfill.column p.backfill.sourceExpr := by
  obtain ⟨c, ctx, submitted, vp, t, k, hbody, hcheck, rfl, ha⟩ := h
  have hall : (driftScan c ctx).All (fun op => ∀ s, op = Call.query s → vp.plan.backfill.column ≠ "" ∧
      s = fullParitySQL vp.plan.table vp.plan.backfill.column vp.plan.backfill.sourceExpr)
      fun _ => True := by
    unfold driftScan planned decoded
    simp only [hbody, hcheck]
    split_ifs with hcol hexpr
    · trivial
    · trivial
    · refine ⟨fun s hs => ⟨hcol, (Call.query.inj hs).symm⟩, fun x => ?_⟩
      rcases x with (_ | _ | _) | _ <;> trivial
  exact (hall.after ha).1.1 sql rfl

/-- A drift scan sends such a statement. -/
theorem interpolates_of_scans {p : MigrationPlan} {sql : String} (h : Scans p sql) :
    ∃ t, Interpolates p t ∧ render t = sql := by
  obtain ⟨hcol, rfl⟩ := scans_query h
  exact ⟨_, .queried hcol .fullParity rfl, render_fullParityT _ _ _⟩

/-- A name is an identifier. -/
abbrev Checked (t : Template) : Prop := Each .name (identRe · = true) t

/-- **Every name put into a statement of the plan is an identifier, and where the raw parts have no
semicolon the statement has none.** -/
def Sanitized (p : MigrationPlan) : Prop :=
  ∀ t, Interpolates p t → Checked t ∧ (Each .raw (';' ∉ ·.toList) t → ';' ∉ (render t).toList)

/-! ### When they are -/

theorem not_mem_of_identRe {s : String} (h : identRe s = true) : ';' ∉ s.toList := fun hc =>
  absurd (List.all_eq_true.mp (all_of_identRe h) _ hc) (by decide)

/-- A text with sound names and literal parts. -/
theorem separate {t : Template} (hname : Checked t) (hlit : Each .lit (';' ∉ ·.toList) t) :
    Checked t ∧ (Each .raw (';' ∉ ·.toList) t → ';' ∉ (render t).toList) :=
  ⟨hname, fun hraw => not_mem_render hlit (fun s hs => not_mem_of_identRe (hname s hs)) hraw⟩

theorem forall_mem_generated {P : Template → Prop}
    (hadd : ∀ col ∈ add, P (addColumnT table col) ∧ P (setNotNullT table col) ∧
      P (createIndexT table col) ∧ P (dropIndexT table col) ∧ P (dropColumnT table col.name))
    (hdrop : ∀ name ∈ drop, P (dropColumnT table name)) (hmulti : P (compositeT table (exprCols add))) :
    ∀ t ∈ (generated table add drop).all, P t := by
  unfold Generated.all generated
  simp only [List.forall_mem_append, List.forall_mem_flatMap, List.forall_mem_map,
    List.forall_mem_singleton, List.mem_filter, and_imp]
  refine ⟨⟨⟨fun col hcol => ?_, hdrop, fun col hcol _ => (hadd col hcol).2.1⟩, fun col hcol => ?_⟩, hmulti⟩
  · obtain ⟨h1, -, h2, -⟩ := hadd col hcol
    refine List.forall_mem_cons.mpr ⟨h1, ?_⟩
    split_ifs
    · exact List.forall_mem_singleton.mpr h2
    · nofun
  · obtain ⟨-, -, -, h1, h2⟩ := hadd col hcol
    refine ⟨?_, h2⟩
    split_ifs
    · exact List.forall_mem_singleton.mpr h1
    · nofun

theorem checked_generated (ht : identRe table = true) (hadd : ∀ col ∈ add, identRe col.name = true)
    (hdrop : ∀ name ∈ drop, identRe name = true) :
    ∀ t ∈ (generated table add drop).all, Checked t := by
  refine forall_mem_generated (fun col hcol => ?_) (fun name hname => ?_) ?_
  · have hc := hadd col hcol
    have hidx := identRe_idxName ht hc
    simp [addColumnT, setNotNullT, createIndexT, dropIndexT, dropColumnT, ht, hc, hidx]
  · simp [dropColumnT, ht, hdrop name hname]
  · unfold compositeT
    split_ifs
    · exact each_nil
    · have hexpr : ∀ col ∈ exprCols add, identRe col.name = true :=
        fun col hcol => hadd col (List.mem_of_mem_filter hcol)
      have hset : Checked (sepBy ", " ((exprCols add).map setClauseT)) :=
        each_sepBy (List.forall_mem_map.mpr fun col hcol => by simp [setClauseT, hexpr col hcol]) (by simp)
      have hnull : Checked (sepBy " OR " ((exprCols add).map nullCheckT)) :=
        each_sepBy (List.forall_mem_map.mpr fun col hcol => by simp [nullCheckT, hexpr col hcol]) (by simp)
      simp [ht, hset, hnull]

/-- No literal part separates statements. -/
theorem literal_generated : ∀ t ∈ (generated table add drop).all, Each .lit (';' ∉ ·.toList) t := by
  refine forall_mem_generated (fun col _ => ?_) (fun name _ => ?_) ?_
  · simp [addColumnT, setNotNullT, createIndexT, dropIndexT, dropColumnT]
  · simp [dropColumnT]
  · unfold compositeT
    split_ifs
    · exact each_nil
    · have hset : Each .lit (';' ∉ ·.toList) (sepBy ", " ((exprCols add).map setClauseT)) :=
        each_sepBy (List.forall_mem_map.mpr fun col _ => by simp [setClauseT]) (by simp)
      have hnull : Each .lit (';' ∉ ·.toList) (sepBy " OR " ((exprCols add).map nullCheckT)) :=
        each_sepBy (List.forall_mem_map.mpr fun col _ => by simp [nullCheckT]) (by simp)
      simp [hset, hnull]

/-- A query puts the table and the tracked column into its text, and no other name. -/
theorem separate_query {p : MigrationPlan} {op : Op} {t : Template} (htable : identRe p.table = true)
    (hcol : identRe p.backfill.column = true) (hq : Query p op) (ht : template op = some t) :
    Checked t ∧ Each .lit (';' ∉ ·.toList) t := by
  have hbatch : ∀ stmt, stmt = batchStmt p →
      Checked (batchT stmt) ∧ Each .lit (';' ∉ ·.toList) (batchT stmt) := by
    rintro stmt rfl
    unfold batchStmt
    split_ifs <;> simp [batchT, selectBatchT, htable, hcol]
  cases hq <;> cases ht
  case updateBatch => exact hbatch _ rfl
  all_goals simp [fullParityT, htable, hcol]

variable {p p' : MigrationPlan}

/-- The names of the column specs are put into statements. -/
theorem checked_of_sanitized (h : Sanitized p) :
    (∀ col ∈ p.addColumns, identRe col.name = true) ∧ ∀ name ∈ p.dropColumns, identRe name = true := by
  constructor
  · intro col hcol
    have hd : p.declarative := Or.inl (List.ne_nil_of_mem hcol)
    have hmem : addColumnT p.table col ∈ (generated p.table p.addColumns p.dropColumns).all := by
      simp only [Generated.all, generated, List.mem_append, List.mem_flatMap]
      exact Or.inl (Or.inl (Or.inl ⟨col, hcol, List.mem_cons_self⟩))
    exact (h _ (.generated hd hmem)).1 _ (by simp [addColumnT])
  · intro name hname
    have hd : p.declarative := Or.inr (List.ne_nil_of_mem hname)
    have hmem : dropColumnT p.table name ∈ (generated p.table p.addColumns p.dropColumns).all := by
      simp only [Generated.all, generated, List.mem_append, List.mem_map]
      exact Or.inl (Or.inl (Or.inr (Or.inl ⟨name, hname, rfl⟩)))
    exact (h _ (.generated hd hmem)).1 _ (by simp [dropColumnT])

/-- **When the names are identifiers**: when those of the column specs are. -/
theorem sanitized_iff (hv : validate p = .ok p') : Sanitized p' ↔
    (∀ col ∈ p'.addColumns, identRe col.name = true) ∧ ∀ name ∈ p'.dropColumns, identRe name = true := by
  refine ⟨checked_of_sanitized, fun ⟨hadd, hdrop⟩ t ht => ?_⟩
  have hacc := (validate_ok hv).2
  cases ht with
  | generated hd ht =>
    exact separate (checked_generated hacc.table hadd hdrop t ht) (literal_generated t ht)
  | queried hcol hq ht =>
    obtain ⟨hname, hlit⟩ := separate_query hacc.table (hacc.column hcol) hq ht
    exact separate hname hlit

/-- The names of a plan for two columns. -/
theorem sanitized_twoColumns : validate twoColumnPlan = .ok twoColumnPlan.prepare.withDefaults ∧
    Sanitized twoColumnPlan.prepare.withDefaults :=
  ⟨validate_twoColumnPlan, (sanitized_iff validate_twoColumnPlan).mpr (by decide +kernel)⟩

/-- A plan that drops a column with a statement in its name. -/
def droppingPlan : MigrationPlan :=
  { id := "dropping", version := 1, table := "t", dropColumns := ["a; DROP TABLE t"] }

/-- **A name can bring a statement of its own.** -/
theorem not_sanitized : ¬∀ p p' : MigrationPlan, validate p = .ok p' → Sanitized p' := by
  intro hall
  have hv : validate droppingPlan = .ok droppingPlan.prepare.withDefaults := by decide +kernel
  have hname := (checked_of_sanitized (hall _ _ hv)).2 "a; DROP TABLE t" (by decide +kernel)
  exact absurd hname (by decide)

end MigrationSafety.Server.Interpolation
