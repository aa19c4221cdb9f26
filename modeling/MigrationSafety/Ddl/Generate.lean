import MigrationSafety.Sql.Text

/-! # DDL from column specs

`generate` builds the expand, contract, rollback and backfill fragments of a plan from its column
specs. The fragments are texts; the contract list is also the list `contractOps` of what its
statements do, written out by `ContractOp.sql` (`generate_contract`).

The truncation to 63 bytes ends at a character boundary here. -/

namespace MigrationSafety.Ddl.Generate

open MigrationSafety.Sql.Text

/-- A column to add. -/
structure ColumnSpec where
  name : String
  type : String := ""
  expression : String := ""
  nullable : Bool := false
  indexed : Bool := false
deriving DecidableEq

/-- The generated fragments. -/
structure Output where
  expand : List String
  contract : List String
  rollback : List String
  backfillExpr : String
  backfillColumn : String
  backfillMulti : String
deriving DecidableEq

/-! ### The statements -/

/-- Columns are always added as NULL. -/
def addColumnDDL (table : String) (col : ColumnSpec) : String :=
  "ALTER TABLE " ++ table ++ " ADD COLUMN IF NOT EXISTS " ++ col.name ++ " " ++ col.type

def setNotNullDDL (table : String) (col : ColumnSpec) : String :=
  "ALTER TABLE " ++ table ++ " ALTER COLUMN " ++ col.name ++ " SET NOT NULL"

/-- The index of a column, cut to 63 bytes. -/
def idxName (table : String) (col : ColumnSpec) : String :=
  truncateName ("idx_" ++ table ++ "_" ++ col.name)

def createIndexDDL (table : String) (col : ColumnSpec) : String :=
  "CREATE INDEX CONCURRENTLY IF NOT EXISTS " ++ idxName table col ++ " ON " ++ table ++ " (" ++
    col.name ++ ")"

def dropColumnDDL (table colName : String) : String :=
  "ALTER TABLE " ++ table ++ " DROP COLUMN IF EXISTS " ++ colName

def dropIndexDDL (table : String) (col : ColumnSpec) : String :=
  "DROP INDEX IF EXISTS " ++ idxName table col

def setClause (col : ColumnSpec) : String := col.name ++ " = (" ++ col.expression ++ ")"

def nullCheck (col : ColumnSpec) : String := col.name ++ " IS NULL"

/-- One UPDATE that fills several columns at once. -/
def generateCompositeBackfill (table : String) (cols : List ColumnSpec) : String :=
  if cols = [] then ""
  else "UPDATE " ++ table ++ " SET " ++ ", ".intercalate (cols.map setClause) ++
    " WHERE id IN (SELECT id FROM " ++ table ++ " WHERE " ++
    " OR ".intercalate (cols.map nullCheck) ++ " ORDER BY id LIMIT $1)"

/-- The columns with an expression. -/
def exprCols (add : List ColumnSpec) : List ColumnSpec := add.filter fun col => col.expression ≠ ""

/-- **Expand, contract, rollback and backfill fragments from declarative specs.** -/
def generate (table : String) (add : List ColumnSpec) (drop : List String) : Output where
  expand := add.flatMap fun col =>
    addColumnDDL table col :: if col.indexed then [createIndexDDL table col] else []
  contract := drop.map (dropColumnDDL table) ++
    (add.filter fun col => !col.nullable).map (setNotNullDDL table)
  rollback := add.flatMap fun col =>
    (if col.indexed then [dropIndexDDL table col] else []) ++ [dropColumnDDL table col.name]
  backfillExpr := ((exprCols add).head?.map (·.expression)).getD ""
  backfillColumn := ((exprCols add).head?.map (·.name)).getD ""
  backfillMulti := generateCompositeBackfill table (exprCols add)

/-! ### What the contract statements do -/

/-- The two kinds of statement of a generated contract list. -/
inductive ContractOp
  | dropColumn (col : String)
  | setNotNull (col : ColumnSpec)
deriving DecidableEq

def ContractOp.sql (table : String) : ContractOp → String
  | dropColumn col => dropColumnDDL table col
  | setNotNull col => setNotNullDDL table col

def contractOps (add : List ColumnSpec) (drop : List String) : List ContractOp :=
  drop.map .dropColumn ++ (add.filter fun col => !col.nullable).map .setNotNull

/-- The generated contract list is the text of `contractOps`. -/
theorem generate_contract (table : String) (add : List ColumnSpec) (drop : List String) :
    (generate table add drop).contract = (contractOps add drop).map (ContractOp.sql table) := by
  simp only [generate, contractOps, List.map_append, List.map_map]
  rfl

/-! ### The tracked column -/

/-- The first column with an expression is the tracked one. -/
theorem backfill_of_exprCols_cons {table : String} {add : List ColumnSpec} {drop : List String}
    {col : ColumnSpec} {cols : List ColumnSpec} (h : exprCols add = col :: cols) :
    (generate table add drop).backfillColumn = col.name ∧
      (generate table add drop).backfillExpr = col.expression ∧
      (generate table add drop).backfillMulti = generateCompositeBackfill table (col :: cols) := by
  simp [generate, h]

end MigrationSafety.Ddl.Generate
