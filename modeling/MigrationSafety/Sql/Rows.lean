import Mathlib.Data.List.Sort
import MigrationSafety.Ddl.Generate
import MigrationSafety.Lib.Binary64

/-! # The target table

A table is the set of its columns and its rows; a row has an `id` and a cell for every column, `none`
standing for NULL. An SQL expression is a text whose value on a row is given by `eval`, which stays a
parameter throughout.

* `nullCount`, `driftCount`: what the parity queries count; both zero is what they are meant to
  establish (`filled_iff`).
* `runContract`: the statements of a generated contract list, in order; `runContract_isSome` says
  when all of them succeed.
* `parity`: the ratio the gates compare, in binary64 as the code computes it. -/

namespace MigrationSafety.Sql.Rows

open MigrationSafety.Sql.Text MigrationSafety.Ddl.Generate MigrationSafety.Lib.Binary64

variable {V : Type}

/-- A row: its id, and the cell of every column by folded name. -/
structure Row (V : Type) where
  id : ℤ
  cell : Name → Option V

/-- A table: its columns by folded name, and its rows. -/
structure Table (V : Type) where
  cols : List Name
  rows : List (Row V)

/-- The value of an expression on a row. -/
abbrev Eval (V : Type) := String → Row V → Option V

def Row.get (r : Row V) (col : String) : Option V := r.cell (foldIdent col)

def Row.set (r : Row V) (col : String) (v : Option V) : Row V :=
  { r with cell := fun c => if c = foldIdent col then v else r.cell c }

def Table.hasColumn (T : Table V) (col : String) : Prop := foldIdent col ∈ T.cols

instance (T : Table V) (col : String) : Decidable (T.hasColumn col) :=
  inferInstanceAs (Decidable (_ ∈ _))

@[simp] theorem Row.id_set (r : Row V) (col : String) (v : Option V) : (r.set col v).id = r.id :=
  rfl

@[simp] theorem Row.get_set_self (r : Row V) (col : String) (v : Option V) :
    (r.set col v).get col = v := if_pos rfl

/-! ### The parity queries -/

section Count
variable [DecidableEq V]

/-- `count(*) FILTER (WHERE col IS NULL)`. -/
def nullCount (rows : List (Row V)) (col : String) : ℕ := rows.countP fun r => (r.get col).isNone

/-- `count(*) FILTER (WHERE col IS DISTINCT FROM (expr))`. -/
def driftCount (eval : Eval V) (rows : List (Row V)) (col expr : String) : ℕ :=
  rows.countP fun r => r.get col ≠ eval expr r

/-- `count(*) FILTER (WHERE col IS NOT DISTINCT FROM (expr))`. -/
def matchCount (eval : Eval V) (rows : List (Row V)) (col expr : String) : ℕ :=
  rows.countP fun r => r.get col = eval expr r

/-- Every row has a value in the column, and it is the value of the expression. -/
def Filled (eval : Eval V) (T : Table V) (col expr : String) : Prop :=
  ∀ r ∈ T.rows, r.get col ≠ none ∧ r.get col = eval expr r

omit [DecidableEq V] in
theorem nullCount_eq_zero {rows : List (Row V)} {col : String} :
    nullCount rows col = 0 ↔ ∀ r ∈ rows, r.get col ≠ none := by
  simp [nullCount, List.countP_eq_zero]

theorem driftCount_eq_zero {eval : Eval V} {rows : List (Row V)} {col expr : String} :
    driftCount eval rows col expr = 0 ↔ ∀ r ∈ rows, r.get col = eval expr r := by
  simp [driftCount, List.countP_eq_zero]

theorem filled_iff {eval : Eval V} {T : Table V} {col expr : String} :
    Filled eval T col expr ↔ nullCount T.rows col = 0 ∧ driftCount eval T.rows col expr = 0 := by
  rw [nullCount_eq_zero, driftCount_eq_zero]
  exact forall₂_and

omit [DecidableEq V] in
theorem Filled.of_fold {col col' expr : String} (h : Filled eval T col expr)
    (hc : foldIdent col' = foldIdent col) : Filled eval T col' expr := by
  intro row hrow
  have := h row hrow
  unfold Row.get at this ⊢
  rwa [hc]

theorem matchCount_add_driftCount (eval : Eval V) (rows : List (Row V)) (col expr : String) :
    matchCount eval rows col expr + driftCount eval rows col expr = rows.length := by
  unfold matchCount driftCount
  rw [List.length_eq_countP_add_countP fun r => decide (r.get col = eval expr r)]
  simp

end Count

/-! ### The parity ratio -/

/-- `float64(good) / float64(total)`, and 1 for the empty table. -/
def ratio (good total : ℤ) : Float64 :=
  if 0 < total then (Float64.ofInt good).div (Float64.ofInt total) else Float64.ofInt 1

/-- `(total - drifted) / total`. -/
def parity (total drifted : ℕ) : Float64 := ratio (total - drifted) total

theorem ofInt_pos {n : ℤ} (h : 0 < n) : 0 < (Float64.ofInt n).val :=
  lt_of_lt_of_le one_pos (one_le_round (by exact_mod_cast h))

@[simp] theorem ofInt_one_val : (Float64.ofInt 1).val = 1 := by simp [Float64.ofInt]

theorem ratio_mono {a b total : ℤ} (h : a ≤ b) : (ratio a total).val ≤ (ratio b total).val := by
  unfold ratio
  split_ifs with ht
  · refine round_mono (div_le_div_of_nonneg_right ?_ (ofInt_pos ht).le)
    exact round_mono (by exact_mod_cast h)
  · rfl

theorem ratio_self (total : ℤ) : (ratio total total).val = 1 := by
  unfold ratio
  split_ifs with ht
  · simp [Float64.div, div_self (ofInt_pos ht).ne']
  · simp

@[simp] theorem parity_zero (total : ℕ) : (parity total 0).val = 1 := by
  simp [parity, ratio_self]

theorem parity_antitone {total d d' : ℕ} (h : d ≤ d') :
    (parity total d').val ≤ (parity total d).val := ratio_mono (by omega)

theorem parity_le_one (total d : ℕ) : (parity total d).val ≤ 1 := by
  rw [← parity_zero total]
  exact parity_antitone (Nat.zero_le d)

/-! ### The contract statements -/

/-- `DROP COLUMN IF EXISTS` always succeeds; `SET NOT NULL` needs the column, and no NULL in it. -/
def ContractOp.run (T : Table V) : ContractOp → Option (Table V)
  | .dropColumn col => some { T with cols := T.cols.filter (· ≠ foldIdent col) }
  | .setNotNull col =>
    if T.hasColumn col.name ∧ nullCount T.rows col.name = 0 then some T else none

/-- The statements one after the other, up to the first failure. -/
def runContract : Table V → List ContractOp → Option (Table V)
  | T, [] => some T
  | T, op :: ops => (ContractOp.run T op).bind fun T' => runContract T' ops

theorem runContract_append (T : Table V) (l l' : List ContractOp) :
    runContract T (l ++ l') = (runContract T l).bind fun T' => runContract T' l' := by
  induction l generalizing T with
  | nil => rfl
  | cons op ops ih =>
    simp only [List.cons_append, runContract, Option.bind_assoc]
    congr 1
    funext T'
    exact ih T'

/-- The drops always succeed; the rows stay. -/
theorem runContract_drop (T : Table V) (drop : List String) :
    runContract T (drop.map .dropColumn) =
      some { T with cols := T.cols.filter fun c => ∀ d ∈ drop, c ≠ foldIdent d } := by
  induction drop generalizing T with
  | nil => simp [runContract]
  | cons d ds ih =>
    simp only [List.map_cons, runContract, ContractOp.run, Option.bind_some]
    rw [ih, List.filter_filter]
    congr 2
    refine List.filter_congr fun c _ => ?_
    simp only [List.forall_mem_cons, Bool.decide_and, Bool.and_comm]

theorem runContract_setNotNull (T : Table V) (cols : List ColumnSpec) :
    (runContract T (cols.map .setNotNull)).isSome ↔
      ∀ c ∈ cols, T.hasColumn c.name ∧ nullCount T.rows c.name = 0 := by
  induction cols with
  | nil => simp [runContract]
  | cons c cs ih =>
    simp only [List.map_cons, runContract, ContractOp.run, List.forall_mem_cons]
    split_ifs with hc
    · simp [ih, hc]
    · simp [hc]

/-- **When a generated contract list succeeds**: every column it makes NOT NULL is in the table, is
not dropped first, and has no NULL. -/
theorem runContract_isSome (T : Table V) (add : List ColumnSpec) (drop : List String) :
    (runContract T (contractOps add drop)).isSome ↔
      ∀ c ∈ add, c.nullable = false → T.hasColumn c.name ∧
        (∀ d ∈ drop, foldIdent c.name ≠ foldIdent d) ∧ nullCount T.rows c.name = 0 := by
  unfold contractOps
  rw [runContract_append, runContract_drop, Option.bind_some, runContract_setNotNull]
  simp [Table.hasColumn, and_assoc]

end MigrationSafety.Sql.Rows
