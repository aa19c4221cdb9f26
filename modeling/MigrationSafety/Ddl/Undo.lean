import Mathlib.Data.Finset.Basic
import MigrationSafety.Ddl.Generate
import MigrationSafety.Lib.Scripts

/-! # What the generated statements do to a schema

The expand and the rollback list of a plan from column specs are texts; here they are also the lists
`expandOps` and `rollbackOps` of what their statements do (`generate_expand`, `generate_rollback`). A
list is executed from its first statement on, perhaps only in part, and perhaps again.

* `Between`: what no such execution leaves, however often it is cut off.
* `rollback_undoes`: after any of them one complete rollback restores the schema. -/

namespace MigrationSafety.Ddl.Undo

open MigrationSafety.Lib.Scripts MigrationSafety.Sql.Text MigrationSafety.Ddl.Generate

/-! ### Schemas -/

/-- **The columns of the table, and the indexes of the database.** An index is given by the columns of
the table it is on: none, if it is on another table. -/
@[ext] structure Schema where
  columns : Finset Name
  indexes : Name → Option (Finset Name)
  on_columns : ∀ i cols, indexes i = some cols → cols ⊆ columns

namespace Schema

/-- `ADD COLUMN IF NOT EXISTS`. -/
def addColumn (S : Schema) (c : Name) : Schema where
  columns := insert c S.columns
  indexes := S.indexes
  on_columns i cols h := (S.on_columns i cols h).trans (Finset.subset_insert c S.columns)

/-- A new index on a column of the table. -/
def addIndex (S : Schema) (i c : Name) (hc : c ∈ S.columns) : Schema where
  columns := S.columns
  indexes := Function.update S.indexes i (some {c})
  on_columns j cols h := by
    by_cases hj : j = i
    · rw [hj, Function.update_self] at h
      cases h
      exact Finset.singleton_subset_iff.mpr hc
    · rw [Function.update_of_ne hj] at h
      exact S.on_columns j cols h

/-- `CREATE INDEX IF NOT EXISTS`: nothing where there is an index of that name, on whatever table; else
the column has to be there. -/
def createIndex (S : Schema) (i c : Name) : Option Schema :=
  if (S.indexes i).isSome then some S
  else if hc : c ∈ S.columns then some (S.addIndex i c hc) else none

/-- `DROP INDEX IF EXISTS`. -/
def dropIndex (S : Schema) (i : Name) : Schema where
  columns := S.columns
  indexes := Function.update S.indexes i none
  on_columns j cols h := by
    by_cases hj : j = i
    · rw [hj, Function.update_self] at h
      cases h
    · rw [Function.update_of_ne hj] at h
      exact S.on_columns j cols h

/-- `DROP COLUMN IF EXISTS`, which drops the indexes on the column too. -/
def dropColumn (S : Schema) (c : Name) : Schema where
  columns := S.columns.erase c
  indexes i := (S.indexes i).filter fun cols => c ∉ cols
  on_columns i cols h := by
    obtain ⟨hcols, hc⟩ := Option.filter_eq_some_iff.mp h
    exact Finset.subset_erase.mpr ⟨S.on_columns i cols hcols, of_decide_eq_true hc⟩

section
variable {S : Schema} {i j c : Name} {hc : c ∈ S.columns} {cols : Finset Name}

@[simp] theorem indexes_addIndex_self : (S.addIndex i c hc).indexes i = some {c} :=
  Function.update_self ..

theorem indexes_addIndex_of_ne (h : j ≠ i) : (S.addIndex i c hc).indexes j = S.indexes j :=
  Function.update_of_ne h ..

@[simp] theorem indexes_dropIndex_self : (S.dropIndex i).indexes i = none := Function.update_self ..

theorem indexes_dropIndex_of_ne (h : j ≠ i) : (S.dropIndex i).indexes j = S.indexes j :=
  Function.update_of_ne h ..

theorem indexes_dropColumn : (S.dropColumn c).indexes i = some cols ↔
    S.indexes i = some cols ∧ c ∉ cols := by
  simp [dropColumn, Option.filter_eq_some_iff]

end

end Schema

/-! ### Statements -/

/-- The index of a column, as the catalog names it. -/
def indexName (table : String) (col : ColumnSpec) : Name := foldIdent (idxName table col)

/-- The kinds of statement of the generated expand and rollback lists. -/
inductive SchemaOp
  | addColumn (col : ColumnSpec)
  | createIndex (col : ColumnSpec)
  | dropIndex (col : ColumnSpec)
  | dropColumn (colName : String)
deriving DecidableEq

namespace SchemaOp

def sql (table : String) : SchemaOp → String
  | addColumn col => addColumnDDL table col
  | createIndex col => createIndexDDL table col
  | dropIndex col => dropIndexDDL table col
  | dropColumn colName => dropColumnDDL table colName

/-- What the statement makes of a schema, if it succeeds. -/
def run (table : String) (S : Schema) : SchemaOp → Option Schema
  | addColumn col => some (S.addColumn (foldIdent col.name))
  | createIndex col => S.createIndex (indexName table col) (foldIdent col.name)
  | dropIndex col => some (S.dropIndex (indexName table col))
  | dropColumn colName => some (S.dropColumn (foldIdent colName))

end SchemaOp

def expandOps (add : List ColumnSpec) : List SchemaOp :=
  add.flatMap fun col => .addColumn col :: if col.indexed then [.createIndex col] else []

def rollbackOps (add : List ColumnSpec) : List SchemaOp :=
  add.flatMap fun col => (if col.indexed then [.dropIndex col] else []) ++ [.dropColumn col.name]

/-- The generated expand list is the text of `expandOps`. -/
theorem generate_expand (table : String) (add : List ColumnSpec) (drop : List String) :
    (generate table add drop).expand = (expandOps add).map (SchemaOp.sql table) := by
  unfold generate expandOps
  rw [List.map_flatMap]
  refine List.flatMap_congr fun col _ => ?_
  cases col.indexed <;> rfl

theorem generate_rollback (table : String) (add : List ColumnSpec) (drop : List String) :
    (generate table add drop).rollback = (rollbackOps add).map (SchemaOp.sql table) := by
  unfold generate rollbackOps
  rw [List.map_flatMap]
  refine List.flatMap_congr fun col _ => ?_
  cases col.indexed <;> rfl

/-! ### Between the start and the end of a migration -/

/-- The added columns, as the catalog names them. -/
def added (add : List ColumnSpec) : Finset Name := (add.map fun col => foldIdent col.name).toFinset

/-- **The schema has none of the added columns and none of the generated index names.** -/
structure Fresh (table : String) (add : List ColumnSpec) (S : Schema) : Prop where
  columns : ∀ col ∈ add, foldIdent col.name ∉ S.columns
  indexes : ∀ col ∈ add, col.indexed = true → S.indexes (indexName table col) = none

/-- All of `S` is in `T`, and what else is in `T` are added columns and indexes on one of them. -/
structure Between (add : List ColumnSpec) (S T : Schema) : Prop where
  keeps_columns : S.columns ⊆ T.columns
  new_columns : T.columns ⊆ S.columns ∪ added add
  keeps_indexes : ∀ i cols, S.indexes i = some cols → T.indexes i = some cols
  new_indexes : ∀ i cols, T.indexes i = some cols →
    S.indexes i = some cols ∨ ∃ c ∈ added add, c ∈ cols

section
variable {table : String} {add : List ColumnSpec} {S T U : Schema} {op : SchemaOp}

theorem between_refl (add : List ColumnSpec) (S : Schema) : Between add S S :=
  ⟨subset_rfl, Finset.subset_union_left, fun _ _ h => h, fun _ _ h => Or.inl h⟩

theorem mem_added {c : Name} : c ∈ added add ↔ ∃ col ∈ add, foldIdent col.name = c := by
  simp [added]

theorem mem_expandOps : op ∈ expandOps add ↔ ∃ col ∈ add,
    op = .addColumn col ∨ col.indexed = true ∧ op = .createIndex col := by
  unfold expandOps
  rw [List.mem_flatMap]
  refine exists_congr fun col => and_congr_right fun _ => ?_
  cases col.indexed <;> simp

theorem mem_rollbackOps : op ∈ rollbackOps add ↔ ∃ col ∈ add,
    col.indexed = true ∧ op = .dropIndex col ∨ op = .dropColumn col.name := by
  unfold rollbackOps
  rw [List.mem_flatMap]
  refine exists_congr fun col => and_congr_right fun _ => ?_
  cases col.indexed <;> simp

/-- **One statement of the expand list.** -/
theorem Between.expand (h : Between add S T) (hop : op ∈ expandOps add) (hrun : op.run table T = some U) :
    Between add S U := by
  obtain ⟨col, hcol, rfl | ⟨-, rfl⟩⟩ := mem_expandOps.mp hop
  · cases hrun
    have hadded : foldIdent col.name ∈ added add := mem_added.mpr ⟨col, hcol, rfl⟩
    refine ⟨h.keeps_columns.trans (Finset.subset_insert _ _), ?_, h.keeps_indexes, h.new_indexes⟩
    exact Finset.insert_subset (Finset.mem_union_right _ hadded) h.new_columns
  · change T.createIndex (indexName table col) (foldIdent col.name) = some U at hrun
    unfold Schema.createIndex at hrun
    split_ifs at hrun with hi hc
    · cases hrun
      exact h
    · cases hrun
      have hadded : foldIdent col.name ∈ added add := mem_added.mpr ⟨col, hcol, rfl⟩
      refine ⟨h.keeps_columns, h.new_columns, fun j cols hj => ?_, fun j cols hj => ?_⟩
      · have hne : j ≠ indexName table col := by
          rintro rfl
          rw [h.keeps_indexes _ _ hj] at hi
          exact hi rfl
        rw [Schema.indexes_addIndex_of_ne hne]
        exact h.keeps_indexes j cols hj
      · by_cases hji : j = indexName table col
        · rw [hji, Schema.indexes_addIndex_self] at hj
          obtain rfl := Option.some.inj hj
          exact Or.inr ⟨_, hadded, Finset.mem_singleton_self _⟩
        · rw [Schema.indexes_addIndex_of_ne hji] at hj
          exact h.new_indexes j cols hj

/-- **One statement of the rollback list** always succeeds. -/
theorem Between.rollback (hfresh : Fresh table add S) (h : Between add S T) (hop : op ∈ rollbackOps add) :
    ∃ U, op.run table T = some U ∧ Between add S U := by
  obtain ⟨col, hcol, ⟨hindexed, rfl⟩ | rfl⟩ := mem_rollbackOps.mp hop
  · refine ⟨_, rfl, h.keeps_columns, h.new_columns, fun j cols hj => ?_, fun j cols hj => ?_⟩
    · have hne : j ≠ indexName table col := by
        rintro rfl
        rw [hfresh.indexes col hcol hindexed] at hj
        cases hj
      rw [Schema.indexes_dropIndex_of_ne hne]
      exact h.keeps_indexes j cols hj
    · by_cases hji : j = indexName table col
      · rw [hji, Schema.indexes_dropIndex_self] at hj
        cases hj
      · rw [Schema.indexes_dropIndex_of_ne hji] at hj
        exact h.new_indexes j cols hj
  · have hnot : foldIdent col.name ∉ S.columns := hfresh.columns col hcol
    refine ⟨_, rfl, Finset.subset_erase.mpr ⟨h.keeps_columns, hnot⟩,
      (Finset.erase_subset _ _).trans h.new_columns, fun j cols hj => ?_,
      fun j cols hj => h.new_indexes j cols (Schema.indexes_dropColumn.mp hj).1⟩
    exact Schema.indexes_dropColumn.mpr
      ⟨h.keeps_indexes j cols hj, fun hc => hnot (S.on_columns j cols hj hc)⟩

/-- Without the added columns nothing is left but `S`. -/
theorem Between.eq (h : Between add S T) (hT : ∀ c ∈ added add, c ∉ T.columns) : T = S := by
  refine Schema.ext (Finset.Subset.antisymm (fun c hc => ?_) h.keeps_columns) (funext fun i => ?_)
  · exact (Finset.mem_union.mp (h.new_columns hc)).resolve_right fun ha => hT c ha hc
  · cases hS : S.indexes i with
    | some cols => exact h.keeps_indexes i cols hS
    | none =>
      refine Option.eq_none_iff_forall_not_mem.mpr fun cols hcols => ?_
      rcases h.new_indexes i cols hcols with hold | ⟨c, ha, hc⟩
      · cases hS.symm.trans hold
      · exact hT c ha (T.on_columns i cols hcols hc)

/-! ### A complete rollback -/

/-- A rollback statement never brings a column back. -/
theorem columns_rollback (hop : op ∈ rollbackOps add) (hrun : op.run table T = some U) :
    U.columns ⊆ T.columns := by
  obtain ⟨col, hcol, ⟨-, rfl⟩ | rfl⟩ := mem_rollbackOps.mp hop
  · cases hrun
    exact subset_rfl
  · cases hrun
    exact Finset.erase_subset _ _

/-- What a list of rollback statements drops is gone in the end. -/
theorem dropped_of_exec {ops : List SchemaOp} (hops : ∀ op ∈ ops, op ∈ rollbackOps add)
    (hrun : exec (SchemaOp.run table) T ops = some U) {colName : String}
    (h : .dropColumn colName ∈ ops) : foldIdent colName ∉ U.columns := by
  induction ops generalizing T with
  | nil => cases h
  | cons op ops ih =>
    obtain ⟨T', hT', hU⟩ := Option.bind_eq_some_iff.mp hrun
    obtain ⟨-, hrest⟩ := List.forall_mem_cons.mp hops
    rcases List.mem_cons.mp h with rfl | h
    · cases hT'
      exact exec_inv (I := fun V => foldIdent colName ∉ V.columns)
        (fun op hop V W hV hW hmem => hV (columns_rollback (hrest op hop) hW hmem))
        (Finset.notMem_erase _ _) hU
    · exact ih hrest hU h

/-- **Rollback undoes expand from any crash point.** -/
theorem rollback_undoes (table : String) (add : List ColumnSpec) {S T U : Schema}
    (hfresh : Fresh table add S) (hexpand : Partials (SchemaOp.run table) (expandOps add) S T)
    (hrollback : Partials (SchemaOp.run table) (rollbackOps add) T U) :
    exec (SchemaOp.run table) U (rollbackOps add) = some S := by
  have hT : Between add S T := Partials.inv (fun op hop _ _ h hrun => h.expand hop hrun)
    (between_refl add S) hexpand
  have hstep : ∀ op ∈ rollbackOps add, ∀ V, Between add S V →
      ∃ W, op.run table V = some W ∧ Between add S W := fun op hop V hV => hV.rollback hfresh hop
  have hU : Between add S U := by
    refine Partials.inv (fun op hop V W hV hrun => ?_) hT hrollback
    obtain ⟨W', hW', hbetween⟩ := hstep op hop V hV
    rwa [Option.some.inj (hrun.symm.trans hW')]
  obtain ⟨W, hW, hbetween⟩ := exec_total hstep hU
  have hdropped : ∀ c ∈ added add, c ∉ W.columns := by
    intro c hc
    obtain ⟨col, hcol, rfl⟩ := mem_added.mp hc
    exact dropped_of_exec (fun _ h => h) hW (mem_rollbackOps.mpr ⟨col, hcol, Or.inr rfl⟩)
  rw [hW, hbetween.eq hdropped]

end

/-- A table with the column `a`, in a database without indexes. -/
def oneColumn : Schema where
  columns := {foldIdent "a"}
  indexes _ := none
  on_columns _ _ h := nomatch h

/-- Expand is cut off twice after its first statement, and rollback once. -/
theorem rollback_undoes_twice : exec (SchemaOp.run "t")
    (((oneColumn.addColumn (foldIdent "b")).addColumn (foldIdent "b")).dropIndex
      (indexName "t" { name := "b", type := "int", indexed := true }))
    (rollbackOps [{ name := "b", type := "int", indexed := true }]) = some oneColumn :=
  rollback_undoes "t" [{ name := "b", type := "int", indexed := true }] (S := oneColumn)
    (T := (oneColumn.addColumn (foldIdent "b")).addColumn (foldIdent "b"))
    ⟨by decide +kernel, fun _ _ _ => rfl⟩
    ((Relation.ReflTransGen.single ⟨1, rfl⟩).tail ⟨1, rfl⟩)
    (Relation.ReflTransGen.single ⟨1, rfl⟩)

end MigrationSafety.Ddl.Undo
