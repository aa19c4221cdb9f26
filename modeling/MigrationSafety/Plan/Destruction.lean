import MigrationSafety.Ddl.Undo
import MigrationSafety.Plan.Validate

/-! # What a generated rollback destroys

Expand does nothing to a column or an index that is there already (`IF NOT EXISTS`); rollback drops it
all the same (`IF EXISTS`). So a generated rollback list spares what was there before the migration if
and only if none of it has a name the list drops (`spares_iff`). What the statements of an explicit
expand list do is left open. -/

namespace MigrationSafety.Plan.Destruction

open MigrationSafety.Lib.Scripts MigrationSafety.Sql.Text MigrationSafety.Ddl.Generate
open MigrationSafety.Ddl.Undo MigrationSafety.Plan.Validate

variable {table : String} {add : List ColumnSpec} {S T U : Schema} {p p' : MigrationPlan}
  {raw : Schema → String → Option Schema}

/-! ### The two lists -/

/-- The names of the generated indexes. -/
def indexNames (table : String) (add : List ColumnSpec) : Finset Name :=
  ((add.filter (·.indexed)).map (indexName table)).toFinset

theorem mem_indexNames {i : Name} : i ∈ indexNames table add ↔
    ∃ col ∈ add, col.indexed = true ∧ indexName table col = i := by
  simp [indexNames, and_assoc]

/-- The expand list of one column. -/
theorem expandOps_cons (col : ColumnSpec) (add : List ColumnSpec) : expandOps (col :: add) =
    (.addColumn col :: if col.indexed then [.createIndex col] else []) ++ expandOps add := by
  simp [expandOps]

theorem rollbackOps_cons (col : ColumnSpec) (add : List ColumnSpec) : rollbackOps (col :: add) =
    ((if col.indexed then [.dropIndex col] else []) ++ [.dropColumn col.name]) ++ rollbackOps add := by
  simp [rollbackOps]

/-- **A generated expand list always succeeds**: an index is created after its column. -/
theorem exec_expandOps (table : String) (add : List ColumnSpec) (S : Schema) :
    ∃ T, exec (SchemaOp.run table) S (expandOps add) = some T := by
  induction add generalizing S with
  | nil => exact ⟨S, rfl⟩
  | cons col add ih =>
    have hcol : ∃ T, exec (SchemaOp.run table) S
        (.addColumn col :: if col.indexed then [.createIndex col] else []) = some T := by
      cases col.indexed with
      | false => exact ⟨_, rfl⟩
      | true =>
        have hindex : ∃ T, (S.addColumn (foldIdent col.name)).createIndex (indexName table col)
            (foldIdent col.name) = some T := by
          unfold Schema.createIndex
          split_ifs with hi hc
          · exact ⟨_, rfl⟩
          · exact ⟨_, rfl⟩
          · exact absurd (Finset.mem_insert_self _ _) hc
        obtain ⟨T, hT⟩ := hindex
        exact ⟨T, Option.bind_eq_some_iff.mpr ⟨_, rfl, Option.bind_eq_some_iff.mpr ⟨T, hT, rfl⟩⟩⟩
    obtain ⟨T, hT⟩ := hcol
    rw [expandOps_cons, exec_append, hT]
    exact ih T

/-- **What a generated rollback list removes**, from any schema. -/
theorem exec_rollbackOps (table : String) (add : List ColumnSpec) (T : Schema) :
    ∃ U, exec (SchemaOp.run table) T (rollbackOps add) = some U ∧
      (∀ c, c ∈ U.columns ↔ c ∈ T.columns ∧ c ∉ added add) ∧
      ∀ i cols, U.indexes i = some cols ↔
        T.indexes i = some cols ∧ i ∉ indexNames table add ∧ ∀ c ∈ cols, c ∉ added add := by
  induction add generalizing T with
  | nil => exact ⟨T, rfl, by simp [added], by simp [added, indexNames]⟩
  | cons col add ih =>
    have hadded : ∀ c, c ∈ added (col :: add) ↔ foldIdent col.name = c ∨ c ∈ added add := by
      simp [mem_added]
    have hcol : ∃ V, exec (SchemaOp.run table) T
        ((if col.indexed then [.dropIndex col] else []) ++ [.dropColumn col.name]) = some V ∧
        (∀ c, c ∈ V.columns ↔ c ∈ T.columns ∧ foldIdent col.name ≠ c) ∧
        ∀ i cols, V.indexes i = some cols ↔ T.indexes i = some cols ∧
          ¬(col.indexed = true ∧ indexName table col = i) ∧ foldIdent col.name ∉ cols := by
      cases col.indexed with
      | false =>
        refine ⟨_, rfl, fun c => ?_, fun i cols => ?_⟩
        · rw [and_comm, ne_comm]
          exact Finset.mem_erase
        · rw [Schema.indexes_dropColumn]
          simp
      | true =>
        refine ⟨_, rfl, fun c => ?_, fun i cols => ?_⟩
        · rw [and_comm, ne_comm]
          exact Finset.mem_erase
        · rw [Schema.indexes_dropColumn]
          by_cases hi : i = indexName table col
          · simp [hi]
          · rw [Schema.indexes_dropIndex_of_ne hi]
            simp [Ne.symm hi]
    obtain ⟨V, hV, hcolumns, hindexes⟩ := hcol
    obtain ⟨U, hU, hcolumns', hindexes'⟩ := ih V
    refine ⟨U, ?_, fun c => ?_, fun i cols => ?_⟩
    · rw [rollbackOps_cons, exec_append, hV]
      exact hU
    · rw [hcolumns', hcolumns, hadded, not_or, and_assoc]
    · have hnames : i ∈ indexNames table (col :: add) ↔
          (col.indexed = true ∧ indexName table col = i) ∨ i ∈ indexNames table add := by
        simp [mem_indexNames]
      have hcols : (∀ c ∈ cols, c ∉ added (col :: add)) ↔
          foldIdent col.name ∉ cols ∧ ∀ c ∈ cols, c ∉ added add := by
        simp only [hadded, not_or]
        exact ⟨fun h => ⟨fun hc => (h _ hc).1 rfl, fun c hc => (h c hc).2⟩,
          fun h c hc => ⟨fun heq => h.1 (heq ▸ hc), h.2 c hc⟩⟩
      rw [hindexes', hindexes, hnames, hcols, not_or]
      tauto

/-! ### Plans with a generated rollback -/

/-- The rollback list of the accepted plan has been generated from `add_columns`. -/
structure Generates (p p' : MigrationPlan) : Prop where
  valid : validate p = .ok p'
  rollback : p.rollback = []
  addColumns : p.addColumns ≠ []

/-- The statements of the accepted plan: only an empty expand list has been generated too. -/
structure Lists (p p' : MigrationPlan) : Prop where
  rollback : p'.rollback = (rollbackOps p.addColumns).map (SchemaOp.sql p.table)
  expand : p'.expand =
    if p.expand = [] then (expandOps p.addColumns).map (SchemaOp.sql p.table) else p.expand

theorem Generates.lists (h : Generates p p') : Lists p p' := by
  have hd : p.declarative := Or.inl h.addColumns
  obtain ⟨rfl, -⟩ := validate_ok h.valid
  have hprep : p.prepare = p.generateDDL := if_pos hd
  rw [hprep]
  refine ⟨?_, ?_⟩
  · rw [← generate_rollback _ _ p.dropColumns]
    exact if_pos h.rollback
  · rw [← generate_expand _ _ p.dropColumns]
    rfl

/-- The expand list of a plan, executed on `S`. -/
def execExpand (raw : Schema → String → Option Schema) (p : MigrationPlan) (S : Schema) : Option Schema :=
  if p.expand = [] then exec (SchemaOp.run p.table) S (expandOps p.addColumns) else exec raw S p.expand

/-- **What the rollback removes after the expand was not there before.** -/
def Spares (raw : Schema → String → Option Schema) (p : MigrationPlan) (S : Schema) : Prop :=
  ∀ T U, execExpand raw p S = some T → exec (SchemaOp.run p.table) T (rollbackOps p.addColumns) = some U →
    (∀ c ∈ T.columns, c ∉ U.columns → c ∉ S.columns) ∧
      ∀ i, T.indexes i ≠ none → U.indexes i = none → S.indexes i = none

/-- Nothing of `S` that is still in `T` is an added column, has the name of a generated index, or is an
index on an added column. -/
structure Untouched (p : MigrationPlan) (S T : Schema) : Prop where
  columns : ∀ c ∈ S.columns, c ∈ T.columns → c ∉ added p.addColumns
  indexes : ∀ i cols, S.indexes i ≠ none → T.indexes i = some cols →
    i ∉ indexNames p.table p.addColumns ∧ ∀ c ∈ cols, c ∉ added p.addColumns

/-- Whatever the expand list does. -/
theorem spares_iff_untouched : Spares raw p S ↔ ∀ T, execExpand raw p S = some T → Untouched p S T := by
  refine ⟨fun h T hT => ?_, fun h T U hT hU => ?_⟩
  · obtain ⟨U, hU, hcolumns, hindexes⟩ := exec_rollbackOps p.table p.addColumns T
    obtain ⟨hc, hi⟩ := h T U hT hU
    refine ⟨fun c hS hcT hadded => hc c hcT (fun hcU => ((hcolumns c).mp hcU).2 hadded) hS,
      fun i cols hS hcols => ?_⟩
    have hU : U.indexes i ≠ none := fun hnone => hS (hi i (by rw [hcols]; exact nofun) hnone)
    obtain ⟨cols', hcols'⟩ := Option.ne_none_iff_exists'.mp hU
    obtain ⟨hT', hkept⟩ := (hindexes i cols').mp hcols'
    obtain rfl := Option.some.inj (hcols.symm.trans hT')
    exact hkept
  · obtain ⟨U', hU', hcolumns, hindexes⟩ := exec_rollbackOps p.table p.addColumns T
    obtain rfl := Option.some.inj (hU.symm.trans hU')
    refine ⟨fun c hcT hcU hS => hcU ((hcolumns c).mpr ⟨hcT, (h T hT).columns c hS hcT⟩),
      fun i hiT hiU => ?_⟩
    by_contra hS
    obtain ⟨cols, hcols⟩ := Option.ne_none_iff_exists'.mp hiT
    have hkept := (hindexes i cols).mpr ⟨hcols, (h T hT).indexes i cols hS hcols⟩
    cases hiU.symm.trans hkept

/-- A generated expand list leaves all of `S` in place. -/
theorem spares_iff_fresh (hexp : p.expand = []) :
    Spares raw p S ↔ Fresh p.table p.addColumns S := by
  rw [spares_iff_untouched]
  unfold execExpand
  rw [if_pos hexp]
  have hbetween : ∀ T, exec (SchemaOp.run p.table) S (expandOps p.addColumns) = some T →
      Between p.addColumns S T := fun T hT =>
    exec_inv (fun op hop _ _ h hrun => h.expand hop hrun) (between_refl p.addColumns S) hT
  constructor
  · intro h
    obtain ⟨T, hT⟩ := exec_expandOps p.table p.addColumns S
    refine ⟨fun col hcol hS => ?_, fun col hcol hindexed => ?_⟩
    · exact (h T hT).columns _ hS ((hbetween T hT).keeps_columns hS) (mem_added.mpr ⟨col, hcol, rfl⟩)
    · by_contra hS
      obtain ⟨cols, hcols⟩ := Option.ne_none_iff_exists'.mp hS
      exact ((h T hT).indexes _ cols hS ((hbetween T hT).keeps_indexes _ _ hcols)).1
        (mem_indexNames.mpr ⟨col, hcol, hindexed, rfl⟩)
  · intro h T hT
    refine ⟨fun c hS _ hadded => ?_, fun i cols hS hcols => ?_⟩
    · obtain ⟨col, hcol, rfl⟩ := mem_added.mp hadded
      exact h.columns col hcol hS
    · obtain ⟨old, hold⟩ := Option.ne_none_iff_exists'.mp hS
      obtain rfl := Option.some.inj (((hbetween T hT).keeps_indexes i old hold).symm.trans hcols)
      refine ⟨fun hname => ?_, fun c hc hadded => ?_⟩
      · obtain ⟨col, hcol, hindexed, rfl⟩ := mem_indexNames.mp hname
        exact hS (h.indexes col hcol hindexed)
      · obtain ⟨col, hcol, rfl⟩ := mem_added.mp hadded
        exact h.columns col hcol (S.on_columns i old hold hc)

/-- A plan that adds an indexed column `b`. -/
def indexedPlan : MigrationPlan :=
  { id := "indexed", version := 1, table := "t"
    addColumns := [{ name := "b", type := "int", nullable := true, indexed := true }] }

theorem generates_indexedPlan : Generates indexedPlan indexedPlan.prepare.withDefaults :=
  ⟨by decide +kernel, rfl, by decide⟩

end MigrationSafety.Plan.Destruction
