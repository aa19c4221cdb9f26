import MigrationSafety.StateMachine.Gates

/-! # Cutover on a table

What the point of no return guarantees of the table it has measured. The gate counts one column and
compares a ratio, so it does not guarantee that every column is filled (`cutover_sound_iff`), nor that
the contract list can be executed (`contract_runs_iff`); both theorems say for which plans it does. -/

namespace MigrationSafety.StateMachine.Cutover

open MigrationSafety.Lib.Effects MigrationSafety.Lib.Binary64
open MigrationSafety.Sql.Text MigrationSafety.Sql.Rows MigrationSafety.Ddl.Generate
open MigrationSafety.Plan.Validate MigrationSafety.StateMachine.Signature
open MigrationSafety.StateMachine.Handlers MigrationSafety.StateMachine.Run
open MigrationSafety.StateMachine.Gates

variable {V : Type} [DecidableEq V] {eval : Eval V} {T : Table V} {r : Record} {n : ℕ}

/-! ### What the cutover lets pass -/

/-- A full-table measurement is one of this table. -/
def Measures (eval : Eval V) (T : Table V) : Event engine → Prop
  | ⟨.fullParity _ col expr, some c⟩ => T.hasColumn col ∧
      c = (T.rows.length, nullCount T.rows col, driftCount eval T.rows col expr)
  | _ => True

/-- **The cutover handler can return the happy path on this table.** -/
def Passes (eval : Eval V) (T : Table V) (r : Record) : Prop :=
  ∃ t out, Runs (cutover r) t out ∧ (∀ ev ∈ t, Measures eval T ev) ∧
    persistedNext .cutover out = some .contracting

/-- The tracked column has no NULL, and parity at the threshold. -/
structure Measured (eval : Eval V) (T : Table V) (p : MigrationPlan) : Prop where
  column : T.hasColumn p.backfill.column
  nulls : nullCount T.rows p.backfill.column = 0
  parity : (threshold p).val ≤ (parity T.rows.length
    (driftCount eval T.rows p.backfill.column p.backfill.sourceExpr)).val

theorem runs_serviceGate : Runs (serviceGate r.id) [⟨.serviceCounts r.id, some (1, 1)⟩] none :=
  After.cons After.nil

/-- With no tracked column there is nothing to measure. -/
theorem runs_cutover_skip (hcol : r.plan.backfill.column = "") :
    Runs (cutover r) [⟨.serviceCounts r.id, some (1, 1)⟩]
      (.ok { checkpoint := [("step", .text State.cutover.text)] }) := by
  refine runs_bind.mpr ⟨_, [], none, (List.append_nil _).symm, runs_serviceGate, ?_⟩
  simp [hcol]

/-- A measurement within the thresholds commits the cutover. -/
theorem runs_cutover_commit {total drifted : ℕ} (hcol : r.plan.backfill.column ≠ "")
    (hp : (threshold r.plan).val ≤ (parity total drifted).val) :
    Runs (cutover r) [⟨.serviceCounts r.id, some (1, 1)⟩,
        ⟨.fullParity r.plan.table r.plan.backfill.column r.plan.backfill.sourceExpr,
          some (total, 0, drifted)⟩]
      (.ok { checkpoint := [("cutover_parity", .float (parity total drifted)),
        ("rows", .int total)] }) := by
  refine runs_bind.mpr ⟨[_], [_], none, rfl, runs_serviceGate, ?_⟩
  dsimp only
  rw [if_neg hcol]
  refine runs_perform_bind.mpr ⟨_, [], rfl, ?_⟩
  dsimp only
  rw [if_neg (by simpa using hp)]
  exact runs_ret.mpr ⟨rfl, rfl⟩

theorem passes_iff :
    Passes eval T r ↔ r.plan.backfill.column = "" ∨ Measured eval T r.plan := by
  constructor
  · rintro ⟨t, out, hr, hm, hnext⟩
    refine ((cutover_runs hr).1 hnext).imp_right ?_
    rintro ⟨total, drifted, hpar, hmem⟩
    obtain ⟨hcol, hc⟩ := hm _ hmem
    obtain ⟨rfl, hnull, rfl⟩ := by simpa using hc
    exact ⟨hcol, hnull.symm, hpar⟩
  · intro h
    by_cases hcol : r.plan.backfill.column = ""
    · exact ⟨_, _, runs_cutover_skip hcol, by simp [Measures], rfl⟩
    · have hmes := h.resolve_left hcol
      refine ⟨_, _, runs_cutover_commit hcol hmes.parity, ?_, rfl⟩
      simp [Measures, hmes.column, hmes.nulls]

/-! ### What a passed cutover says of the data -/

/-- The columns a plan fills, with their expressions: the tracked one, and those of the specs. -/
def backfilled (p : MigrationPlan) : List (String × String) :=
  (if p.backfill.column = "" then [] else [(p.backfill.column, p.backfill.sourceExpr)]) ++
    (exprCols p.addColumns).map fun c => (c.name, c.expression)

/-- On every table of `n` rows that passes, every backfilled column is filled. -/
def Sound (V : Type) [DecidableEq V] (r : Record) (n : ℕ) : Prop :=
  ∀ (eval : Eval V) (T : Table V), T.rows.length = n → Passes eval T r →
    ∀ x ∈ backfilled r.plan, Filled eval T x.1 x.2

/-- All backfilled columns are the tracked one, with its expression. -/
def OneColumn (p : MigrationPlan) : Prop :=
  ∀ x ∈ backfilled p, foldIdent x.1 = foldIdent p.backfill.column ∧ x.2 = p.backfill.sourceExpr

/-- One drifted row out of `n` brings parity below the threshold. -/
def Sharp (p : MigrationPlan) (n : ℕ) : Prop := (parity n 1).val < (threshold p).val

/-- Under a sharp threshold, what has passed is filled. -/
theorem Measured.filled (h : Measured eval T r.plan) (hs : Sharp r.plan T.rows.length) :
    Filled eval T r.plan.backfill.column r.plan.backfill.sourceExpr := by
  refine filled_iff.mpr ⟨h.nulls, ?_⟩
  by_contra hd
  have hd' : 1 ≤ driftCount eval T.rows r.plan.backfill.column r.plan.backfill.sourceExpr := by omega
  exact absurd (h.parity.trans (parity_antitone hd')) (not_le.mpr hs)

/-! ### Tables that pass -/

section Tables
variable [Inhabited V]

/-- A table of equal rows, with a value in one column only. -/
def flatTable (V : Type) [Inhabited V] (cols : List Name) (col : String) (n : ℕ) : Table V where
  cols := foldIdent col :: cols
  rows := List.replicate n ⟨1, fun c => if c = foldIdent col then some default else none⟩

/-- The same value for one expression, and NULL for all others. -/
def evalOnly (V : Type) [Inhabited V] (expr : String) : Eval V :=
  fun e _ => if e = expr then some default else none

theorem measured_flatTable {p : MigrationPlan} {cols : List Name}
    (h : (threshold p).val ≤ 1) : Measured (evalOnly V p.backfill.sourceExpr)
      (flatTable V cols p.backfill.column n) p := by
  have hd : driftCount (evalOnly V p.backfill.sourceExpr)
      (flatTable V cols p.backfill.column n).rows p.backfill.column p.backfill.sourceExpr = 0 := by
    rw [driftCount_eq_zero]
    intro row hrow
    rw [List.eq_of_mem_replicate hrow]
    simp [Row.get, evalOnly]
  refine ⟨by simp [Table.hasColumn, flatTable], ?_, by rw [hd, parity_zero]; exact h⟩
  rw [nullCount_eq_zero]
  intro row hrow
  rw [List.eq_of_mem_replicate hrow]
  simp [Row.get]

/-- The first row has drifted; its expression is NULL. -/
def driftTable (V : Type) [Inhabited V] (col : String) (n : ℕ) : Table V where
  cols := [foldIdent col]
  rows := ⟨0, fun _ => some default⟩ :: List.replicate n ⟨1, fun _ => some default⟩

def driftEval (V : Type) [Inhabited V] : Eval V := fun _ row =>
  if row.id = 0 then none else some default

theorem driftCount_driftTable (col expr : String) :
    driftCount (driftEval V) (driftTable V col n).rows col expr = 1 := by
  simp [driftCount, driftTable, driftEval, Row.get, List.countP_replicate]

theorem measured_driftTable {p : MigrationPlan} (h : ¬Sharp p (n + 1)) :
    Measured (driftEval V) (driftTable V p.backfill.column n) p := by
  refine ⟨by simp [Table.hasColumn, driftTable], ?_, ?_⟩
  · rw [nullCount_eq_zero]
    intro row hrow
    rcases List.mem_cons.mp hrow with rfl | hrow
    · simp [Row.get]
    · rw [List.eq_of_mem_replicate hrow]
      simp [Row.get]
  · rw [driftCount_driftTable]
    simpa [Sharp, driftTable] using h

end Tables

/-! ### Soundness of the gate -/

/-- Without a tracked column nothing is guaranteed. -/
theorem column_ne_of_sound (h : Sound V r n) (hn : n ≠ 0) (hb : backfilled r.plan ≠ []) :
    r.plan.backfill.column ≠ "" := by
  intro hcol
  obtain ⟨x, hx⟩ := List.exists_mem_of_ne_nil _ hb
  have hT := h (fun _ _ => none) ⟨[], List.replicate n ⟨1, fun _ => none⟩⟩ (by simp)
    (passes_iff.mpr (Or.inl hcol)) x hx
  exact (hT ⟨1, fun _ => none⟩ (by simp [hn])).1 rfl

section Sound
variable [Inhabited V]

theorem oneColumn_of_sound (h : Sound V r n) (hn : n ≠ 0) (ht : (threshold r.plan).val ≤ 1) :
    OneColumn r.plan := by
  intro x hx
  have hT := h _ (flatTable V [] r.plan.backfill.column n) (by simp [flatTable])
    (passes_iff.mpr (Or.inr (measured_flatTable ht))) x hx
  obtain ⟨hnull, heval⟩ := hT _ (List.mem_replicate.mpr ⟨hn, rfl⟩)
  constructor
  · by_contra hne
    exact hnull (if_neg hne)
  · by_contra hne
    rw [heval] at hnull
    exact hnull (if_neg hne)

theorem sharp_of_sound (h : Sound V r (n + 1)) (hcol : r.plan.backfill.column ≠ "") :
    Sharp r.plan (n + 1) := by
  by_contra hs
  have hx : (r.plan.backfill.column, r.plan.backfill.sourceExpr) ∈ backfilled r.plan := by
    simp [backfilled, hcol]
  have hT := h _ (driftTable V r.plan.backfill.column n) (by simp [driftTable])
    (passes_iff.mpr (Or.inr (measured_driftTable hs))) _ hx
  have := hT ⟨0, fun _ => some default⟩ (by simp [driftTable])
  simp [Row.get, driftEval] at this

/-- **When a passed cutover means that the data is good**: the table is empty, or nothing is
backfilled, or no table passes, or the tracked column is the only one and a single drifted row is
noticed. -/
theorem cutover_sound_iff (V : Type) [DecidableEq V] [Inhabited V] (r : Record) (n : ℕ) :
    Sound V r n ↔ n = 0 ∨ backfilled r.plan = [] ∨ (r.plan.backfill.column ≠ "" ∧
      (1 < (threshold r.plan).val ∨ (OneColumn r.plan ∧ Sharp r.plan n))) := by
  constructor
  · intro h
    by_cases hn : n = 0
    · exact Or.inl hn
    by_cases hb : backfilled r.plan = []
    · exact Or.inr (Or.inl hb)
    have hcol := column_ne_of_sound h hn hb
    refine Or.inr (Or.inr ⟨hcol, ?_⟩)
    by_cases ht : 1 < (threshold r.plan).val
    · exact Or.inl ht
    · obtain ⟨k, rfl⟩ := Nat.exists_eq_succ_of_ne_zero hn
      exact Or.inr ⟨oneColumn_of_sound h hn (not_lt.mp ht), sharp_of_sound h hcol⟩
  · rintro (rfl | hb | ⟨hcol, hcase⟩) eval T hT hpass x hx
    · intro row hrow
      rw [List.length_eq_zero_iff.mp hT] at hrow
      cases hrow
    · rw [hb] at hx
      cases hx
    · have hmes := (passes_iff.mp hpass).resolve_left hcol
      rcases hcase with ht | ⟨hone, hs⟩
      · exact absurd (ht.trans_le (hmes.parity.trans (parity_le_one _ _))) (lt_irrefl 1)
      · obtain ⟨hc, he⟩ := hone x hx
        rw [he]
        exact (hmes.filled (hT ▸ hs)).of_fold hc

end Sound

/-- Of two columns filled by expressions, only the first is measured. -/
theorem cutover_unsound : ¬∀ (r : Record) (n : ℕ), Accepted r.plan → backfilled r.plan ≠ [] →
    Sound ℕ r n := by
  intro hall
  let r : Record := { id := 0, plan := twoColumnPlan.prepare.withDefaults, state := .cutover }
  have hs : Sound ℕ r 1 := hall r 1 (validate_ok validate_twoColumnPlan).2 (by decide +kernel)
  have hone := oneColumn_of_sound hs one_ne_zero (by decide +kernel) ("c", "a + 1") (by decide +kernel)
  exact absurd hone.1 (by decide +kernel)

/-! ### The contract after the cutover -/

theorem contract_prepare {p : MigrationPlan} (hd : p.declarative) (hc : p.contract = []) :
    p.prepare.withDefaults.contract =
      (contractOps p.addColumns p.dropColumns).map (ContractOp.sql p.table) := by
  simp [MigrationPlan.prepare, hd, MigrationPlan.generateDDL, MigrationPlan.withDefaults, orElse, hc,
    generate_contract]

theorem columns_prepare (p : MigrationPlan) : p.prepare.withDefaults.addColumns = p.addColumns ∧
    p.prepare.withDefaults.dropColumns = p.dropColumns := by
  unfold MigrationPlan.prepare
  split_ifs <;> exact ⟨rfl, rfl⟩

/-- The contract list succeeds on every table that passes the cutover. -/
def ContractSafe (V : Type) [DecidableEq V] (r : Record) : Prop :=
  ∀ (eval : Eval V) (T : Table V), Passes eval T r →
    (runContract T (contractOps r.plan.addColumns r.plan.dropColumns)).isSome = true

/-- The column is the tracked one, and is not dropped. -/
def Tracked (p : MigrationPlan) (c : ColumnSpec) : Prop :=
  p.backfill.column ≠ "" ∧ foldIdent c.name = foldIdent p.backfill.column ∧
    ∀ d ∈ p.dropColumns, foldIdent c.name ≠ foldIdent d

/-- A table with all columns of the plan, filled in the tracked one. -/
def expandedTable (V : Type) [Inhabited V] (p : MigrationPlan) : Table V :=
  flatTable V (p.addColumns.map fun c => foldIdent c.name) p.backfill.column 1

theorem tracked_of_contractSafe [Inhabited V] (h : ContractSafe V r)
    (hp : Passes (evalOnly V r.plan.backfill.sourceExpr) (expandedTable V r.plan) r)
    {c : ColumnSpec} (hc : c ∈ r.plan.addColumns) (hn : c.nullable = false) :
    foldIdent c.name = foldIdent r.plan.backfill.column ∧
      ∀ d ∈ r.plan.dropColumns, foldIdent c.name ≠ foldIdent d := by
  obtain ⟨-, hd, hnull⟩ := (runContract_isSome _ _ _).mp (h _ _ hp) c hc hn
  refine ⟨?_, hd⟩
  by_contra hne
  exact nullCount_eq_zero.mp hnull _ (List.mem_replicate.mpr ⟨one_ne_zero, rfl⟩) (if_neg hne)

/-- Without a tracked column the cutover lets every table pass. -/
theorem column_ne_of_contractSafe (h : ContractSafe V r) {c : ColumnSpec}
    (hc : c ∈ r.plan.addColumns) (hn : c.nullable = false) : r.plan.backfill.column ≠ "" := by
  intro hcol
  have hp : Passes (fun _ _ => none) (⟨[], [⟨1, fun _ => none⟩]⟩ : Table V) r :=
    passes_iff.mpr (Or.inl hcol)
  obtain ⟨-, -, hnull⟩ := (runContract_isSome _ _ _).mp (h _ _ hp) c hc hn
  exact nullCount_eq_zero.mp hnull _ List.mem_cons_self rfl

theorem contractSafe_iff (V : Type) [DecidableEq V] [Inhabited V] (r : Record) :
    ContractSafe V r ↔ (r.plan.backfill.column ≠ "" ∧ 1 < (threshold r.plan).val) ∨
      ∀ c ∈ r.plan.addColumns, c.nullable = false → Tracked r.plan c := by
  constructor
  · intro h
    refine or_iff_not_imp_left.mpr fun hnot c hc hn => ?_
    have hcol := column_ne_of_contractSafe h hc hn
    have ht : (threshold r.plan).val ≤ 1 := not_lt.mp fun ht => hnot ⟨hcol, ht⟩
    exact ⟨hcol, tracked_of_contractSafe h (passes_iff.mpr (Or.inr (measured_flatTable ht))) hc hn⟩
  · rintro h eval T hp
    refine (runContract_isSome _ _ _).mpr fun c hc hn => ?_
    rcases h with ⟨hcol, ht⟩ | h
    · have hmes := (passes_iff.mp hp).resolve_left hcol
      exact absurd (ht.trans_le (hmes.parity.trans (parity_le_one _ _))) (lt_irrefl 1)
    · obtain ⟨hcol, hfold, hd⟩ := h c hc hn
      have hmes := (passes_iff.mp hp).resolve_left hcol
      refine ⟨?_, hd, ?_⟩
      · unfold Table.hasColumn
        rw [hfold]
        exact hmes.column
      · have := hmes.nulls
        unfold nullCount Row.get at this ⊢
        rwa [hfold]

end MigrationSafety.StateMachine.Cutover
