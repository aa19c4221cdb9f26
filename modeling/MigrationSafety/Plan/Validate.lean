import MigrationSafety.Ddl.Generate
import MigrationSafety.Lib.Binary64

/-! # The migration plan and its validation

`validate` fills in the generated fragments and the defaults of a plan and rejects what the engine
cannot run. What it accepts is `Accepted`; the plan it returns is `withDefaults (prepare p)`
(`validate_ok`).

`%q` in an error text is the parameter `quote`. -/

namespace MigrationSafety.Plan.Validate

open MigrationSafety.Sql.Text MigrationSafety.Ddl.Generate MigrationSafety.Lib.Binary64

/-! ### The plan -/

/-- `on_failure`: what happens when an SLO gate or step fails. -/
inductive FailureAction
  | unset
  | rollback
  | pause
  | other (s : String)
deriving DecidableEq

inductive Strategy
  | unset
  | expandContract
  | other (s : String)
deriving DecidableEq

structure Backfill where
  column : String := ""
  batchSize : ℤ := 0
  throttleMs : ℤ := 0
  sourceExpr : String := ""
  multiSQL : String := ""
deriving DecidableEq

structure Verify where
  mode : String := ""
  parityThreshold : Float64 := Float64.ofInt 0
  sampleRate : Float64 := Float64.ofInt 0
deriving DecidableEq

structure Canary where
  steps : List ℤ := []
  bakeSeconds : ℤ := 0
deriving DecidableEq

structure SLO where
  maxP99LatencyMs : ℤ := 0
  maxErrorRatePct : Float64 := Float64.ofInt 0
  minParity : Float64 := Float64.ofInt 0
deriving DecidableEq

/-- Fault injection: at which step the canary is made to breach. -/
structure Chaos where
  failCanaryAtStep : ℤ := 0
deriving DecidableEq

/-- **The declarative description of a migration.** -/
structure MigrationPlan where
  id : String
  version : ℤ
  table : String
  strategy : Strategy := .unset
  expand : List String := []
  backfill : Backfill := {}
  verify : Verify := {}
  canary : Canary := {}
  slo : SLO := {}
  contract : List String := []
  rollback : List String := []
  onFailure : FailureAction := .unset
  chaos : Chaos := {}
  addColumns : List ColumnSpec := []
  dropColumns : List String := []
deriving DecidableEq

/-! ### Errors -/

inductive ValidationError
  | idRequired
  | versionNotPositive
  | tableRequired
  | tableNotIdent (table : String)
  | columnNotIdent (column : String)
  | sourceExprRequired
  | unsupportedStrategy (strategy : Strategy)
  | expandEmpty
  | stepOutOfRange (step : ℤ)
  | invalidOnFailure (action : FailureAction)
deriving DecidableEq

def Strategy.text : Strategy → String
  | unset => ""
  | expandContract => "expand-contract"
  | other s => s

def FailureAction.text : FailureAction → String
  | unset => ""
  | rollback => "rollback"
  | pause => "pause"
  | other s => s

def ValidationError.text (quote : String → String) : ValidationError → String
  | idRequired => "plan.id is required"
  | versionNotPositive => "plan.version must be > 0"
  | tableRequired => "plan.table is required"
  | tableNotIdent t => "plan.table " ++ quote t ++ " is not a valid SQL identifier"
  | columnNotIdent c => "backfill.column " ++ quote c ++ " is not a valid SQL identifier"
  | sourceExprRequired => "backfill.source_expr is required when backfill.column is set"
  | unsupportedStrategy s => "unsupported strategy " ++ quote s.text ++
      " (Phase 1 supports only " ++ quote Strategy.expandContract.text ++ ")"
  | expandEmpty =>
      "plan.expand must contain at least one statement (or specify add_columns/drop_columns)"
  | stepOutOfRange s => "canary step " ++ toString s ++ " out of range (1..100)"
  | invalidOnFailure a => "invalid on_failure " ++ quote a.text

/-! ### Generated fragments -/

/-- `add_columns` or `drop_columns` are given. -/
def MigrationPlan.declarative (p : MigrationPlan) : Prop := p.addColumns ≠ [] ∨ p.dropColumns ≠ []

instance (p : MigrationPlan) : Decidable p.declarative :=
  inferInstanceAs (Decidable (_ ∨ _))

/-- An explicit list is kept. -/
def orElse (l gen : List String) : List String := if l = [] then gen else l

/-- An explicit text is kept. -/
def orText (s gen : String) : String := if s = "" ∧ gen ≠ "" then gen else s

@[simp] theorem orText_empty (gen : String) : orText "" gen = gen := by
  unfold orText
  split_ifs with h
  · rfl
  · by_contra hne
    exact h ⟨rfl, fun hgen => hne hgen.symm⟩

/-- An explicit number is kept. -/
def orInt (n dflt : ℤ) : ℤ := if n = 0 then dflt else n

def Backfill.fill (b : Backfill) (out : Output) : Backfill where
  column := orText b.column out.backfillColumn
  batchSize := orInt b.batchSize 5000
  throttleMs := orInt b.throttleMs 20
  sourceExpr := orText b.sourceExpr out.backfillExpr
  multiSQL := orText b.multiSQL out.backfillMulti

/-- Only the empty fields are filled from the column specs. -/
def MigrationPlan.generateDDL (p : MigrationPlan) : MigrationPlan :=
  let out := generate p.table p.addColumns p.dropColumns
  { p with
    expand := orElse p.expand out.expand
    contract := orElse p.contract out.contract
    rollback := orElse p.rollback out.rollback
    backfill := p.backfill.fill out }

/-- The plan with its generated fragments. -/
def MigrationPlan.prepare (p : MigrationPlan) : MigrationPlan :=
  if p.declarative then p.generateDDL else p

/-! ### Defaults -/

def Strategy.orDefault : Strategy → Strategy
  | unset => expandContract
  | s => s

def FailureAction.orDefault : FailureAction → FailureAction
  | unset => rollback
  | a => a

def Canary.orDefault (c : Canary) : Canary :=
  if c.steps = [] then { c with steps := [1, 5, 25, 100] } else c

def Verify.orDefault (v : Verify) : Verify :=
  if v.parityThreshold.val = 0 then { v with parityThreshold := Float64.ofRat (999 / 1000) } else v

def MigrationPlan.withDefaults (p : MigrationPlan) : MigrationPlan :=
  { p with
    strategy := p.strategy.orDefault
    canary := p.canary.orDefault
    onFailure := p.onFailure.orDefault
    verify := p.verify.orDefault }

/-! ### Validation -/

/-- The canary steps are percentages. -/
def badStep (steps : List ℤ) : Option ℤ := steps.find? fun s => s ≤ 0 ∨ 100 < s

/-- The checks after the fragments have been generated; each default is set just before the check
that reads it. -/
def validatePrepared (p : MigrationPlan) : Except ValidationError MigrationPlan :=
  if p.backfill.column ≠ "" ∧ identRe p.backfill.column = false then
    .error (.columnNotIdent p.backfill.column)
  else if p.backfill.column ≠ "" ∧ p.backfill.sourceExpr = "" then .error .sourceExprRequired
  else if p.strategy.orDefault ≠ .expandContract then
    .error (.unsupportedStrategy p.strategy.orDefault)
  else if p.expand = [] ∧ p.dropColumns = [] ∧ p.addColumns = [] then .error .expandEmpty
  else match badStep p.canary.orDefault.steps with
    | some s => .error (.stepOutOfRange s)
    | none =>
      if p.onFailure.orDefault ≠ .rollback ∧ p.onFailure.orDefault ≠ .pause then
        .error (.invalidOnFailure p.onFailure.orDefault)
      else .ok p.withDefaults

/-- **`Validate`**: the plan with its fragments and defaults, or the first check that fails. -/
def validate (p : MigrationPlan) : Except ValidationError MigrationPlan :=
  if p.id = "" then .error .idRequired
  else if p.version ≤ 0 then .error .versionNotPositive
  else if p.table = "" then .error .tableRequired
  else if identRe p.table = false then .error (.tableNotIdent p.table)
  else validatePrepared p.prepare

/-! ### What is accepted -/

/-- A plan the engine runs: what `validate` establishes. -/
structure Accepted (p : MigrationPlan) : Prop where
  id : p.id ≠ ""
  version : 0 < p.version
  table : identRe p.table = true
  column : p.backfill.column ≠ "" → identRe p.backfill.column = true
  sourceExpr : p.backfill.column ≠ "" → p.backfill.sourceExpr ≠ ""
  strategy : p.strategy = .expandContract
  expand : p.expand ≠ [] ∨ p.dropColumns ≠ [] ∨ p.addColumns ≠ []
  steps_ne_nil : p.canary.steps ≠ []
  steps : ∀ s ∈ p.canary.steps, 0 < s ∧ s ≤ 100
  onFailure : p.onFailure = .rollback ∨ p.onFailure = .pause
  parityThreshold : p.verify.parityThreshold.val ≠ 0

theorem badStep_eq_none {steps : List ℤ} :
    badStep steps = none ↔ ∀ s ∈ steps, 0 < s ∧ s ≤ 100 := by
  simp [badStep, List.find?_eq_none]

theorem steps_orDefault_ne_nil (c : Canary) : c.orDefault.steps ≠ [] := by
  unfold Canary.orDefault
  split_ifs with h
  · simp
  · exact h

theorem parityThreshold_orDefault (v : Verify) : v.orDefault.parityThreshold.val ≠ 0 := by
  unfold Verify.orDefault
  split_ifs with h
  · show (Float64.ofRat (999 / 1000)).val ≠ 0
    decide +kernel
  · exact h

/-- What passes the later checks. -/
theorem validatePrepared_ok {p p' : MigrationPlan} (h : validatePrepared p = .ok p') :
    p' = p.withDefaults ∧ (p.backfill.column ≠ "" → identRe p.backfill.column = true) ∧
      (p.backfill.column ≠ "" → p.backfill.sourceExpr ≠ "") ∧
      p.strategy.orDefault = .expandContract ∧
      (p.expand ≠ [] ∨ p.dropColumns ≠ [] ∨ p.addColumns ≠ []) ∧
      (∀ s ∈ p.canary.orDefault.steps, 0 < s ∧ s ≤ 100) ∧
      (p.onFailure.orDefault = .rollback ∨ p.onFailure.orDefault = .pause) := by
  unfold validatePrepared at h
  cases hstep : badStep p.canary.orDefault.steps with
  | some s =>
    rw [hstep] at h
    split_ifs at h
  | none =>
    rw [hstep] at h
    split_ifs at h with hcol hsrc hstrat hexp hfail
    cases h
    refine ⟨rfl, fun hc => ?_, fun hc hs => hsrc ⟨hc, hs⟩, not_not.mp hstrat, ?_,
      badStep_eq_none.mp hstep, ?_⟩
    · exact (Bool.not_eq_false _).mp fun hf => hcol ⟨hc, hf⟩
    · by_cases h1 : p.expand = []
      · by_cases h2 : p.dropColumns = []
        · exact Or.inr (Or.inr fun h3 => hexp ⟨h1, h2, h3⟩)
        · exact Or.inr (Or.inl h2)
      · exact Or.inl h1
    · by_contra hc
      exact hfail ⟨fun h1 => hc (Or.inl h1), fun h2 => hc (Or.inr h2)⟩

@[simp] theorem table_prepare (p : MigrationPlan) : p.prepare.table = p.table := by
  unfold MigrationPlan.prepare; split_ifs <;> rfl

@[simp] theorem id_prepare (p : MigrationPlan) : p.prepare.id = p.id := by
  unfold MigrationPlan.prepare; split_ifs <;> rfl

@[simp] theorem version_prepare (p : MigrationPlan) : p.prepare.version = p.version := by
  unfold MigrationPlan.prepare; split_ifs <;> rfl

/-- **What `validate` returns**: the prepared plan with its defaults, which is accepted. -/
theorem validate_ok {p p' : MigrationPlan} (h : validate p = .ok p') :
    p' = p.prepare.withDefaults ∧ Accepted p' := by
  unfold validate at h
  split_ifs at h with hid hver htab hre
  obtain ⟨rfl, hcol, hsrc, hstrat, hexp, hstep, hfail⟩ := validatePrepared_ok h
  refine ⟨rfl, ?_, ?_, ?_, hcol, hsrc, hstrat, hexp, steps_orDefault_ne_nil _, hstep, hfail,
    parityThreshold_orDefault _⟩
  · simpa [MigrationPlan.withDefaults] using hid
  · simpa [MigrationPlan.withDefaults] using hver
  · simpa [MigrationPlan.withDefaults] using hre

/-- A plan together with the fact that it has been accepted: what the store keeps. -/
structure ValidPlan where
  plan : MigrationPlan
  accepted : Accepted plan

/-- Validation, with its guarantee. -/
def check (p : MigrationPlan) : Except ValidationError ValidPlan :=
  match h : validate p with
  | .error e => .error e
  | .ok p' => .ok ⟨p', (validate_ok h).2⟩

theorem check_of_validate {p : MigrationPlan} {vp : ValidPlan} (h : validate p = .ok vp.plan) :
    check p = .ok vp := by
  unfold check
  split
  · next heq =>
    rw [h] at heq
    cases heq
  · next heq =>
    rw [h] at heq
    cases heq
    rfl

/-! ### Some plans -/

/-- A plan with nothing to backfill. -/
def plainPlan : MigrationPlan :=
  { id := "plain"
    version := 1
    table := "t"
    expand := ["ALTER TABLE t ADD COLUMN b int"]
    contract := ["ALTER TABLE t DROP COLUMN a"]
    rollback := ["ALTER TABLE t DROP COLUMN b"] }

/-- A plan that backfills one column. -/
def backfillPlan : MigrationPlan :=
  { id := "backfill"
    version := 1
    table := "t"
    expand := ["ALTER TABLE t ADD COLUMN b int"]
    backfill := { column := "b", sourceExpr := "a" }
    contract := ["ALTER TABLE t DROP COLUMN a"]
    rollback := ["ALTER TABLE t DROP COLUMN b"] }

theorem validate_backfillPlan : validate backfillPlan = .ok backfillPlan.prepare.withDefaults := by
  decide +kernel

theorem accepted_backfillPlan : Accepted backfillPlan.prepare.withDefaults :=
  (validate_ok validate_backfillPlan).2

/-- A plan whose canary breaches at the first step. -/
def breachingPlan : MigrationPlan :=
  { plainPlan with slo := { maxP99LatencyMs := 50 }, chaos := { failCanaryAtStep := 1 } }

/-- A plan from column specs, two of them with an expression. -/
def twoColumnPlan : MigrationPlan :=
  { id := "two-columns"
    version := 1
    table := "t"
    addColumns :=
      [{ name := "b", type := "int", expression := "a" },
        { name := "c", type := "int", expression := "a + 1" }]
    dropColumns := ["a"] }

theorem validate_twoColumnPlan : validate twoColumnPlan = .ok twoColumnPlan.prepare.withDefaults := by
  decide +kernel

/-- A plan for a column without a name. -/
def unnamedColumnPlan : MigrationPlan :=
  { id := "unnamed", version := 1, table := "t", addColumns := [{ name := "", expression := "a" }] }

theorem validate_unnamedColumnPlan :
    validate unnamedColumnPlan = .ok unnamedColumnPlan.prepare.withDefaults := by
  decide +kernel

end MigrationSafety.Plan.Validate
