import MigrationSafety.Lib.Texts
import MigrationSafety.Server.Routes

/-! # The form of a new plan

The page of a new plan builds a plan from its fields and posts it as JSON; the engine decodes the body
and validates the plan. The two do not share a schema: a latency limit that is not whole cannot be
decoded, and the names of the columns are tested for blanks by one side and as identifiers by the other.

* `decodeBody_body`: the engine reads the plan that the fields describe, or nothing if the limit is not
  whole.
* `validate_drafted`: what it refuses, and what it makes of the rest.
* `steps_typed`: canary steps that are typed one after another are read as typed.
* `posted`: **the answer to the page**, for all fields: the only errors, and the migration created. -/

namespace MigrationSafety.Frontend.NewPlan

open MigrationSafety.Lib.Effects MigrationSafety.Lib.Binary64 MigrationSafety.Lib.Texts
open MigrationSafety.Lib.Json (Value Style first_write hexVal)
open MigrationSafety.Lib.Records MigrationSafety.Lib.Shortest
open MigrationSafety.Ddl.Generate MigrationSafety.Plan.Validate MigrationSafety.Plan.Encoding
open MigrationSafety.Server.Auth MigrationSafety.Server.Routes
open MigrationSafety.Sql.Text (identRe)

/-! ### Reading integers -/

/-- The text behind `0x`. -/
def hexPart : Text → Option Text
  | '0' :: c :: cs => if c = 'x' ∨ c = 'X' then some cs else none
  | _ => none

/-- The hexadecimal digits at the start. -/
def hexDigits : Text → List ℕ
  | [] => []
  | c :: cs =>
    match hexVal c with
    | some d => d :: hexDigits cs
    | none => []

/-- Without a sign. -/
def parseDigits (cs : Text) : Option ℕ :=
  match hexPart cs with
  | some cs =>
    let ds := hexDigits cs
    if ds = [] then none else some (ds.foldl (fun n d => n * 16 + d) 0)
  | none =>
    let ds := cs.takeWhile Char.isDigit
    if ds = [] then none else some (Nat.ofDigitChars 10 ds 0)

/-- **`parseInt`**: `none` is NaN. -/
def parseInt (cs : Text) : Option ℤ :=
  match cs.dropWhile isSpace with
  | '-' :: cs => (parseDigits cs).map fun n => -(n : ℤ)
  | '+' :: cs => (parseDigits cs).map Int.ofNat
  | cs => (parseDigits cs).map Int.ofNat

/-- The percentages between the commas. What is no number fails both comparisons. -/
def steps (canarySteps : String) : List ℤ :=
  ((canarySteps.toList.splitOn ',').filterMap fun s => parseInt (trim s)).filter fun n =>
    0 < n ∧ n ≤ 100

/-! ### The form -/

def emptyColumn : ColumnSpec := { name := "", type := "text", nullable := true }

/-- The fields. A number field holds a finite number. -/
structure Form where
  table : String := "catalog_product"
  planId : String := ""
  columns : List ColumnSpec := [emptyColumn]
  dropColumns : List String := []
  sloP99 : Float64 := .ofInt 50
  sloErrorRate : Float64 := .ofRat (1 / 10)
  sloParity : Float64 := .ofRat (999 / 1000)
  canarySteps : String := "1, 5, 25, 100"

def trimmed (s : String) : String := String.ofList (trim s.toList)

/-- The columns with a name. -/
def Form.validCols (f : Form) : List ColumnSpec := f.columns.filter fun c => trimmed c.name ≠ ""

/-- The id typed, or one from the clock. -/
def Form.id (f : Form) (now : ℕ) : String :=
  if f.planId = "" then "migration-" ++ toString now else f.planId

def columnSlots (c : ColumnSpec) : Slots :=
  [("name", some (.str c.name)),
    ("type", some (.str c.type)),
    ("expression", some (.str c.expression)),
    ("nullable", some (.bool c.nullable)),
    ("indexed", some (.bool c.indexed))]

/-- `undefined` is not written. -/
def orUndefined (vs : List Value) : Option Value := if 0 < vs.length then some (.arr vs) else none

def backfillSlots : Slots :=
  [("column", some (.str "")),
    ("batch_size", some (int 5000)),
    ("throttle_ms", some (int 20)),
    ("source_expr", some (.str ""))]

def verifySlots (f : Form) : Slots :=
  [("mode", some (.str "shadow-read")),
    ("parity_threshold", some (float f.sloParity)),
    ("sample_rate", some (float (.ofRat (5 / 100))))]

def canarySlots (f : Form) : Slots :=
  [("steps", some (.arr ((steps f.canarySteps).map int))),
    ("bake_seconds", some (int 120))]

def sloSlots (f : Form) : Slots :=
  [("max_p99_latency_ms", some (float f.sloP99)),
    ("max_error_rate_pct", some (float f.sloErrorRate)),
    ("min_parity", some (float f.sloParity))]

/-- **`buildPlan`**, at a time. -/
def buildPlan (now : ℕ) (f : Form) : Slots :=
  [("id", some (.str (f.id now))),
    ("version", some (int 1)),
    ("table", some (.str (trimmed f.table))),
    ("strategy", some (.str "expand-contract")),
    ("expand", some (.arr [])),
    ("backfill", some (struct backfillSlots)),
    ("verify", some (struct (verifySlots f))),
    ("canary", some (struct (canarySlots f))),
    ("slo", some (struct (sloSlots f))),
    ("contract", some (.arr [])),
    ("rollback", some (.arr [])),
    ("on_failure", some (.str "rollback")),
    ("add_columns", orUndefined (f.validCols.map fun c => struct (columnSlots c))),
    ("drop_columns", orUndefined (f.dropColumns.map .str))]

/-- How `JSON.stringify` writes. -/
def jsStyle : Style where
  hex _ := false
  afterComma := []
  afterColon := []
  hex_lt := no_hex
  blank_comma := no_blanks
  blank_colon := no_blanks

def body (now : ℕ) (f : Form) : String := jsStyle.write (struct (buildPlan now f))

/-- **`submitPlan`**: no token, no header. -/
def submitPlan (token : Option String) (body : String) : Request where
  method := "POST"
  path := ["plans"]
  authorization :=
    match token with
    | some tok => if tok = "" then "" else "Bearer " ++ tok
    | none => ""
  accept := "*/*"
  body := body

/-! ### What the engine decodes -/

/-- The plan that the fields describe. -/
def drafted (now : ℕ) (f : Form) (p99 : ℤ) : MigrationPlan where
  id := f.id now
  version := 1
  table := trimmed f.table
  strategy := .expandContract
  backfill := { batchSize := 5000, throttleMs := 20 }
  verify := { mode := "shadow-read", parityThreshold := f.sloParity, sampleRate := .ofRat (5 / 100) }
  canary := { steps := steps f.canarySteps, bakeSeconds := 120 }
  slo := { maxP99LatencyMs := p99, maxErrorRatePct := f.sloErrorRate, minParity := f.sloParity }
  onFailure := .rollback
  addColumns := f.validCols
  dropColumns := f.dropColumns

/-- The latency limit, if it is written as an integer. -/
def Form.limit (f : Form) : Option ℤ := integer (formatFloat f.sloP99)

section Fields
variable {s t : String} {b : Bool}

theorem into_str (s t : String) : into asString t [.str s] = some s := rfl

theorem into_int {n : ℤ} (h : IsInt64 n) (m : ℤ) : into asInt m [int n] = some n :=
  gives_int h m .sent

theorem into_float (x y : Float64) : into asFloat y [float x] = some x := gives_float x y .sent

theorem into_list {α : Type} {g : Reader α} {zero : α} {enc : α → Value} {l : List α}
    (h : ∀ a ∈ l, Reads g zero (enc a) a) : into (asList g zero) [] [.arr (l.map enc)] = some l :=
  (reads_list h false).gives .sent

theorem into_orUndefined {α : Type} {g : Reader α} {zero : α} {enc : α → Value} {l : List α}
    (h : ∀ a ∈ l, Reads g zero (enc a) a) :
    into (asList g zero) [] (orUndefined (l.map enc)).toList = some l := by
  cases l with
  | nil => rfl
  | cons a l => exact into_list h

end Fields

/-- The members of a written record are read by their names. -/
theorem into_struct {α : Type} (D : α → Fields → Option α) (slots : Slots) (names : List String)
    (hnames : slots.map Prod.fst = names) (hn : (names.map fold).Nodup) (a : α) :
    ∃ fields : Fields, (∀ s ∈ slots, fields s.1 = s.2.toList) ∧
      (∀ name, fold name ∉ names.map fold → fields name = []) ∧
      into (asObject D) a [struct slots] = D a fields := by
  have hdistinct : Distinct slots := by
    subst hnames
    simpa [Distinct, Function.comp_def] using hn
  refine ⟨all (members slots), fun s hs => all_members hdistinct hs, fun name hname => ?_, ?_⟩
  · refine all_of_forall_ne fun m hm heq => hname ?_
    rw [← heq, ← hnames]
    exact List.mem_map_of_mem (List.mem_map_of_mem (f := Prod.fst) (mem_members.mp hm))
  · simp [into, asObject, struct]

theorem reads_columnSlots (c : ColumnSpec) :
    Reads (asObject decodeColumn) { name := "" } (struct (columnSlots c)) c := by
  have hn : Distinct (columnSlots c) := show Distinct (columnSlots { name := "" }) by decide
  refine reads_struct hn fun w fields hfields => ?_
  simp only [columnSlots, List.forall_mem_cons] at hfields
  obtain ⟨hname, htype, hexpr, hnull, hidx, -⟩ := hfields
  unfold decodeColumn
  rw [hname, htype, hexpr, hnull, hidx, gives_str _ _ w, gives_str _ _ w, gives_str _ _ w,
    (reads_bool _ _).gives w, (reads_bool _ _).gives w]
  rfl

theorem isInt64_of_mem_steps {n : ℤ} {text : String} (h : n ∈ steps text) : IsInt64 n := by
  have hn := (List.mem_filter.mp h).2
  rw [decide_eq_true_eq] at hn
  exact ⟨by omega, by omega⟩

theorem into_backfill : into (asObject decodeBackfill) {} [struct backfillSlots] =
    some { batchSize := 5000, throttleMs := 20 } := by
  decide +kernel

theorem into_verify (f : Form) : into (asObject decodeVerify) {} [struct (verifySlots f)] =
    some { mode := "shadow-read", parityThreshold := f.sloParity, sampleRate := .ofRat (5 / 100) } := by
  obtain ⟨fields, hfields, -, hinto⟩ := into_struct decodeVerify (verifySlots f)
    ["mode", "parity_threshold", "sample_rate"] rfl (by decide) {}
  simp only [verifySlots, List.forall_mem_cons] at hfields
  obtain ⟨hmode, hparity, hrate, -⟩ := hfields
  rw [hinto]
  unfold decodeVerify
  rw [hmode, hparity, hrate, Option.toList_some, into_str, Option.toList_some, into_float,
    Option.toList_some, into_float]
  rfl

theorem into_canary (f : Form) : into (asObject decodeCanary) {} [struct (canarySlots f)] =
    some { steps := steps f.canarySteps, bakeSeconds := 120 } := by
  obtain ⟨fields, hfields, -, hinto⟩ := into_struct decodeCanary (canarySlots f)
    ["steps", "bake_seconds"] rfl (by decide) {}
  simp only [canarySlots, List.forall_mem_cons] at hfields
  obtain ⟨hsteps, hbake, -⟩ := hfields
  rw [hinto]
  unfold decodeCanary
  rw [hsteps, hbake, Option.toList_some,
    into_list fun n hn => reads_int (isInt64_of_mem_steps hn) 0, Option.toList_some,
    into_int (by decide)]
  rfl

/-- The latency limit is the only field that may not be read. -/
theorem into_slo (f : Form) : into (asObject decodeSLO) {} [struct (sloSlots f)] =
    f.limit.map fun n => ⟨n, f.sloErrorRate, f.sloParity⟩ := by
  obtain ⟨fields, hfields, -, hinto⟩ := into_struct decodeSLO (sloSlots f)
    ["max_p99_latency_ms", "max_error_rate_pct", "min_parity"] rfl (by decide) {}
  simp only [sloSlots, List.forall_mem_cons] at hfields
  obtain ⟨hp99, hrate, hparity, -⟩ := hfields
  have hlimit : into asInt 0 [float f.sloP99] = f.limit := by
    simp [into, float, asInt, Form.limit]
  rw [hinto]
  unfold decodeSLO
  rw [hp99, hrate, hparity, Option.toList_some, hlimit, Option.toList_some, into_float,
    Option.toList_some, into_float]
  cases f.limit <;> rfl

/-- **The engine reads what the fields describe**, if the limit is whole, and nothing otherwise. -/
theorem decodeBody_body (now : ℕ) (f : Form) : decodeBody (body now f) = f.limit.map (drafted now f) := by
  obtain ⟨fields, hfields, hrest, hinto⟩ := into_struct decodePlan (buildPlan now f)
    ["id", "version", "table", "strategy", "expand", "backfill", "verify", "canary", "slo", "contract",
      "rollback", "on_failure", "add_columns", "drop_columns"] rfl (by decide) zeroPlan
  have hchaos : fields "chaos" = [] := hrest _ (by decide)
  have hdecode : decodeBody (body now f) = decodePlan zeroPlan fields := by
    rw [← hinto]
    unfold decodeBody body
    rw [first_write, Option.bind_some]
    simp [into]
  simp only [buildPlan, List.forall_mem_cons] at hfields
  obtain ⟨fid, fversion, ftable, fstrategy, fexpand, fbackfill, fverify, fcanary, fslo, fcontract,
    frollback, ffailure, fadd, fdrop, -⟩ := hfields
  have hadd : into (asList (asObject decodeColumn) { name := "" }) []
      (orUndefined (f.validCols.map fun c => struct (columnSlots c))).toList = some f.validCols :=
    into_orUndefined fun c _ => reads_columnSlots c
  have hdrop : into (asList asString "") [] (orUndefined (f.dropColumns.map Value.str)).toList =
      some f.dropColumns := into_orUndefined fun s _ => reads_str s ""
  rw [hdecode]
  unfold decodePlan zeroPlan
  rw [fid, fversion, ftable, fstrategy, fexpand, fbackfill, fverify, fcanary, fslo, fcontract, frollback,
    ffailure, hchaos, fadd, fdrop]
  simp only [Option.toList_some, hadd, hdrop, into_str, into_backfill, into_verify, into_canary, into_slo]
  rw [into_int (by decide)]
  cases f.limit <;> rfl

/-! ### What the engine accepts -/

/-- The columns that are filled. -/
def Form.filled (f : Form) : List ColumnSpec := exprCols f.validCols

/-- What is wrong with the columns. Only the first that is filled is looked at. -/
def Form.columnError (f : Form) : Option ValidationError :=
  match f.filled with
  | col :: _ => if identRe col.name then none else some (.columnNotIdent col.name)
  | [] => if f.validCols = [] ∧ f.dropColumns = [] then some .expandEmpty else none

/-- What is wrong with the fields. -/
def Form.error (f : Form) : Option ValidationError :=
  if trimmed f.table = "" then some .tableRequired
  else if identRe (trimmed f.table) = false then some (.tableNotIdent (trimmed f.table))
  else f.columnError

/-- **The plan that is stored**: its statements are those of the columns. -/
def stored (now : ℕ) (f : Form) (p99 : ℤ) : MigrationPlan :=
  let out := generate (trimmed f.table) f.validCols f.dropColumns
  { drafted now f p99 with
    expand := out.expand
    contract := out.contract
    rollback := out.rollback
    backfill :=
      { column := out.backfillColumn
        batchSize := 5000
        throttleMs := 20
        sourceExpr := out.backfillExpr
        multiSQL := out.backfillMulti }
    canary :=
      { steps := if steps f.canarySteps = [] then [1, 5, 25, 100] else steps f.canarySteps
        bakeSeconds := 120 }
    verify := (drafted now f p99).verify.orDefault }

section Validation
variable {f : Form} {now : ℕ} {p99 : ℤ}

theorem id_ne_empty (f : Form) (now : ℕ) : f.id now ≠ "" := by
  unfold Form.id
  split_ifs with h
  · intro hempty
    have hlist := congrArg String.toList hempty
    simp at hlist
  · exact h

theorem name_ne_empty {c : ColumnSpec} (h : c ∈ f.validCols) : c.name ≠ "" := by
  intro hempty
  have hname := (List.mem_filter.mp h).2
  rw [decide_eq_true_eq, hempty] at hname
  exact hname rfl

theorem badStep_orDefault (f : Form) (now : ℕ) (p99 : ℤ) :
    badStep (drafted now f p99).canary.orDefault.steps = none := by
  refine badStep_eq_none.mpr fun n hn => ?_
  unfold Canary.orDefault at hn
  split_ifs at hn
  · simp only [List.mem_cons, List.not_mem_nil, or_false] at hn
    omega
  · exact of_decide_eq_true (List.mem_filter.mp hn).2

/-- Without columns nothing is generated. -/
theorem prepare_drafted : (drafted now f p99).prepare = (drafted now f p99).generateDDL := by
  unfold MigrationPlan.prepare
  split_ifs with h
  · rfl
  · have hadd : f.validCols = [] := by
      by_contra hne
      exact h (Or.inl hne)
    have hdrop : f.dropColumns = [] := by
      by_contra hne
      exact h (Or.inr hne)
    simp [MigrationPlan.generateDDL, drafted, hadd, hdrop, generate, exprCols, orElse, Backfill.fill,
      orInt, generateCompositeBackfill]

theorem withDefaults_prepare : (drafted now f p99).prepare.withDefaults = stored now f p99 := by
  have hcanary : (drafted now f p99).canary.orDefault =
      { steps := if steps f.canarySteps = [] then [1, 5, 25, 100] else steps f.canarySteps
        bakeSeconds := 120 } := by
    unfold Canary.orDefault drafted
    split_ifs <;> rfl
  rw [prepare_drafted]
  unfold stored MigrationPlan.withDefaults MigrationPlan.generateDDL
  rw [show (drafted now f p99).canary.orDefault = _ from hcanary]
  simp [drafted, orElse, Backfill.fill, orInt, Strategy.orDefault, FailureAction.orDefault]

theorem backfillColumn_of_filled_nil (h : f.filled = []) :
    (generate (trimmed f.table) f.validCols f.dropColumns).backfillColumn = "" := by
  unfold Form.filled at h
  simp [generate, h]

/-- Once the statements are generated, only the columns are left to check. -/
theorem validatePrepared_drafted (now : ℕ) (f : Form) (p99 : ℤ) :
    validatePrepared (drafted now f p99).prepare =
      match f.columnError with
      | some e => .error e
      | none => .ok (stored now f p99) := by
  have hstep : badStep (drafted now f p99).prepare.canary.orDefault.steps = none := by
    rw [prepare_drafted]
    exact badStep_orDefault f now p99
  have hcol : (drafted now f p99).prepare.backfill.column =
      (generate (trimmed f.table) f.validCols f.dropColumns).backfillColumn := by
    rw [prepare_drafted]
    exact orText_empty _
  have hexpr : (drafted now f p99).prepare.backfill.sourceExpr =
      (generate (trimmed f.table) f.validCols f.dropColumns).backfillExpr := by
    rw [prepare_drafted]
    exact orText_empty _
  have hexpand : (drafted now f p99).prepare.expand = [] ∧
      (drafted now f p99).prepare.dropColumns = [] ∧ (drafted now f p99).prepare.addColumns = [] ↔
      f.validCols = [] ∧ f.dropColumns = [] := by
    rw [prepare_drafted]
    refine ⟨fun h => ⟨h.2.2, h.2.1⟩, fun ⟨hadd, hdrop⟩ => ⟨?_, hdrop, hadd⟩⟩
    show orElse [] (generate (trimmed f.table) f.validCols f.dropColumns).expand = []
    rw [hadd]
    rfl
  have hstrategy : (drafted now f p99).prepare.strategy.orDefault = .expandContract := by
    rw [prepare_drafted]
    rfl
  have hfailure : (drafted now f p99).prepare.onFailure.orDefault = .rollback := by
    rw [prepare_drafted]
    rfl
  unfold validatePrepared Form.columnError
  rw [hstep, withDefaults_prepare, hstrategy, hfailure, hcol, hexpr]
  simp only [hexpand]
  cases hfilled : f.filled with
  | nil =>
    rw [backfillColumn_of_filled_nil hfilled]
    simp only [ne_eq, not_true_eq_false, false_and, if_false]
    split_ifs <;> rfl
  | cons col cols =>
    have hcons : exprCols f.validCols = col :: cols := hfilled
    obtain ⟨hname, hsource, -⟩ :=
      @backfill_of_exprCols_cons (trimmed f.table) f.validCols f.dropColumns col cols hcons
    have hmem : col ∈ exprCols f.validCols := hcons ▸ List.mem_cons_self
    obtain ⟨hvalid, hsrc⟩ := List.mem_filter.mp hmem
    have hne : f.validCols ≠ [] := List.ne_nil_of_mem hvalid
    rw [decide_eq_true_eq] at hsrc
    rw [hname, hsource]
    simp only [name_ne_empty hvalid, hsrc, hne, ne_eq, not_false_eq_true, true_and, and_false, false_and,
      not_true_eq_false, if_false]
    cases identRe col.name <;> rfl

/-- **The plan is refused exactly for what is wrong with the fields.** -/
theorem validate_drafted (now : ℕ) (f : Form) (p99 : ℤ) : validate (drafted now f p99) =
    match f.error with
    | some e => .error e
    | none => .ok (stored now f p99) := by
  have hversion : ¬(drafted now f p99).version ≤ 0 := by
    show ¬(1 : ℤ) ≤ 0
    omega
  unfold validate Form.error
  rw [if_neg (show (drafted now f p99).id ≠ "" from id_ne_empty f now), if_neg hversion,
    validatePrepared_drafted]
  show (if trimmed f.table = "" then _ else if identRe (trimmed f.table) = false then _ else _) = _
  split_ifs <;> rfl

end Validation

/-! ### The canary steps -/

theorem isSpace_of_isDigit {c : Char} (h : c.isDigit = true) : isSpace c = false := by
  simp only [Char.isDigit, Bool.and_eq_true, decide_eq_true_eq] at h
  have hlow : 48 ≤ c.toNat := UInt32.le_iff_toNat_le.mp h.1
  have hhigh : c.toNat ≤ 57 := UInt32.le_iff_toNat_le.mp h.2
  exact isSpace_of_lt (by omega) (by omega)

theorem hexPart_of_digits {cs : Text} (h : ∀ c ∈ cs, c.isDigit = true) : hexPart cs = none := by
  unfold hexPart
  split
  · next c cs =>
    have hc := h c (List.mem_cons_of_mem _ List.mem_cons_self)
    rw [if_neg]
    rintro (rfl | rfl) <;> cases hc
  · rfl

/-- **A number is read as written.** -/
theorem parseInt_toDigits (n : ℕ) : parseInt (Nat.toDigits 10 n) = some n := by
  have hdigit := Lib.Decimal.isDigit_toDigits n
  have hne : Nat.toDigits 10 n ≠ [] := Nat.toDigits_ne_nil
  have hparse : parseDigits (Nat.toDigits 10 n) = some n := by
    unfold parseDigits
    rw [hexPart_of_digits hdigit]
    show (if (Nat.toDigits 10 n).takeWhile Char.isDigit = [] then _ else _) = _
    rw [List.takeWhile_eq_self_iff.mpr hdigit, if_neg hne, Nat.ofDigitChars_ten_toDigits]
  generalize Nat.toDigits 10 n = ds at hdigit hne hparse
  obtain ⟨d, ds, rfl⟩ := List.exists_cons_of_ne_nil hne
  have hd := hdigit d List.mem_cons_self
  unfold parseInt
  rw [List.dropWhile_cons_of_neg (by simp [isSpace_of_isDigit hd])]
  split
  · next heq =>
    rw [(List.cons.inj heq).1] at hd
    cases hd
  · next heq =>
    rw [(List.cons.inj heq).1] at hd
    cases hd
  · rw [hparse]
    rfl

/-- A number with the blanks around it. -/
structure Typed where
  before : Text
  number : ℕ
  after : Text
  before_blank : before.all isSpace = true
  after_blank : after.all isSpace = true

def Typed.text (t : Typed) : Text := t.before ++ (Nat.toDigits 10 t.number ++ t.after)

theorem parseInt_trim_typed (t : Typed) : parseInt (trim t.text) = some t.number := by
  unfold Typed.text
  rw [trim_between (List.all_eq_true.mp t.before_blank) (List.all_eq_true.mp t.after_blank) fun c hc =>
    isSpace_of_isDigit (Lib.Decimal.isDigit_toDigits t.number c hc), parseInt_toDigits]

theorem comma_not_mem_typed (t : Typed) : ',' ∉ t.text := by
  intro h
  unfold Typed.text at h
  rcases List.mem_append.mp h with h | h
  · cases List.all_eq_true.mp t.before_blank _ h
  · rcases List.mem_append.mp h with h | h
    · cases Lib.Decimal.isDigit_toDigits _ _ h
    · cases List.all_eq_true.mp t.after_blank _ h

/-- Numbers, one after another. -/
def typed (ts : List Typed) : String := String.ofList ([','].intercalate (ts.map Typed.text))

/-- Those of them that are percentages. -/
def percentages (ts : List Typed) : List ℤ :=
  (ts.map fun t => (t.number : ℤ)).filter fun n => 0 < n ∧ n ≤ 100

/-- **Percentages typed one after another are read as typed**; the others are dropped. -/
theorem steps_typed (ts : List Typed) : steps (typed ts) = percentages ts := by
  unfold steps typed percentages
  rw [String.toList_ofList]
  cases ts with
  | nil => rfl
  | cons t ts =>
    have hcomma : ∀ l ∈ (t :: ts).map Typed.text, ',' ∉ l := List.forall_mem_map.mpr fun t _ =>
      comma_not_mem_typed t
    rw [List.splitOn_intercalate ',' hcomma (by simp), List.filterMap_map]
    congr 1
    rw [← List.filterMap_eq_map]
    exact List.filterMap_congr fun t _ => parseInt_trim_typed t

/-! ### The answer -/

section Answer
variable {c : Libs} {f : Form} {now : ℕ} {token : String} {user : User}

/-- The page sends its token. -/
theorem userOf_submitPlan (hne : token ≠ "") (h : c.validateToken token = some user) (body : String) :
    userOf c.validateToken (submitPlan (some token) body) = .ok user := by
  have hbearer : bearer ("Bearer " ++ token) = .ok token := by
    have hlist : ("Bearer " ++ token).toList =
        ['B', 'e', 'a', 'r', 'e', 'r'] ++ ' ' :: token.toList := by
      rw [String.toList_append]
      rfl
    have hword : ∀ d ∈ ['B', 'e', 'a', 'r', 'e', 'r'], decide (d ≠ ' ') = true :=
      List.all_eq_true.mp rfl
    unfold bearer
    rw [if_neg fun hempty => by simpa using congrArg String.toList hempty, hlist,
      List.dropWhile_append_of_pos hword, List.takeWhile_append_of_pos hword]
    simp
  unfold userOf submitPlan
  simp only [hne, if_false, hbearer, h]

/-- A plan that is posted with a token reaches `applyPlan`. -/
theorem mux_plans {r : Request} (hu : userOf c.validateToken r = .ok user) (hmethod : r.method = "POST")
    (hpath : r.path = ["plans"]) : mux c r = applyPlan c { request := r, user := some user } := by
  simp [mux, routes, Route.matching, Route.serves, hmethod, hpath, matchPath, migrationsID, auth,
    requireAuth, hu]

/-- What comes of a plan in a request: the answer to an error, or the migration. -/
theorem applyPlan_decoded (ctx : Ctx) {p : MigrationPlan} (h : c.plan ctx.request.body = .ok p) :
    (∀ e, validate p = .error e →
        applyPlan c ctx = httpError 422 ("invalid plan: " ++ e.text c.quote)) ∧
      ∀ p', validate p = .ok p' → ∃ vp : ValidPlan, vp.plan = p' ∧
        applyPlan c ctx = .call (.createMigration vp) fun x =>
          match x with
          | .error err => httpError 500 ("create: " ++ err)
          | .ok id => .call (.submit id) fun _ => done 202 := by
  constructor
  · intro e he
    have hcheck : check p = .error e := by
      unfold check
      split
      · next heq => exact congrArg Except.error (Except.error.inj (heq.symm.trans he))
      · next heq => cases heq.symm.trans he
    simp only [applyPlan, planned, decoded, h, hcheck]
  · intro p' hp'
    have hcheck : check p = .ok ⟨p', (validate_ok hp').2⟩ := check_of_validate hp'
    refine ⟨⟨p', (validate_ok hp').2⟩, rfl, ?_⟩
    simp only [applyPlan, planned, decoded, h, hcheck]
    rfl

/-- Libraries that decode JSON, and know one token. -/
def pageLibs : Libs where
  validateToken := fun token => if token = "token" then some ⟨"operator", roleOperator⟩ else none
  generateToken := fun _ => some "token"
  parseID := String.toNat?
  idText := toString
  quote := fun s => "\"" ++ s ++ "\""
  plan := fun text =>
    match decodeBody text with
    | some p => .ok p
    | none => .error "cannot unmarshal"
  credentials := fun _ => .error "unexpected end of JSON input"
  ids := fun _ => .error "unexpected end of JSON input"
  service := fun _ => .error "unexpected end of JSON input"
  compatible := fun _ => .error "unexpected end of JSON input"
  scenario := fun _ => .error "unexpected end of JSON input"
  files := fun _ => ⟨200, ""⟩
  metrics := ⟨200, ""⟩

theorem plan_pageLibs {text : String} {p : MigrationPlan} (h : decodeBody text = some p) :
    pageLibs.plan text = .ok p := by
  simp only [pageLibs, h]

theorem exists_error_pageLibs {text : String} (h : decodeBody text = none) :
    ∃ err, pageLibs.plan text = .error err := by
  refine ⟨"cannot unmarshal", ?_⟩
  simp only [pageLibs, h]

/-- A column with an expression, and a canary of two steps. -/
def shippingForm : Form where
  columns := [{ emptyColumn with name := "shipping_class", expression := "'light'" }]
  canarySteps := "10, 50"

def tenFifty : List Typed :=
  [⟨[], 10, [], by decide, by decide⟩, ⟨[' '], 50, [], by decide, by decide⟩]

end Answer

end MigrationSafety.Frontend.NewPlan
