import MigrationSafety.Plan.Idempotence

/-! # The plan as JSON

`mgctl` sends a validated plan as JSON; the engine decodes it, validates it again and stores it, as
JSON again, in a `jsonb` column, from which every later step loads it. Nothing is lost on the way
(`decode_marshal`): not the fields that `omitempty` leaves out, and not what the column rewrites.

A nil slice and an empty one are the same list; which of the two an empty list is shows in its JSON
(`Nils`). -/

namespace MigrationSafety.Plan.Encoding

open MigrationSafety.Ddl.Generate MigrationSafety.Plan.Validate MigrationSafety.Plan.Idempotence
open MigrationSafety.Lib.Json MigrationSafety.Lib.Records

/-! ### Encoding -/

/-- The JSON of a field that is left out when it is empty. -/
def omitEmpty (s : String) : Option Value := if s = "" then none else some (.str s)

def omitFalse (b : Bool) : Option Value := if b = false then none else some (.bool b)

def omitNil {α : Type} (enc : α → Value) (l : List α) : Option Value :=
  if l.isEmpty = true then none else some (list false (l.map enc))

def ColumnSpec.slots (col : ColumnSpec) : Slots :=
  [("name", some (.str col.name)),
    ("type", some (.str col.type)),
    ("expression", omitEmpty col.expression),
    ("nullable", omitFalse col.nullable),
    ("indexed", omitFalse col.indexed)]

def Backfill.slots (b : Backfill) : Slots :=
  [("column", some (.str b.column)),
    ("batch_size", some (int b.batchSize)),
    ("throttle_ms", some (int b.throttleMs)),
    ("source_expr", some (.str b.sourceExpr)),
    ("multi_sql", omitEmpty b.multiSQL)]

def Verify.slots (v : Verify) : Slots :=
  [("mode", some (.str v.mode)),
    ("parity_threshold", some (float v.parityThreshold)),
    ("sample_rate", some (float v.sampleRate))]

/-- Which lists are nil, if they are empty. -/
structure Nils where
  expand : Bool := false
  contract : Bool := false
  rollback : Bool := false
  steps : Bool := false

def Canary.slots (nils : Nils) (c : Canary) : Slots :=
  [("steps", some (list nils.steps (c.steps.map int))),
    ("bake_seconds", some (int c.bakeSeconds))]

def SLO.slots (s : SLO) : Slots :=
  [("max_p99_latency_ms", some (int s.maxP99LatencyMs)),
    ("max_error_rate_pct", some (float s.maxErrorRatePct)),
    ("min_parity", some (float s.minParity))]

def Chaos.slots (c : Chaos) : Slots :=
  [("fail_canary_at_step", some (int c.failCanaryAtStep))]

def MigrationPlan.slots (nils : Nils) (p : MigrationPlan) : Slots :=
  [("id", some (.str p.id)),
    ("version", some (int p.version)),
    ("table", some (.str p.table)),
    ("strategy", some (.str p.strategy.text)),
    ("expand", some (list nils.expand (p.expand.map .str))),
    ("backfill", some (struct (Backfill.slots p.backfill))),
    ("verify", some (struct (Verify.slots p.verify))),
    ("canary", some (struct (Canary.slots nils p.canary))),
    ("slo", some (struct (SLO.slots p.slo))),
    ("contract", some (list nils.contract (p.contract.map .str))),
    ("rollback", some (list nils.rollback (p.rollback.map .str))),
    ("on_failure", some (.str p.onFailure.text)),
    ("chaos", some (struct (Chaos.slots p.chaos))),
    ("add_columns", omitNil (fun col => struct (ColumnSpec.slots col)) p.addColumns),
    ("drop_columns", omitNil .str p.dropColumns)]

/-- **`json.Marshal` of a plan.** -/
def marshal (nils : Nils) (p : MigrationPlan) : String :=
  goStyle.write (struct (MigrationPlan.slots nils p))

/-! ### Decoding -/

def Strategy.ofText (s : String) : Strategy :=
  if s = "" then .unset else if s = "expand-contract" then .expandContract else .other s

def FailureAction.ofText (s : String) : FailureAction :=
  if s = "" then .unset else if s = "rollback" then .rollback else if s = "pause" then .pause
  else .other s

def asStrategy : Reader Strategy := fun s v => (asString s.text v).map Strategy.ofText

def asFailureAction : Reader FailureAction := fun a v => (asString a.text v).map FailureAction.ofText

def decodeColumn (col : ColumnSpec) (fields : Fields) : Option ColumnSpec := do
  let name ← into asString col.name (fields "name")
  let type ← into asString col.type (fields "type")
  let expression ← into asString col.expression (fields "expression")
  let nullable ← into asBool col.nullable (fields "nullable")
  let indexed ← into asBool col.indexed (fields "indexed")
  some { name, type, expression, nullable, indexed }

def decodeBackfill (b : Backfill) (fields : Fields) : Option Backfill := do
  let column ← into asString b.column (fields "column")
  let batchSize ← into asInt b.batchSize (fields "batch_size")
  let throttleMs ← into asInt b.throttleMs (fields "throttle_ms")
  let sourceExpr ← into asString b.sourceExpr (fields "source_expr")
  let multiSQL ← into asString b.multiSQL (fields "multi_sql")
  some { column, batchSize, throttleMs, sourceExpr, multiSQL }

def decodeVerify (v : Verify) (fields : Fields) : Option Verify := do
  let mode ← into asString v.mode (fields "mode")
  let parityThreshold ← into asFloat v.parityThreshold (fields "parity_threshold")
  let sampleRate ← into asFloat v.sampleRate (fields "sample_rate")
  some { mode, parityThreshold, sampleRate }

def decodeCanary (c : Canary) (fields : Fields) : Option Canary := do
  let steps ← into (asList asInt 0) c.steps (fields "steps")
  let bakeSeconds ← into asInt c.bakeSeconds (fields "bake_seconds")
  some { steps, bakeSeconds }

def decodeSLO (s : SLO) (fields : Fields) : Option SLO := do
  let maxP99LatencyMs ← into asInt s.maxP99LatencyMs (fields "max_p99_latency_ms")
  let maxErrorRatePct ← into asFloat s.maxErrorRatePct (fields "max_error_rate_pct")
  let minParity ← into asFloat s.minParity (fields "min_parity")
  some { maxP99LatencyMs, maxErrorRatePct, minParity }

def decodeChaos (c : Chaos) (fields : Fields) : Option Chaos := do
  let failCanaryAtStep ← into asInt c.failCanaryAtStep (fields "fail_canary_at_step")
  some { failCanaryAtStep }

def decodePlan (p : MigrationPlan) (fields : Fields) : Option MigrationPlan := do
  let id ← into asString p.id (fields "id")
  let version ← into asInt p.version (fields "version")
  let table ← into asString p.table (fields "table")
  let strategy ← into asStrategy p.strategy (fields "strategy")
  let expand ← into (asList asString "") p.expand (fields "expand")
  let backfill ← into (asObject decodeBackfill) p.backfill (fields "backfill")
  let verify ← into (asObject decodeVerify) p.verify (fields "verify")
  let canary ← into (asObject decodeCanary) p.canary (fields "canary")
  let slo ← into (asObject decodeSLO) p.slo (fields "slo")
  let contract ← into (asList asString "") p.contract (fields "contract")
  let rollback ← into (asList asString "") p.rollback (fields "rollback")
  let onFailure ← into asFailureAction p.onFailure (fields "on_failure")
  let chaos ← into (asObject decodeChaos) p.chaos (fields "chaos")
  let addColumns ← into (asList (asObject decodeColumn) { name := "" }) p.addColumns
    (fields "add_columns")
  let dropColumns ← into (asList asString "") p.dropColumns (fields "drop_columns")
  some { id, version, table, strategy, expand, backfill, verify, canary, slo, contract, rollback,
         onFailure, chaos, addColumns, dropColumns }

/-- `var p plan.MigrationPlan`. -/
def zeroPlan : MigrationPlan where
  id := ""
  version := 0
  table := ""

/-- **`json.NewDecoder(r.Body).Decode(&p)`.** -/
def decodeBody (body : String) : Option MigrationPlan :=
  (first body).bind (asObject decodePlan zeroPlan)

/-- **`json.Unmarshal`** into a plan. -/
def unmarshal (text : String) : Option MigrationPlan :=
  (parse text).bind (asObject decodePlan zeroPlan)

/-! ### Decoding what has been encoded -/

section Fields
variable {s t : String} {b : Bool}

theorem gives_omitEmpty (s : String) : Gives asString "" (omitEmpty s) s :=
  gives_omit (fun h => h.symm) (reads_str s "")

theorem gives_omitFalse (b : Bool) : Gives asBool false (omitFalse b) b :=
  gives_omit (fun h => h.symm) (reads_bool b false)

theorem gives_omitNil {α : Type} {f : Reader α} {zero : α} {enc : α → Value} {l : List α}
    (h : ∀ a ∈ l, Reads f zero (enc a) a) : Gives (asList f zero) [] (omitNil enc l) l :=
  gives_omit (fun hnil => (List.isEmpty_iff.mp hnil).symm) (reads_list h false)

theorem gives_str (s t : String) : Gives asString t (some (.str s)) s := (reads_str s t).gives

theorem gives_float (x y : Lib.Binary64.Float64) : Gives asFloat y (some (float x)) x :=
  (reads_float x y).gives

theorem gives_int {n : ℤ} (h : IsInt64 n) (m : ℤ) : Gives asInt m (some (int n)) n :=
  (reads_int h m).gives

end Fields

theorem reads_column (col : ColumnSpec) :
    Reads (asObject decodeColumn) { name := "" } (struct (ColumnSpec.slots col)) col := by
  have hn : Distinct (ColumnSpec.slots col) := show Distinct (ColumnSpec.slots { name := "" }) by decide
  refine reads_struct hn fun w fields hfields => ?_
  simp only [ColumnSpec.slots, List.forall_mem_cons] at hfields
  obtain ⟨hname, htype, hexpr, hnull, hidx, -⟩ := hfields
  unfold decodeColumn
  rw [hname, htype, hexpr, hnull, hidx, gives_str _ _ w, gives_str _ _ w, gives_omitEmpty _ w,
    gives_omitFalse _ w, gives_omitFalse _ w]
  rfl

theorem reads_backfill {b : Backfill} (hbatch : IsInt64 b.batchSize) (hpause : IsInt64 b.throttleMs) :
    Reads (asObject decodeBackfill) {} (struct (Backfill.slots b)) b := by
  have hn : Distinct (Backfill.slots b) := show Distinct (Backfill.slots {}) by decide
  refine reads_struct hn fun w fields hfields => ?_
  simp only [Backfill.slots, List.forall_mem_cons] at hfields
  obtain ⟨hcol, hsize, hthrottle, hexpr, hmulti, -⟩ := hfields
  unfold decodeBackfill
  rw [hcol, hsize, hthrottle, hexpr, hmulti, gives_str _ _ w, gives_int hbatch _ w, gives_int hpause _ w,
    gives_str _ _ w, gives_omitEmpty _ w]
  rfl

theorem reads_verify (v : Verify) : Reads (asObject decodeVerify) {} (struct (Verify.slots v)) v := by
  have hn : Distinct (Verify.slots v) := show Distinct (Verify.slots {}) by decide
  refine reads_struct hn fun w fields hfields => ?_
  simp only [Verify.slots, List.forall_mem_cons] at hfields
  obtain ⟨hmode, hparity, hrate, -⟩ := hfields
  unfold decodeVerify
  rw [hmode, hparity, hrate, gives_str _ _ w, gives_float _ _ w, gives_float _ _ w]
  rfl

theorem reads_canary {c : Canary} (nils : Nils) (hsteps : ∀ n ∈ c.steps, IsInt64 n)
    (hbake : IsInt64 c.bakeSeconds) :
    Reads (asObject decodeCanary) {} (struct (Canary.slots nils c)) c := by
  have hn : Distinct (Canary.slots nils c) := show Distinct (Canary.slots {} {}) by decide
  have hlist : Gives (asList asInt 0) [] (some (list nils.steps (c.steps.map int))) c.steps :=
    (reads_list (fun n h => reads_int (hsteps n h) 0) nils.steps).gives
  refine reads_struct hn fun w fields hfields => ?_
  simp only [Canary.slots, List.forall_mem_cons] at hfields
  obtain ⟨hs, hb, -⟩ := hfields
  unfold decodeCanary
  rw [hs, hb, hlist w, gives_int hbake _ w]
  rfl

theorem reads_slo {s : SLO} (h : IsInt64 s.maxP99LatencyMs) :
    Reads (asObject decodeSLO) {} (struct (SLO.slots s)) s := by
  have hn : Distinct (SLO.slots s) := show Distinct (SLO.slots {}) by decide
  refine reads_struct hn fun w fields hfields => ?_
  simp only [SLO.slots, List.forall_mem_cons] at hfields
  obtain ⟨hp99, hrate, hparity, -⟩ := hfields
  unfold decodeSLO
  rw [hp99, hrate, hparity, gives_int h _ w, gives_float _ _ w, gives_float _ _ w]
  rfl

theorem reads_chaos {c : Chaos} (h : IsInt64 c.failCanaryAtStep) :
    Reads (asObject decodeChaos) {} (struct (Chaos.slots c)) c := by
  have hn : Distinct (Chaos.slots c) := show Distinct (Chaos.slots {}) by decide
  refine reads_struct hn fun w fields hfields => ?_
  simp only [Chaos.slots, List.forall_mem_cons] at hfields
  unfold decodeChaos
  rw [hfields.1, gives_int h _ w]
  rfl

theorem gives_texts (isNil : Bool) (l : List String) :
    Gives (asList asString "") [] (some (list isNil (l.map .str))) l :=
  (reads_list (fun s _ => reads_str s "") isNil).gives

theorem gives_strategy {s : Strategy} (h : s = .expandContract) :
    Gives asStrategy .unset (some (.str s.text)) s := by
  subst h
  exact Reads.gives fun w => by cases w <;> rfl

theorem gives_failureAction {a : FailureAction} (h : a = .rollback ∨ a = .pause) :
    Gives asFailureAction .unset (some (.str a.text)) a := by
  refine Reads.gives fun w => ?_
  rcases h with rfl | rfl <;> cases w <;> rfl

/-- **An accepted plan is read as it was written.** -/
theorem reads_plan {p : MigrationPlan} (nils : Nils) (hacc : Accepted p) (h : Fits p) :
    Reads (asObject decodePlan) zeroPlan (struct (MigrationPlan.slots nils p)) p := by
  have hints := h.ints
  simp only [ints, List.forall_mem_append, List.forall_mem_cons] at hints
  obtain ⟨⟨hver, hbatch, hpause, hbake, hp99, hstep, -⟩, hsteps⟩ := hints
  have hn : Distinct (MigrationPlan.slots nils p) :=
    show Distinct (MigrationPlan.slots {} zeroPlan) by decide
  refine reads_struct hn fun w fields hfields => ?_
  simp only [MigrationPlan.slots, List.forall_mem_cons] at hfields
  obtain ⟨fid, fversion, ftable, fstrategy, fexpand, fbackfill, fverify, fcanary, fslo, fcontract,
    frollback, ffailure, fchaos, fadd, fdrop, -⟩ := hfields
  unfold decodePlan zeroPlan
  rw [fid, fversion, ftable, fstrategy, fexpand, fbackfill, fverify, fcanary, fslo, fcontract, frollback,
    ffailure, fchaos, fadd, fdrop]
  rw [gives_str _ _ w, gives_int hver _ w, gives_str _ _ w, gives_strategy hacc.strategy w,
    gives_texts _ _ w, (reads_backfill hbatch hpause).gives w, (reads_verify p.verify).gives w,
    (reads_canary nils hsteps hbake).gives w, (reads_slo hp99).gives w, gives_texts _ _ w,
    gives_texts _ _ w, gives_failureAction hacc.onFailure w, (reads_chaos hstep).gives w,
    gives_omitNil (fun col _ => reads_column col) w, gives_omitNil (fun s _ => reads_str s "") w]
  rfl

/-! ### Storing -/

section Storable
variable {slots : Slots} {s : String}

theorem storable_omitEmpty (h : NulFree s) : ∀ v ∈ omitEmpty s, storable v = true := by
  unfold omitEmpty
  split_ifs
  · nofun
  · rintro v hv
    obtain rfl := Option.some.inj hv
    exact decide_eq_true h

theorem storable_omitFalse (b : Bool) : ∀ v ∈ omitFalse b, storable v = true := by
  unfold omitFalse
  split_ifs
  · nofun
  · rintro v hv
    obtain rfl := Option.some.inj hv
    rfl

theorem storable_some {v : Value} (h : storable v = true) : ∀ v' ∈ some v, storable v' = true := by
  rintro v' hv
  obtain rfl := Option.some.inj hv
  exact h

theorem storable_omitNil {α : Type} {enc : α → Value} {l : List α}
    (h : ∀ a ∈ l, storable (enc a) = true) : ∀ v ∈ omitNil enc l, storable v = true := by
  unfold omitNil
  split_ifs
  · nofun
  · exact storable_some (storable_list h false)

theorem storable_texts {l : List String} (h : ∀ s ∈ l, NulFree s) (isNil : Bool) :
    storable (list isNil (l.map .str)) = true := by
  have hstr : ∀ s ∈ l, storable (.str s) = true := fun s hs => decide_eq_true (h s hs)
  exact storable_list hstr isNil

end Storable

theorem storable_column {col : ColumnSpec} (h : ∀ s ∈ columnStrings col, NulFree s) :
    storable (struct (ColumnSpec.slots col)) = true := by
  simp only [columnStrings, List.forall_mem_cons] at h
  obtain ⟨hname, htype, hexpr, -⟩ := h
  refine storable_struct (show namesNulFree (ColumnSpec.slots { name := "" }) = true by decide) ?_
  simp only [ColumnSpec.slots, List.forall_mem_cons]
  exact ⟨storable_some (decide_eq_true hname), storable_some (decide_eq_true htype),
    storable_omitEmpty hexpr, storable_omitFalse _, storable_omitFalse _, List.forall_mem_nil _⟩

theorem storable_backfill {b : Backfill} (hcol : NulFree b.column) (hsrc : NulFree b.sourceExpr)
    (hmulti : NulFree b.multiSQL) : storable (struct (Backfill.slots b)) = true := by
  refine storable_struct (show namesNulFree (Backfill.slots {}) = true by decide) ?_
  simp only [Backfill.slots, List.forall_mem_cons]
  exact ⟨storable_some (decide_eq_true hcol), storable_some rfl, storable_some rfl,
    storable_some (decide_eq_true hsrc), storable_omitEmpty hmulti, List.forall_mem_nil _⟩

theorem storable_verify {v : Verify} (h : NulFree v.mode) :
    storable (struct (Verify.slots v)) = true := by
  refine storable_struct (show namesNulFree (Verify.slots {}) = true by decide) ?_
  simp only [Verify.slots, List.forall_mem_cons]
  exact ⟨storable_some (decide_eq_true h), storable_some rfl, storable_some rfl, List.forall_mem_nil _⟩

theorem storable_canary (nils : Nils) (c : Canary) : storable (struct (Canary.slots nils c)) = true := by
  refine storable_struct (show namesNulFree (Canary.slots {} {}) = true by decide) ?_
  simp only [Canary.slots, List.forall_mem_cons]
  exact ⟨storable_some (storable_list (fun _ _ => rfl) _), storable_some rfl, List.forall_mem_nil _⟩

theorem storable_slo (s : SLO) : storable (struct (SLO.slots s)) = true := by
  refine storable_struct (show namesNulFree (SLO.slots {}) = true by decide) ?_
  simp only [SLO.slots, List.forall_mem_cons]
  exact ⟨storable_some rfl, storable_some rfl, storable_some rfl, List.forall_mem_nil _⟩

theorem storable_chaos (c : Chaos) : storable (struct (Chaos.slots c)) = true := by
  refine storable_struct (show namesNulFree (Chaos.slots {}) = true by decide) ?_
  simp only [Chaos.slots, List.forall_mem_cons]
  exact ⟨storable_some rfl, List.forall_mem_nil _⟩

/-- **A plan that fits can be stored.** -/
theorem storable_plan {p : MigrationPlan} (nils : Nils) (hacc : Accepted p) (h : Fits p) :
    storable (struct (MigrationPlan.slots nils p)) = true := by
  have hstrings := h.strings
  simp only [strings, List.forall_mem_append, List.forall_mem_cons, List.forall_mem_flatMap] at hstrings
  obtain ⟨⟨hid, htable, hcol, hsrc, hmulti, hmode, -⟩, hexp, hcon, hroll, hdrop, hadd⟩ := hstrings
  have hstrategy : NulFree p.strategy.text := by
    rw [hacc.strategy]
    decide
  have hfailure : NulFree p.onFailure.text := by
    rcases hacc.onFailure with h | h <;> rw [h] <;> decide
  refine storable_struct (show namesNulFree (MigrationPlan.slots {} zeroPlan) = true by decide) ?_
  simp only [MigrationPlan.slots, List.forall_mem_cons]
  exact ⟨storable_some (decide_eq_true hid), storable_some rfl, storable_some (decide_eq_true htable),
    storable_some (decide_eq_true hstrategy), storable_some (storable_texts hexp _),
    storable_some (storable_backfill hcol hsrc hmulti), storable_some (storable_verify hmode),
    storable_some (storable_canary nils p.canary), storable_some (storable_slo p.slo),
    storable_some (storable_texts hcon _), storable_some (storable_texts hroll _),
    storable_some (decide_eq_true hfailure), storable_some (storable_chaos p.chaos),
    storable_omitNil fun col hcol => storable_column (hadd col hcol),
    storable_omitNil fun s hs => decide_eq_true (hdrop s hs), List.forall_mem_nil _⟩

/-! ### The way of a plan -/

/-- **An accepted plan is decoded as it was encoded**, from the body of a request and from the column. -/
theorem decode_marshal {p : MigrationPlan} (nils : Nils) (hacc : Accepted p) (h : Fits p) :
    decodeBody (marshal nils p) = some p ∧
      ∃ text, jsonb (marshal nils p) = some text ∧ unmarshal text = some p :=
  reads_texts (reads_plan nils hacc h) (storable_plan nils hacc h)

end MigrationSafety.Plan.Encoding
