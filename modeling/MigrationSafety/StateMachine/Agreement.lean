import MigrationSafety.StateMachine.Cutover

/-! # Three ways to measure parity

Verification counts the rows of a sample that match, the cutover and `DriftScan` count the rows of the
whole table that do not; verification looks for NULLs in a query of its own. All of them are asked of
one database here (`answers`), where a sample consists of the rows whose random number is below the
rate.

* `cutoverGate_eq`: the gate of the cutover judges what `DriftScan` reports.
* `gates_agree`: where the sample is the whole table, the three agree on every table. -/

namespace MigrationSafety.StateMachine.Agreement

open MigrationSafety.Lib.Effects MigrationSafety.Lib.Binary64
open MigrationSafety.Plan.Validate MigrationSafety.Sql.Text MigrationSafety.Sql.Rows
open MigrationSafety.StateMachine.Signature MigrationSafety.StateMachine.Handlers
open MigrationSafety.StateMachine.Run

/-! ### The drift scan -/

/-- How far a table has drifted from what the backfill of a plan would produce. -/
structure DriftReport where
  table : String
  column : String
  total : ℕ
  nulls : ℕ
  drifted : ℕ
  parity : Float64

inductive DriftError
  | noColumn (id : String)
  | noSourceExpr (id : String)
  | fullTableParity

/-- `%q` is the parameter `quote`; the error of the driver is left out. -/
def DriftError.text (quote : String → String) : DriftError → String
  | noColumn id => "plan " ++ quote id ++ " has no backfill.column to scan"
  | noSourceExpr id => "plan " ++ quote id ++ " has no backfill.source_expr to scan"
  | fullTableParity => "full-table parity: "

/-- The counts over the entire table. -/
def fullTableParity (p : MigrationPlan) : Code (Except DriftError DriftReport) := do
  match ← ask (.fullParity p.table p.backfill.column p.backfill.sourceExpr) with
  | none => pure (.error .fullTableParity)
  | some (total, nulls, drifted) =>
    pure (.ok ⟨p.table, p.backfill.column, total, nulls, drifted, parity total drifted⟩)

/-- The read-only scan. -/
def driftScan (p : MigrationPlan) : Code (Except DriftError DriftReport) :=
  if p.backfill.column = "" then pure (.error (.noColumn p.id))
  else if p.backfill.sourceExpr = "" then pure (.error (.noSourceExpr p.id))
  else fullTableParity p

/-- What the cutover makes of a report. -/
def judge (p : MigrationPlan) (rep : DriftReport) : Outcome :=
  if 0 < rep.nulls ∨ rep.parity.val < (threshold p).val then
    let why := Refusal.cutoverParity rep.parity (threshold p) rep.nulls rep.drifted rep.total
    cutoverAbort p [("cutover_parity", .float rep.parity), ("cutover_abort", .text why.text)] why
  else .ok { checkpoint := [("cutover_parity", .float rep.parity), ("rows", .int rep.total)] }

theorem cutoverGate_eq (r : Record) :
    cutoverGate r = fullTableParity r.plan >>= fun
      | .error _ => pure (.error .cutoverParity)
      | .ok rep => pure (judge r.plan rep) := by
  unfold cutoverGate fullTableParity
  simp only [Prog.perform_bind, Prog.bind_call]
  congr 1
  funext x
  rcases x with _ | ⟨total, nulls, drifted⟩
  · rfl
  · simp only [Prog.pure_eq, Prog.bind_ret, judge]
    split_ifs <;> rfl

/-! ### One database -/

/-- `%f` of a rate, as the database reads it. -/
def printed (x : Float64) : ℚ := nearest (x.val * 10 ^ 6) / 10 ^ 6

/-- What `random()` returns, row by row. -/
abbrev Draws : Type := ℕ → {x : ℚ // 0 ≤ x ∧ x < 1}

variable {V : Type}

/-- `WHERE random() < rate`. -/
def sampled (draw : Draws) (rate : Float64) (rows : List (Row V)) : List (Row V) :=
  (rows.zipIdx.filter fun x => (draw x.2).val < printed rate).map Prod.fst

/-- What a query on a column of a table returns; without the table or the column it fails. -/
def queried {α : Type} (db : String → Option (Table V)) (table col : String)
    (f : List (Row V) → α) : Option α :=
  (db table).bind fun T => if T.hasColumn col then some (f T.rows) else none

variable [DecidableEq V]

instance (e : Op) : Inhabited e.Ret := by cases e <;> exact ⟨default⟩

/-- The answers of the target database to the parity queries; `base` answers everything else. -/
def answers (eval : Eval V) (db : String → Option (Table V)) (draw : Draws)
    (base : (e : Op) → e.Ret) : (e : Op) → e.Ret
  | .countNulls table col => queried db table col fun rows => nullCount rows col
  | .sampleParity table col expr rate => queried db table col fun rows =>
      (matchCount eval (sampled draw rate rows) col expr, (sampled draw rate rows).length)
  | .fullParity table col expr => queried db table col fun rows =>
      (rows.length, nullCount rows col, driftCount eval rows col expr)
  | e => base e

variable {eval : Eval V} {db : String → Option (Table V)} {draw : Draws} {base : (e : Op) → e.Ret}
  {r : Record} {rate : Float64} {rows : List (Row V)}

omit [DecidableEq V] in
/-- A query is answered from the table of that name, if it has the column. -/
theorem queried_eq_some {α : Type} {table col : String} {f : List (Row V) → α} {a : α} :
    queried db table col f = some a ↔ ∃ T, db table = some T ∧ T.hasColumn col ∧ f T.rows = a := by
  simp [queried, Option.bind_eq_some_iff]

omit [DecidableEq V] in
theorem queried_eq_none {α : Type} {table col : String}
    (h : ¬∃ T, db table = some T ∧ T.hasColumn col) (f : List (Row V) → α) :
    queried db table col f = none := by
  refine Option.eq_none_iff_forall_ne_some.mpr fun a ha => ?_
  obtain ⟨T, hT, hc, -⟩ := queried_eq_some.mp ha
  exact h ⟨T, hT, hc⟩

omit [DecidableEq V] in
/-- At the rate 1 every row is in the sample. -/
theorem sampled_eq_self (h : rate.val = 1) : sampled draw rate rows = rows := by
  have hp : printed rate = 1 := by
    unfold printed
    rw [h, one_mul]
    norm_num [nearest]
  have hall : (rows.zipIdx.filter fun x => decide ((draw x.2).val < printed rate)) =
      rows.zipIdx := by
    refine List.filter_eq_self.mpr fun x _ => ?_
    rw [hp]
    exact decide_eq_true (draw x.2).property.2
  unfold sampled
  rw [hall, List.zipIdx_map_fst]

/-! ### What each of them looks at -/

/-- **The table of the plan**, if it has the column, no NULL in it, and parity at the threshold. -/
def Converged (eval : Eval V) (db : String → Option (Table V)) (p : MigrationPlan) : Prop :=
  ∃ T, db p.table = some T ∧ Cutover.Measured eval T p

theorem threshold_le_iff {p : MigrationPlan} {x : ℚ} : (threshold p).val ≤ x ↔
    max p.verify.parityThreshold.val p.slo.minParity.val ≤ x := by
  unfold threshold
  split_ifs with h
  · rw [max_eq_right h.le]
  · rw [max_eq_left (not_lt.mp h)]

theorem sampleRate_eq_one {p : MigrationPlan} (h : p.verify.sampleRate.val ≤ 0 ∨
    p.verify.sampleRate.val = 1 ∨ 1 < p.verify.sampleRate.val) : (sampleRate p).val = 1 := by
  unfold sampleRate
  split_ifs with hr
  · exact ofInt_one_val
  · obtain ⟨h0, h1⟩ := not_or.mp hr
    exact (h.resolve_left h0).resolve_right h1

/-- The rows that match are the rows that have not drifted. -/
theorem ratio_matchCount (eval : Eval V) (rows : List (Row V)) (col expr : String) :
    ratio (matchCount eval rows col expr) rows.length =
      parity rows.length (driftCount eval rows col expr) := by
  unfold parity
  congr 1
  have := matchCount_add_driftCount eval rows col expr
  omega

/-- At the rate 1 the sample is the table. -/
theorem answers_sampleParity {table col expr : String} (h : rate.val = 1) :
    answers eval db draw base (.sampleParity table col expr rate) =
      queried db table col fun rows => (matchCount eval rows col expr, rows.length) := by
  simp only [answers, sampled_eq_self h]

variable (draw base) in
/-- The counts of the whole table. -/
theorem fullParity_converged {p : MigrationPlan} :
    (∃ total drifted : ℕ, answers eval db draw base
        (.fullParity p.table p.backfill.column p.backfill.sourceExpr) = some (total, 0, drifted) ∧
      (threshold p).val ≤ (parity total drifted).val) ↔ Converged eval db p := by
  constructor
  · rintro ⟨total, drifted, hans, hpar⟩
    simp only [answers] at hans
    obtain ⟨T, hT, hcol, hc⟩ := queried_eq_some.mp hans
    obtain ⟨rfl, hnull, rfl⟩ := by simpa using hc
    exact ⟨T, hT, hcol, hnull, hpar⟩
  · rintro ⟨T, hT, hcol, hnull, hpar⟩
    refine ⟨_, _, ?_, hpar⟩
    simp only [answers]
    exact queried_eq_some.mpr ⟨T, hT, hcol, by rw [hnull]⟩

/-- **Verification on a table**: first the NULLs, then the rows that have not drifted. -/
theorem verify_table {T : Table V} (hcol : r.plan.backfill.column ≠ "")
    (hrate : (sampleRate r.plan).val = 1) (hT : db r.plan.table = some T)
    (hc : T.hasColumn r.plan.backfill.column) :
    (∃ res, (verify r).under (answers eval db draw base) = .ok res) ↔
      Cutover.Measured eval T r.plan := by
  have hq : ∀ {α : Type} (f : List (Row V) → α),
      queried db r.plan.table r.plan.backfill.column f = some (f T.rows) :=
    fun f => queried_eq_some.mpr ⟨T, hT, hc, rfl⟩
  simp only [verify, if_neg hcol, Prog.perform_bind, under_call]
  rw [answers, hq]
  dsimp only
  split_ifs with hnull
  · refine iff_of_false (by simp) fun hm => ?_
    exact absurd hm.nulls hnull.ne'
  · simp only [verifySample, Prog.perform_bind, under_call, answers_sampleParity hrate, hq,
      ratio_matchCount]
    split_ifs with hpar
    · refine iff_of_false (by simp) fun hm => ?_
      exact absurd hpar (not_lt.mpr hm.parity)
    · exact iff_of_true ⟨_, rfl⟩ ⟨hc, Nat.eq_zero_of_not_pos hnull, not_lt.mp hpar⟩

/-- **Verification.** -/
theorem verify_iff (hcol : r.plan.backfill.column ≠ "") (hrate : (sampleRate r.plan).val = 1) :
    (∃ res, (verify r).under (answers eval db draw base) = .ok res) ↔
      Converged eval db r.plan := by
  by_cases h : ∃ T, db r.plan.table = some T ∧ T.hasColumn r.plan.backfill.column
  · obtain ⟨T, hT, hc⟩ := h
    rw [verify_table hcol hrate hT hc]
    simp [Converged, hT]
  · refine iff_of_false ?_ ?_
    · simp only [verify, if_neg hcol, Prog.perform_bind, under_call]
      rw [answers, queried_eq_none h]
      simp
    · rintro ⟨T, hT, hm⟩
      exact h ⟨T, hT, hm.column⟩

/-- **The scan.** -/
theorem driftScan_iff {p : MigrationPlan} (hcol : p.backfill.column ≠ "")
    (hexpr : p.backfill.sourceExpr ≠ "") :
    (∃ rep, (driftScan p).under (answers eval db draw base) = .ok rep ∧ rep.nulls = 0 ∧
      (threshold p).val ≤ rep.parity.val) ↔ Converged eval db p := by
  rw [← fullParity_converged draw base, driftScan, if_neg hcol, if_neg hexpr]
  simp only [fullTableParity, Prog.perform_bind, under_call]
  rcases answers eval db draw base _ with _ | ⟨total, nulls, drifted⟩
  · simp
  · simp

theorem persistedNext_judge {p : MigrationPlan} {rep : DriftReport} :
    persistedNext .cutover (judge p rep) = some .contracting ↔
      rep.nulls = 0 ∧ (threshold p).val ≤ rep.parity.val := by
  unfold judge
  split_ifs with hbad
  · rw [Gates.persistedNext_cutoverAbort]
    refine iff_of_false (by split_ifs <;> simp) ?_
    rintro ⟨hnull, hpar⟩
    rcases hbad with hbad | hbad
    · omega
    · exact absurd hbad (not_lt.mpr hpar)
  · obtain ⟨hnull, hpar⟩ := not_or.mp hbad
    exact iff_of_true rfl ⟨Nat.eq_zero_of_not_pos hnull, not_lt.mp hpar⟩

/-- **The gate of the cutover.** -/
theorem cutoverGate_iff : persistedNext .cutover ((cutoverGate r).under (answers eval db draw base)) =
    some .contracting ↔ Converged eval db r.plan := by
  rw [← fullParity_converged draw base, cutoverGate_eq]
  simp only [fullTableParity, Prog.perform_bind, Prog.bind_call, under_call]
  rcases answers eval db draw base _ with _ | ⟨total, nulls, drifted⟩
  · simp [persistedNext]
  · simp only [Prog.pure_eq, Prog.bind_ret, under_ret, persistedNext_judge]
    simp

/-- **The gates agree**: where verification reads the whole table, it succeeds if and only if the gate
of the cutover lets the same table pass, and if and only if the scan reports no NULL and parity at the
larger threshold. -/
theorem gates_agree (eval : Eval V) (db : String → Option (Table V)) (draw : Draws)
    (base : (e : Op) → e.Ret) {r : Record} (hp : Accepted r.plan)
    (hcol : r.plan.backfill.column ≠ "") (hrate : r.plan.verify.sampleRate.val ≤ 0 ∨
      r.plan.verify.sampleRate.val = 1 ∨ 1 < r.plan.verify.sampleRate.val) :
    ((∃ res, (verify r).under (answers eval db draw base) = .ok res) ↔
      persistedNext .cutover ((cutoverGate r).under (answers eval db draw base)) =
        some .contracting) ∧
    ((∃ res, (verify r).under (answers eval db draw base) = .ok res) ↔
      ∃ rep, (driftScan r.plan).under (answers eval db draw base) = .ok rep ∧ rep.nulls = 0 ∧
        max r.plan.verify.parityThreshold.val r.plan.slo.minParity.val ≤ rep.parity.val) := by
  have hv := @verify_iff V _ eval db draw base r hcol (sampleRate_eq_one hrate)
  simp only [← threshold_le_iff]
  exact ⟨hv.trans cutoverGate_iff.symm, hv.trans (driftScan_iff hcol (hp.sourceExpr hcol)).symm⟩

/-- A column `b` with the value of `a` in its only row. -/
theorem gates_agree_filled :
    ∃ res, (verify { id := 0, plan := backfillPlan.prepare.withDefaults, state := .verifying }).under
      (answers (fun _ _ => some 2) (fun _ => some ⟨[foldIdent "b"], [⟨1, fun _ => some 2⟩]⟩)
        (fun _ => ⟨0, le_rfl, one_pos⟩) fun _ => default) = .ok res := by
  refine (gates_agree _ _ _ _ accepted_backfillPlan ?_ ?_).1.mpr ?_
  · decide
  · exact Or.inl (by decide +kernel)
  · decide +kernel

end MigrationSafety.StateMachine.Agreement
