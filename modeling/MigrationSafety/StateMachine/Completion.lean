import MigrationSafety.StateMachine.Filling
import MigrationSafety.StateMachine.Knob

/-! # Runs that complete

In faultless surroundings a run is held up by four things only (`Favourable`): that no service is
registered, that the canary's lag checks find a lag and the plan sets no latency limit, that a batch is
sent with `LIMIT 0`, and that an expression which reads its own column no longer gives the values it has
filled in. In every other run each state hands over to the next one, and the backfill to itself as long
as rows are left; so the run ends in `Done`, with the Expand statements executed and then the Contract
statements (`run_completes`).

* `ends_execEach`, `ends_verify`, `ends_canary`, `ends_cutover`: no handler fails.
* `ends_backfillTurn`: a turn of the backfill fills rows, or there are none left.
* `completes_batch`: so the backfill ends. -/

namespace MigrationSafety.StateMachine.Completion

open MigrationSafety.Lib.Effects MigrationSafety.Lib.Worlds MigrationSafety.Lib.Binary64
open MigrationSafety.Plan.Validate MigrationSafety.Sql.Rows MigrationSafety.Sql.Text
open MigrationSafety.Safety.Throttle MigrationSafety.Safety.Executor
open MigrationSafety.StateMachine.Signature MigrationSafety.StateMachine.Handlers
open MigrationSafety.StateMachine.Run MigrationSafety.StateMachine.Faultless
open MigrationSafety.StateMachine.Selection MigrationSafety.StateMachine.Filling
open MigrationSafety.StateMachine.CanarySteps (breaches)
open MigrationSafety.StateMachine.Knob (not_breaches)

variable {V : Type} {s t u : World V}

/-! ### What has happened -/

/-- These statements have been executed; the stored state and the table are as before. -/
structure Sent (stmts : List String) (s t : World V) : Prop where
  state : t.state = s.state
  rows : t.rows = s.rows
  executed : t.executed = s.executed ++ stmts

/-- Nothing has been executed. -/
abbrev Keeps (s t : World V) : Prop := Sent [] s t

theorem Keeps.of_eq (hstate : t.state = s.state) (hrows : t.rows = s.rows)
    (hexec : t.executed = s.executed) : Keeps s t :=
  ⟨hstate, hrows, by rw [hexec, List.append_nil]⟩

theorem Keeps.refl (s : World V) : Keeps s s := .of_eq rfl rfl rfl

theorem Sent.trans {l l' : List String} (h : Sent l s t) (h' : Sent l' t u) : Sent (l ++ l') s u :=
  ⟨h'.state.trans h.state, h'.rows.trans h.rows, by
    rw [h'.executed, h.executed, List.append_assoc]⟩

theorem Keeps.trans {l : List String} (h : Keeps s t) (h' : Sent l t u) : Sent l s u :=
  Sent.trans (l := []) h h'

theorem Sent.sends {l : List String} (h : Sent l s t) (hs : s.sends) : t.sends := by
  unfold World.sends
  rwa [h.state]

/-! ### The condition -/

/-- A condition on the steps of the surroundings. -/
abbrev Condition (V : Type) := Site V → World V → (op : Op) → op.Ret → Prop

/-- No condition. -/
def anyStep : Condition V := fun _ _ _ _ => True

/-- Evaluated again on the row it has filled, the expression gives the value it has filled in. -/
def Stable (S : Site V) (rows : List (Row V)) : Prop :=
  let b := S.plan.plan.backfill
  ∀ r ∈ rows, S.eval b.sourceExpr (r.set b.column (S.eval b.sourceExpr r)) = S.eval b.sourceExpr r

/-- **What a run needs to get through**, over the table `rows`. -/
def Favourable (rows : List (Row V)) : Condition V := fun S s op =>
  match op with
  | .serviceCounts _ => fun _ => 0 < S.services
  | .replicationLag => fun r =>
      s.state = .canary → S.plan.plan.slo.maxP99LatencyMs ≤ 0 → ∀ lag, r = some lag →
        -- the check before the first step, and the one after the pause
        (s.last = some (.load S.id) →
          lag.val ≤ (Float64.ofInt S.plan.plan.slo.maxP99LatencyMs).val) ∧
        (s.last = some (.sleep (5 * second)) → lag.val ≤ (lagLimit S.plan.plan.slo 3).val)
  | .updateBatch .. => fun _ =>
      (∃ row ∈ s.rows, row.get S.plan.plan.backfill.column = none) → s.throttle.currentBatchSize ≠ 0
  | .sampleParity .. => fun r => ¬Stable S rows → ∀ good sampled, r = some (good, sampled) →
      (threshold S.plan.plan).val ≤ (ratio good sampled).val
  | .fullParity .. => fun r => ¬Stable S rows → ∀ total nulls drifted,
      r = some (total, nulls, drifted) → (threshold S.plan.plan).val ≤ (parity total drifted).val
  | _ => fun _ => True

variable [DecidableEq V] {S : Site V} {ok : Condition V} {α : Type} {Q : α → World V → Prop} {op : Op}
  {k : op.Ret → Code α}

/-- Whatever such surroundings do, the program ends with `Q`. -/
abbrev Ends (S : Site V) (ok : Condition V) (Q : α → World V → Prop) (p : Code α) (s : World V) : Prop :=
  Prog.Wp (S.Moves ok) (fun _ _ => True) Q p s

theorem ends_ask (hk : ∀ r, S.answers s op r → ok S s op r → Ends S ok Q (k r) (S.after s op)) :
    Ends S ok Q (ask op >>= k) s := by
  rintro r _ t ⟨hr, hok, rfl⟩
  exact ⟨trivial, hk r hr hok⟩

/-- Does the operation leave the state, the table and the DDL alone? -/
def Op.idle : Op → Bool
  | .saveState .. | .updateBatch .. | .commit _ | .poolExec _ => false
  | _ => true

omit [DecidableEq V] in
theorem keeps_after (S : Site V) (s : World V) (h : Op.idle op = true) : Keeps s (S.after s op) := by
  cases op <;> first | exact .of_eq rfl rfl rfl | cases h

omit [DecidableEq V] in
theorem sent_commit (S : Site V) (s : World V) (stmt : String) : Sent [stmt] s (S.after s (.commit stmt)) :=
  ⟨rfl, rfl, rfl⟩

omit [DecidableEq V] in
theorem sent_poolExec (S : Site V) (s : World V) (stmt : String) :
    Sent [stmt] s (S.after s (.poolExec stmt)) :=
  ⟨rfl, rfl, rfl⟩

/-- An operation that leaves them alone. -/
theorem ends_idle (h : Op.idle op = true) (hk : ∀ r t, S.answers s op r → ok S s op r → Keeps s t →
    t.last = some op → Ends S ok Q (k r) t) : Ends S ok Q (ask op >>= k) s :=
  ends_ask fun r hr hok => hk r _ hr hok (keeps_after S s h) rfl

/-! ### DDL -/

theorem ends_checkLockQueue (hs : s.sends) : Ends S ok (fun x t =>
    (∃ n, x = some n ∧ n ≤ defaultDDLConfig.maxLockQueue) ∧ Keeps s t) checkLockQueue s := by
  refine ends_idle rfl ?_
  rintro _ t ⟨n, rfl, hn⟩ - ht -
  dsimp only
  split_ifs
  · refine ends_idle rfl ?_
    rintro _ u rfl - hu -
    exact ⟨⟨n, rfl, hn hs⟩, ht.trans hu⟩
  · exact ⟨⟨n, rfl, hn hs⟩, ht⟩

/-- The check before a statement passes. -/
theorem ends_safetyCheck (hs : s.sends) :
    Ends S ok (fun x t => x = .ok () ∧ Keeps s t) safetyCheck s := by
  refine (ends_checkLockQueue hs).bind ?_
  rintro _ t ⟨⟨n, rfl, hn⟩, ht⟩
  dsimp only
  rw [if_neg (not_lt.mpr hn)]
  refine ends_idle rfl ?_
  rintro _ u ⟨lag, rfl, -, hlag⟩ - hu -
  have hsafe : Safe lag := hlag (ht.sends hs)
  dsimp only
  rw [if_neg (not_lt.mpr hsafe)]
  exact ⟨rfl, ht.trans hu⟩

theorem ends_execInTx (stmt : String) :
    Ends S ok (fun x t => x = .ok () ∧ Sent [stmt] s t) (execInTx stmt) s := by
  refine ends_idle rfl ?_
  rintro _ t rfl - ht -
  refine ends_idle rfl ?_
  rintro _ t' rfl - ht' -
  refine ends_idle rfl ?_
  rintro _ u rfl - hu -
  refine ends_idle rfl ?_
  rintro _ u' rfl - hu' -
  refine ends_ask ?_
  rintro _ rfl -
  exact ⟨rfl, ht.trans (ht'.trans (hu.trans (hu'.trans (sent_commit S u' stmt))))⟩

theorem ends_execConcurrently (stmt : String) (hs : s.sends) :
    Ends S ok (fun x t => x = .ok () ∧ Sent [stmt] s t) (execConcurrently stmt maxRetries) s := by
  refine (ends_safetyCheck hs).bind ?_
  rintro _ t ⟨rfl, ht⟩
  refine ends_idle rfl fun _ u _ _ hu _ => ends_ask ?_
  rintro _ rfl -
  exact ⟨rfl, ht.trans (hu.trans (sent_poolExec S u stmt))⟩

theorem ends_execDDL (stmt : String) (hs : s.sends) :
    Ends S ok (fun x t => x = .ok () ∧ Sent [stmt] s t) (execDDL stmt) s := by
  refine (ends_safetyCheck hs).bind ?_
  rintro _ t ⟨rfl, ht⟩
  dsimp only
  split_ifs
  · exact (ends_execConcurrently stmt (ht.sends hs)).mono fun _ _ h => ⟨h.1, ht.trans h.2⟩
  · exact (ends_execInTx stmt).mono fun _ _ h => ⟨h.1, ht.trans h.2⟩

/-- **The statements are executed, in order.** -/
theorem ends_execEach {fail : ℕ → String → DDLError → HandlerError} {id : Id} (i : ℕ)
    (stmts : List String) (hs : s.sends) :
    Ends S ok (fun x t => x = .ok () ∧ Sent stmts s t) (execEach fail id i stmts) s := by
  induction stmts generalizing i s with
  | nil => exact ⟨rfl, Keeps.refl s⟩
  | cons stmt stmts ih =>
    refine (ends_execDDL stmt hs).bind ?_
    rintro _ t ⟨rfl, ht⟩
    refine ends_idle rfl fun _ u _ _ hu _ => ?_
    refine (ih (i + 1) (hu.sends (ht.sends hs))).mono fun x v hv => ⟨hv.1, ?_⟩
    exact ht.trans (hu.trans hv.2)

theorem ends_runStmts {fail : ℕ → String → DDLError → HandlerError} {key : String} {id : Id}
    (stmts : List String) (hs : s.sends) : Ends S ok (fun out t =>
      out = .ok { checkpoint := [(key, .int stmts.length)] } ∧ Sent stmts s t)
      (runStmts fail key id stmts) s := by
  refine (ends_execEach 0 stmts hs).bind ?_
  rintro _ t ⟨rfl, ht⟩
  exact ⟨rfl, ht⟩

/-! ### The canary -/

/-- A handler returns, and nothing has happened. -/
def Passes (s : World V) (out : Outcome) (t : World V) : Prop :=
  (∃ c, out = .ok { checkpoint := c }) ∧ Keeps s t

omit [DecidableEq V] in
theorem Passes.after {out : Outcome} (h : Passes t out u) (ht : Keeps s t) : Passes s out u :=
  ⟨h.1, ht.trans h.2⟩

section Canary
variable {rows : List (Row V)} {r : Record} {delay : ℤ}

/-- The observation of an undisturbed canary is within the limits. -/
theorem not_breached {p : MigrationPlan} (hchaos : p.chaos.failCanaryAtStep = 0) (step : ℤ) :
    sloBreached (observeCanary p step) p.slo = none := by
  have hhealthy : breaches p step = false := not_breaches fun hforced => hforced.1.ne' hchaos
  simpa [breaches] using hhealthy

/-- A multiple of a positive limit is no stricter. -/
theorem le_lagLimit {slo : SLO} (h : 0 < slo.maxP99LatencyMs) :
    (Float64.ofInt slo.maxP99LatencyMs).val ≤ (lagLimit slo 3).val := by
  refine Float64.le_val_ofRat (le_mul_of_one_le_right (ofInt_pos h).le ?_)
  exact one_le_round (by norm_num)

/-- The lag check before a step does not give up. -/
theorem ends_preflight (hs : s.state = .canary) : Ends S (Favourable rows) (fun why t =>
    why = none ∧ Keeps s t) (preflight S.plan.plan.slo) s := by
  refine ends_idle rfl ?_
  rintro _ t ⟨lag, rfl, -⟩ - ht -
  dsimp only
  split_ifs
  · refine ends_idle rfl fun _ u _ _ hu hlast => ends_idle rfl ?_
    rintro _ v ⟨lag', rfl, hslo, -⟩ hok hv -
    have hlag : lag'.val ≤ (lagLimit S.plan.plan.slo 3).val := by
      rcases le_or_gt S.plan.plan.slo.maxP99LatencyMs 0 with h | h
      · exact (hok ((ht.trans hu).state.trans hs) h lag' rfl).2 hlast
      · exact (hslo h).trans (le_lagLimit h)
    dsimp only
    rw [if_neg (not_lt.mpr hlag)]
    exact ⟨rfl, ht.trans (hu.trans hv)⟩
  · exact ⟨rfl, ht⟩

/-- A healthy step. -/
theorem ends_canaryStep (hr : r.plan = S.plan.plan) (hchaos : S.plan.plan.chaos.failCanaryAtStep = 0)
    (hs : s.state = .canary) (step : ℤ) :
    Ends S (Favourable rows) (fun x t => x = none ∧ Keeps s t) (canaryStep delay r step) s := by
  refine ends_idle rfl ?_
  rintro _ t rfl - ht -
  rw [if_neg Bool.false_ne_true, hr]
  refine (ends_preflight (ht.state.trans hs)).bind ?_
  rintro _ u ⟨rfl, hu⟩
  refine ends_idle rfl fun _ v _ _ hv _ => ?_
  rw [hr, not_breached hchaos]
  refine ends_idle rfl ?_
  rintro _ w rfl - hw -
  have hkeeps := ht.trans (hu.trans (hv.trans hw))
  rw [if_pos rfl]
  split_ifs
  · refine ends_idle rfl ?_
    rintro _ w' rfl - hw' -
    exact ⟨rfl, hkeeps.trans hw'⟩
  · exact ⟨rfl, hkeeps⟩

theorem ends_canarySteps (hr : r.plan = S.plan.plan) (hchaos : S.plan.plan.chaos.failCanaryAtStep = 0)
    (hs : s.state = .canary) (steps : List ℤ) :
    Ends S (Favourable rows) (Passes s) (canarySteps delay r steps) s := by
  induction steps generalizing s with
  | nil => exact ⟨⟨_, rfl⟩, Keeps.refl s⟩
  | cons step steps ih =>
    refine (ends_canaryStep hr hchaos hs step).bind ?_
    rintro _ t ⟨rfl, ht⟩
    exact (ih (ht.state.trans hs)).mono fun _ _ h => h.after ht

/-- **The canary passes.** -/
theorem ends_canary (hr : r.plan = S.plan.plan) (hchaos : S.plan.plan.chaos.failCanaryAtStep = 0)
    (hs : s.state = .canary) (hlast : s.last = some (.load S.id)) :
    Ends S (Favourable rows) (Passes s) (canary delay r) s := by
  refine ends_idle rfl ?_
  rintro _ t ⟨lag, rfl, hslo, -⟩ hok ht -
  have hlag : lag.val ≤ (Float64.ofInt S.plan.plan.slo.maxP99LatencyMs).val := by
    rcases le_or_gt S.plan.plan.slo.maxP99LatencyMs 0 with h | h
    · exact (hok hs h lag rfl).1 hlast
    · exact hslo h
  dsimp only
  rw [hr, if_neg (not_lt.mpr hlag)]
  exact (ends_canarySteps hr hchaos (ht.state.trans hs) _).mono fun _ _ h => h.after ht

end Canary

/-! ### The parity gates -/

/-- A table before the backfill: no row has a value yet, and every row gets one. -/
structure Fresh (S : Site V) (rows : List (Row V)) : Prop where
  null : ∀ r ∈ rows, r.get S.plan.plan.backfill.column = none
  value : ∀ r ∈ rows, S.eval S.plan.plan.backfill.sourceExpr r ≠ none

/-- The table `rows`, filled up to the id `c`. -/
def upTo (S : Site V) (rows : List (Row V)) (c : ℤ) : List (Row V) :=
  filled S.eval rows S.plan.plan.backfill.column S.plan.plan.backfill.sourceExpr c

/-- The column, if there is one, is filled from the first row to the last. -/
def Full (S : Site V) (rows table : List (Row V)) : Prop :=
  S.plan.plan.backfill.column ≠ "" → ∃ c, (∀ r ∈ rows, r.id ≤ c) ∧ table = upTo S rows c

section Parity
variable {rows table : List (Row V)} {r : Record}

omit [DecidableEq V] in
theorem Full.nullCount (h : Full S rows table) (hcol : S.plan.plan.backfill.column ≠ "")
    (hfresh : Fresh S rows) : nullCount table S.plan.plan.backfill.column = 0 := by
  obtain ⟨c, hdone, rfl⟩ := h hcol
  exact nullCount_filled hfresh.value hdone

omit [DecidableEq V] in
/-- The expression still gives what is stored. -/
theorem Full.stable (h : Full S rows table) (hcol : S.plan.plan.backfill.column ≠ "")
    (hstable : Stable S rows) : ∀ row ∈ table,
      row.get S.plan.plan.backfill.column = S.eval S.plan.plan.backfill.sourceExpr row := by
  obtain ⟨c, hdone, rfl⟩ := h hcol
  intro row hrow
  obtain ⟨r, hr, rfl⟩ := mem_filled.mp hrow
  rw [if_pos (hdone r hr), Row.get_set_self]
  exact (hstable r hr).symm

theorem threshold_le_one {p : MigrationPlan} (hverify : p.verify.parityThreshold.val ≤ 1)
    (hslo : p.slo.minParity.val ≤ 1) : (threshold p).val ≤ 1 := by
  unfold threshold
  split_ifs
  · exact hslo
  · exact hverify

/-- **Verification passes.** -/
theorem ends_verify (hr : r.plan = S.plan.plan) (hone : (threshold S.plan.plan).val ≤ 1)
    (hfresh : S.plan.plan.backfill.column ≠ "" → Fresh S rows) (hfull : Full S rows s.rows) :
    Ends S (Favourable rows) (Passes s) (verify r) s := by
  unfold verify
  dsimp only
  rw [hr]
  split_ifs with hcol
  · exact ⟨⟨_, rfl⟩, Keeps.refl s⟩
  · refine ends_idle rfl ?_
    rintro _ t rfl - ht -
    rw [hfull.nullCount hcol (hfresh hcol)]
    dsimp only
    rw [if_neg (lt_irrefl 0)]
    refine ends_idle rfl ?_
    rintro _ u ⟨sample, hsample, rfl⟩ hok hu -
    rw [hr] at hok ⊢
    have hpar : (threshold S.plan.plan).val ≤ (ratio (matchCount S.eval sample
        S.plan.plan.backfill.column S.plan.plan.backfill.sourceExpr) sample.length).val := by
      by_cases hstable : Stable S rows
      · have hdrift : driftCount S.eval sample S.plan.plan.backfill.column
            S.plan.plan.backfill.sourceExpr = 0 :=
          driftCount_eq_zero.mpr fun row hrow =>
            hfull.stable hcol hstable row (ht.rows ▸ hsample.subset hrow)
        rw [← matchCount_add_driftCount S.eval sample, hdrift, Nat.add_zero, ratio_self]
        exact hone
      · exact hok hstable _ _ rfl
    dsimp only
    rw [if_neg (not_lt.mpr hpar)]
    exact ⟨⟨_, rfl⟩, ht.trans hu⟩

/-- **The cutover passes.** -/
theorem ends_cutover (hr : r.plan = S.plan.plan) (hone : (threshold S.plan.plan).val ≤ 1)
    (hfresh : S.plan.plan.backfill.column ≠ "" → Fresh S rows) (hfull : Full S rows s.rows) :
    Ends S (Favourable rows) (Passes s) (cutover r) s := by
  refine Prog.Wp.bind (Q := fun why t => why = none ∧ Keeps s t) ?_ ?_
  · refine ends_idle rfl ?_
    rintro _ t rfl hservices ht -
    have hready : allServicesReady (S.services, S.services) = true := by
      simpa [allServicesReady, Favourable] using hservices
    dsimp only
    rw [if_pos hready]
    exact ⟨rfl, ht⟩
  · rintro _ t ⟨rfl, ht⟩
    dsimp only
    rw [hr]
    split_ifs with hcol
    · exact ⟨⟨_, rfl⟩, ht⟩
    · refine ends_idle rfl ?_
      rintro _ u rfl hok hu -
      rw [hr, ht.rows] at hok ⊢
      have hpar : (threshold S.plan.plan).val ≤ (parity s.rows.length (driftCount S.eval s.rows
          S.plan.plan.backfill.column S.plan.plan.backfill.sourceExpr)).val := by
        by_cases hstable : Stable S rows
        · rw [driftCount_eq_zero.mpr (hfull.stable hcol hstable), parity_zero]
          exact hone
        · exact hok hstable _ _ _ rfl
      dsimp only
      rw [hfull.nullCount hcol (hfresh hcol), if_neg (by simpa using hpar)]
      exact ⟨⟨_, rfl⟩, ht.trans hu⟩

end Parity

/-! ### The backfill -/

section Backfill
variable {rows : List (Row V)} {r : Record} {pr : Progress}

theorem ends_health : Ends S ok (fun _ t => Keeps s t) collectHealthMetrics s := by
  refine (wp_of_all (I := Keeps s) collectHealthMetrics_within ?_ (Keeps.refl s)).mono fun _ _ h => h.2
  rintro op x i t u hop ht ⟨-, -, rfl⟩
  have hidle : Op.idle op = true := by
    cases op <;> first | rfl | simp [Op.kind] at hop
  exact ⟨trivial, ht.trans (keeps_after S t hidle)⟩

theorem ends_updateHealth : Ends S ok (fun _ t => Keeps s t) updateHealth s := by
  refine ends_idle rfl fun ref t _ _ ht _ => ends_health.bind ?_
  intro m u hu
  cases m with
  | none => exact ht.trans hu
  | some m =>
    rintro _ _ v ⟨-, -, rfl⟩
    exact ⟨trivial, ht.trans (hu.trans (keeps_after S u rfl))⟩

theorem ends_backfillRecord (n : ℕ) :
    Ends S ok (fun x t => x = .again pr ∧ Keeps s t) (backfillRecord r n pr) s := by
  refine ends_health.bind fun _ t ht => ends_idle rfl fun _ t' _ _ ht' _ => ?_
  refine ends_idle rfl fun _ u _ _ hu _ => ends_idle rfl ?_
  rintro _ u' rfl - hu' -
  refine ends_idle rfl fun pause v _ _ hv _ => ?_
  have hkeeps := ht.trans (ht'.trans (hu.trans (hu'.trans hv)))
  split_ifs
  · refine ends_idle rfl ?_
    rintro _ w rfl - hw -
    exact ⟨rfl, hkeeps.trans hw⟩
  · exact ⟨rfl, hkeeps⟩

/-- What a turn from the cursor `c` on comes to: rows have been filled, or none were left. -/
def TurnPost (S : Site V) (rows : List (Row V)) (s : World V) (c : ℤ) : Turn → World V → Prop
  | .again pr, t => c < pr.lastID ∧ remaining rows pr.lastID < remaining rows c ∧
      Keeps { s with rows := upTo S rows pr.lastID } t
  | .stop out, t => (∀ r ∈ rows, r.id ≤ c) ∧ Passes s out t

/-- After a batch that has filled the rows up to `q`. -/
theorem ends_backfillAdvance {q : Row V} (hr : r.plan = S.plan.plan) (hfresh : Fresh S rows)
    (hpr : 0 ≤ pr.lastID) (hq : q ∈ rows) (hlt : pr.lastID < q.id)
    (ht : Keeps { s with rows := upTo S rows q.id } t) (n : ℕ) :
    Ends S ok (TurnPost S rows s pr.lastID) (backfillAdvance r n pr) t := by
  refine ends_idle rfl ?_
  rintro _ u rfl - hu -
  have hmax : maxId t.rows r.plan.backfill.column pr.lastID = q.id := by
    rw [ht.rows, hr]
    exact maxId_filled hfresh.null hfresh.value hq hpr hlt
  dsimp only
  rw [hmax, if_neg (not_le.mpr hlt)]
  refine (ends_backfillRecord n).mono ?_
  rintro _ v ⟨rfl, hv⟩
  exact ⟨hlt, remaining_lt hq hlt, ht.trans (hu.trans hv)⟩

omit [DecidableEq V] in
theorem batchStmt_single (hmulti : S.plan.plan.backfill.multiSQL = "") : batchStmt S.plan.plan =
    .single S.plan.plan.table S.plan.plan.backfill.column S.plan.plan.backfill.sourceExpr :=
  if_neg (not_not.mpr hmulti)

omit [DecidableEq V] in
theorem Fresh.batch (hfresh : Fresh S rows) {q : Row V} {c limit : ℤ} (hlimit : 0 < limit) (hq : q ∈ rows)
    (hc : c < q.id) : ∃ q' ∈ rows, c < q'.id ∧
      selected (upTo S rows c) S.plan.plan.backfill.column c limit ≠ [] ∧
      updateRows S.eval (upTo S rows c) S.plan.plan.backfill.column S.plan.plan.backfill.sourceExpr
        (selected (upTo S rows c) S.plan.plan.backfill.column c limit) = upTo S rows q'.id :=
  exists_batch hfresh.null hlimit hq hc

omit [DecidableEq V] in
theorem selected_upTo {c limit : ℤ} (hdone : ∀ r ∈ rows, r.id ≤ c) :
    selected (upTo S rows c) S.plan.plan.backfill.column c limit = [] := selected_filled hdone

omit [DecidableEq V] in
/-- A batch changes the table only. -/
theorem keeps_batch {table col expr : String} {c limit : ℤ} {rows' : List (Row V)} (ht : Keeps s t)
    (hrows : updateRows S.eval t.rows col expr (selected t.rows col c limit) = rows') :
    Keeps { s with rows := rows' } (S.after t (.updateBatch (.single table col expr) c limit)) :=
  ⟨ht.state, hrows, ht.executed⟩

/-- **One turn of the backfill loop.** -/
theorem ends_backfillTurn (hr : r.plan = S.plan.plan) (hmulti : S.plan.plan.backfill.multiSQL = "")
    (hfresh : Fresh S rows) (hpr : 0 ≤ pr.lastID) (hrows : s.rows = upTo S rows pr.lastID) :
    Ends S (Favourable rows) (TurnPost S rows s pr.lastID) (backfillTurn r pr) s := by
  refine ends_idle rfl ?_
  rintro _ t rfl - ht -
  refine ends_idle rfl ?_
  rintro _ t' ⟨rfl, -⟩ - ht' -
  refine ends_updateHealth.bind fun _ u hu => ends_ask ?_
  rintro _ rfl -
  have hkeeps : Keeps s (S.after u .getBatchSize) :=
    ht.trans (ht'.trans (hu.trans (keeps_after S u rfl)))
  rw [hr, batchStmt_single hmulti]
  refine ends_ask ?_
  rintro _ ⟨hnonneg, rfl⟩ hlimit
  have hbatch : (S.after u .getBatchSize).rows = upTo S rows pr.lastID := hkeeps.rows.trans hrows
  set limit := u.throttle.currentBatchSize
  rw [Favourable, hbatch] at hlimit
  rw [hbatch]
  dsimp only
  by_cases hleft : ∃ q ∈ rows, pr.lastID < q.id
  · obtain ⟨q, hq, hc⟩ := hleft
    have hpos : 0 < limit :=
      lt_of_le_of_ne hnonneg (Ne.symm (hlimit ⟨q, mem_filled_of_lt hq hc, hfresh.null q hq⟩))
    obtain ⟨q', hq', hc', hne, hupdate⟩ := hfresh.batch hpos hq hc
    rw [if_neg (countP_selected_eq_zero.not.mpr hne)]
    refine ends_backfillAdvance hr hfresh hpr hq' hc' (keeps_batch hkeeps ?_) _
    rw [hbatch]
    exact hupdate
  · have hdone : ∀ q ∈ rows, q.id ≤ pr.lastID := fun q hq => not_lt.mp fun h => hleft ⟨q, hq, h⟩
    rw [if_pos (countP_selected_eq_zero.mpr (selected_upTo hdone))]
    refine ⟨hdone, ⟨_, rfl⟩, keeps_batch hkeeps ?_⟩
    rw [hbatch, selected_upTo hdone, updateRows_nil, hrows]

end Backfill

/-! ### From state to state -/

/-- Where a stretch leads. -/
def follows : Exit → Option Pt
  | .goto pt => some pt
  | .stop _ => none

/-- The run has come to `cur`, with these statements executed and this table. -/
structure At (cur : State) (stmts : List String) (table : List (Row V)) (s : World V) : Prop where
  state : s.state = cur
  rows : s.rows = table
  executed : s.executed = stmts

section Loop
variable {rows table : List (Row V)} {stmts l : List String} {cur dst : State} {delay : ℤ}
  {h : Record → Code Outcome}

omit [DecidableEq V] in
theorem At.sent (hs : At cur stmts table s) (ht : Sent l s t) : At cur (stmts ++ l) table t :=
  ⟨ht.state.trans hs.state, ht.rows.trans hs.rows, by rw [ht.executed, hs.executed]⟩

omit [DecidableEq V] in
theorem At.keeps (hs : At cur stmts table s) (ht : Keeps s t) : At cur stmts table t := by
  have := hs.sent ht
  rwa [List.append_nil] at this

/-- A result is persisted, and the run goes on. -/
theorem ends_finish {c : Checkpoint} (hnext : next cur = some dst) (hs : At cur stmts table s) :
    Ends S ok (fun x t => x = .goto (.loop dst) ∧ At dst stmts table t ∧ t.checkpoint = c)
      (finish delay S.id cur (.ok { checkpoint := c })) s := by
  have htarget : Result.target cur { checkpoint := c } = some dst := hnext
  unfold finish
  dsimp only
  rw [htarget]
  refine ends_ask ?_
  rintro _ rfl -
  have hat : At dst stmts table (S.after s (.saveState S.id cur dst c (isTerminal dst))) :=
    ⟨rfl, hs.rows, hs.executed⟩
  rw [if_pos rfl]
  unfold afterSave
  split_ifs
  · refine ends_ask ?_
    rintro _ rfl -
    exact ⟨rfl, hat.keeps (keeps_after S _ rfl), rfl⟩
  · exact ⟨rfl, hat, rfl⟩

/-- Up to the reloaded record. -/
theorem ends_pass {Q : Exit → World V → Prop} (hh : handlers delay cur = some h)
    (hterm : isTerminal cur = false) (hs : At cur stmts table s)
    (hrun : ∀ t r, At cur stmts table t → t.last = some (.load S.id) → r.plan = S.plan.plan →
      r.checkpoint = s.checkpoint.decode → Ends S ok Q (dispatch delay S.id cur h r) t) :
    Ends S ok Q (body delay S.id (.loop cur)) s := by
  unfold body
  dsimp only
  rw [hterm, if_neg Bool.false_ne_true]
  refine ends_ask ?_
  rintro _ rfl -
  have ht : Keeps s (S.after s .ctxDone) := keeps_after S s rfl
  rw [if_neg Bool.false_ne_true, hh]
  refine ends_idle rfl ?_
  rintro _ u rfl - hu hlast
  exact hrun u _ (hs.keeps (ht.trans hu)) hlast rfl rfl

/-- **One pass, with a handler that returns.** -/
theorem ends_loop (hh : handlers delay cur = some h) (hnext : next cur = some dst)
    (hskip : cur = .backfilling → S.plan.plan.backfill.column = "") (hs : At cur stmts table s)
    (hrun : ∀ t r, At cur stmts table t → t.last = some (.load S.id) → r.plan = S.plan.plan →
      Ends S ok (fun out u => (∃ c, out = .ok { checkpoint := c }) ∧ Sent l t u) (h r) t) :
    Ends S ok (fun x t => x = .goto (.loop dst) ∧ At dst (stmts ++ l) table t)
      (body delay S.id (.loop cur)) s := by
  have hterm : isTerminal cur = false := by
    cases cur <;> first | rfl | cases hnext
  refine ends_pass hh hterm hs fun t r ht hlast hr _ => ?_
  unfold dispatch
  rw [if_neg fun hcond => hcond.2 (hr ▸ hskip hcond.1)]
  refine (hrun t r ht hlast hr).bind ?_
  rintro _ u ⟨⟨c, rfl⟩, hu⟩
  exact (ends_finish hnext (ht.sent hu)).mono fun _ _ h => ⟨h.1, h.2.1⟩

/-- One turn leads to the next, or to `Verifying` once every row is filled. -/
theorem ends_batch {r : Record} {pr : Progress} (hr : r.plan = S.plan.plan)
    (hmulti : S.plan.plan.backfill.multiSQL = "") (hfresh : Fresh S rows) (hpr : 0 ≤ pr.lastID)
    (hs : At .backfilling stmts (upTo S rows pr.lastID) s) :
    Ends S (Favourable rows) (fun x t =>
      (∃ pr', x = .goto (.batch r pr') ∧ pr.lastID < pr'.lastID ∧
        remaining rows pr'.lastID < remaining rows pr.lastID ∧
          At .backfilling stmts (upTo S rows pr'.lastID) t) ∨
      x = .goto (.loop .verifying) ∧ (∀ q ∈ rows, q.id ≤ pr.lastID) ∧
        At .verifying stmts (upTo S rows pr.lastID) t) (body delay S.id (.batch r pr)) s := by
  refine (ends_backfillTurn hr hmulti hfresh hpr hs.rows).bind fun x t hx => ?_
  cases x with
  | again pr' =>
    obtain ⟨hlt, hrem, ht⟩ := hx
    have hat : At .backfilling stmts (upTo S rows pr'.lastID) { s with rows := upTo S rows pr'.lastID } :=
      ⟨hs.state, rfl, hs.executed⟩
    exact Or.inl ⟨pr', rfl, hlt, hrem, hat.keeps ht⟩
  | stop out =>
    obtain ⟨hdone, ⟨c, rfl⟩, ht⟩ := hx
    exact (ends_finish rfl (hs.keeps ht)).mono fun _ _ h => Or.inr ⟨h.1, hdone, h.2.1⟩

end Loop

/-! ### The run -/

/-- The run has got through. -/
def Completed (S : Site V) (x : Exit) (t : World V) : Prop :=
  x = .stop (.ok ()) ∧ t.state = .done ∧
    t.executed = S.plan.plan.expand ++ S.plan.plan.contract

/-- At most `n` stretches from `pt` on complete the run. -/
abbrev Completes (S : Site V) (ok : Condition V) (delay : ℤ) (n : ℕ) (pt : Pt) (s : World V) : Prop :=
  Terminates (S.Moves ok) (Completed S) (body delay S.id) follows n pt s

section Run
variable {rows table : List (Row V)} {pt pt' : Pt} {n : ℕ} {delay : ℤ} {P : World V → Prop}

theorem completes_goto (h : Ends S ok (fun x t => x = .goto pt' ∧ P t) (body delay S.id pt) s)
    (hP : ∀ t, P t → Completes S ok delay n pt' t) : Completes S ok delay (n + 1) pt s := by
  refine terminates_of_wp h ?_
  rintro _ t ⟨rfl, ht⟩
  exact Or.inr ⟨pt', rfl, hP t ht⟩

theorem completes_done (hs : At .done (S.plan.plan.expand ++ S.plan.plan.contract) table s) :
    Completes S ok delay 1 (.loop .done) s := ⟨rfl, hs.state, hs.executed⟩

theorem completes_contracting (hs : At .contracting S.plan.plan.expand table s) :
    Completes S ok delay 2 (.loop .contracting) s := by
  refine completes_goto (ends_loop rfl rfl (fun h => nomatch h) hs fun t r ht _ hr => ?_)
    fun t ht => completes_done ht
  rw [← hr]
  exact (ends_runStmts r.plan.contract (Or.inr ht.state)).mono fun _ _ h => ⟨⟨_, h.1⟩, h.2⟩

variable (hone : (threshold S.plan.plan).val ≤ 1)
  (hfresh : S.plan.plan.backfill.column ≠ "" → Fresh S rows)

include hone hfresh

theorem completes_cutover (hfull : Full S rows table) (hs : At .cutover S.plan.plan.expand table s) :
    Completes S (Favourable rows) delay 3 (.loop .cutover) s := by
  refine completes_goto (ends_loop rfl rfl (fun h => nomatch h) hs fun t r ht _ hr => ?_)
    fun t ht => completes_contracting (by rwa [List.append_nil] at ht)
  rw [← ht.rows] at hfull
  exact ends_cutover hr hone hfresh hfull

variable (hchaos : S.plan.plan.chaos.failCanaryAtStep = 0)

include hchaos

theorem completes_canary (hfull : Full S rows table) (hs : At .canary S.plan.plan.expand table s) :
    Completes S (Favourable rows) delay 4 (.loop .canary) s := by
  refine completes_goto (ends_loop rfl rfl (fun h => nomatch h) hs fun t r ht hlast hr => ?_)
    fun t ht => completes_cutover hone hfresh hfull (by rwa [List.append_nil] at ht)
  exact ends_canary hr hchaos ht.state hlast

theorem completes_verifying (hfull : Full S rows table) (hs : At .verifying S.plan.plan.expand table s) :
    Completes S (Favourable rows) delay 5 (.loop .verifying) s := by
  refine completes_goto (ends_loop rfl rfl (fun h => nomatch h) hs fun t r ht _ hr => ?_)
    fun t ht => completes_canary hone hfresh hchaos hfull (by rwa [List.append_nil] at ht)
  rw [← ht.rows] at hfull
  exact ends_verify hr hone hfresh hfull

variable (hmulti : S.plan.plan.backfill.multiSQL = "")

include hmulti

/-- **The backfill ends**, after at most as many turns as there are rows left. -/
theorem completes_batch (hcol : S.plan.plan.backfill.column ≠ "") {r : Record} (hr : r.plan = S.plan.plan)
    {k : ℕ} {pr : Progress} (hpr : 0 ≤ pr.lastID) (hk : remaining rows pr.lastID < k)
    (hs : At .backfilling S.plan.plan.expand (upTo S rows pr.lastID) s) :
    Completes S (Favourable rows) delay (k + 5) (.batch r pr) s := by
  induction k generalizing pr s with
  | zero => exact absurd hk (Nat.not_lt_zero _)
  | succ k ih =>
    refine terminates_of_wp (ends_batch hr hmulti (hfresh hcol) hpr hs) ?_
    rintro x t (⟨pr', rfl, hlt, hrem, ht⟩ | ⟨rfl, hdone, ht⟩)
    · exact Or.inr ⟨_, rfl, ih (by omega) (by omega) ht⟩
    · have hfull : Full S rows (upTo S rows pr.lastID) := fun _ => ⟨pr.lastID, hdone, rfl⟩
      exact Or.inr ⟨_, rfl, (completes_verifying hone hfresh hchaos hfull ht).mono (by omega)⟩

theorem completes_backfilling (hids : ∀ r ∈ rows, 0 < r.id)
    (hcheck : s.checkpoint.decode.int64 "last_id" = 0)
    (hs : At .backfilling S.plan.plan.expand rows s) :
    Completes S (Favourable rows) delay (rows.length + 7) (.loop .backfilling) s := by
  by_cases hcol : S.plan.plan.backfill.column = ""
  · have hskip : Completes S (Favourable rows) delay 6 (.loop .backfilling) s := by
      refine completes_goto (ends_loop rfl rfl (fun _ => hcol) hs fun t r ht _ hr => ?_)
        fun t ht => completes_verifying hone hfresh hchaos (fun h => absurd hcol h)
          (by rwa [List.append_nil] at ht)
      exact ⟨⟨_, rfl⟩, Keeps.refl t⟩
    exact hskip.mono (by omega)
  · -- the loop starts before the first row
    have hrows : rows = upTo S rows 0 := (filled_of_lt hids).symm
    have henter : Ends S (Favourable rows) (fun x t => ∃ r pr, x = .goto (.batch r pr) ∧
        r.plan = S.plan.plan ∧ pr.lastID = 0 ∧ At .backfilling S.plan.plan.expand rows t)
        (body delay S.id (.loop .backfilling)) s := by
      refine ends_pass rfl rfl hs fun t r ht _ hr hc => ?_
      unfold dispatch
      rw [if_pos ⟨rfl, hr ▸ hcol⟩]
      refine ends_idle rfl fun _ u _ _ hu _ => ends_idle rfl ?_
      rintro _ v rfl - hv -
      exact ⟨r, _, rfl, hr, hc ▸ hcheck, ht.keeps (hu.trans hv)⟩
    refine terminates_of_wp henter ?_
    rintro _ t ⟨r, pr, rfl, hr, hpr, ht⟩
    have hk : remaining rows pr.lastID < rows.length + 1 := Nat.lt_succ_of_le List.countP_le_length
    rw [hrows, ← hpr] at ht
    exact Or.inr ⟨_, rfl, completes_batch hone hfresh hchaos hmulti hcol hr hpr.ge hk ht⟩

theorem completes_expanding (hids : ∀ r ∈ rows, 0 < r.id) (hs : At .expanding [] rows s) :
    Completes S (Favourable rows) delay (rows.length + 8) (.loop .expanding) s := by
  have hexpand : Ends S (Favourable rows) (fun x t => x = .goto (.loop .backfilling) ∧
      At .backfilling S.plan.plan.expand rows t ∧
        t.checkpoint = [("expanded", .int S.plan.plan.expand.length)])
      (body delay S.id (.loop .expanding)) s := by
    refine ends_pass rfl rfl hs fun t r ht _ hr _ => ?_
    rw [← hr]
    refine (ends_runStmts r.plan.expand (Or.inl ht.state)).bind ?_
    rintro _ u ⟨rfl, hu⟩
    exact ends_finish rfl (ht.sent hu)
  refine completes_goto hexpand fun t ht => ?_
  exact completes_backfilling hone hfresh hchaos hmulti hids (by rw [ht.2]; rfl) ht.1

theorem completes_pending (hids : ∀ r ∈ rows, 0 < r.id) (hs : At .pending [] rows s) :
    Completes S (Favourable rows) delay (rows.length + 9) (.loop .pending) s := by
  refine completes_goto (ends_loop rfl rfl (fun h => nomatch h) hs fun t r ht _ hr => ?_)
    fun t ht => completes_expanding hone hfresh hchaos hmulti hids ht
  exact ⟨⟨_, rfl⟩, Keeps.refl t⟩

end Run

/-- What a fault-free run is given: a plan of the plain form, and a table nothing is filled in of. -/
structure Given (S : Site V) (rows : List (Row V)) : Prop where
  multiSQL : S.plan.plan.backfill.multiSQL = ""
  chaos : S.plan.plan.chaos.failCanaryAtStep = 0
  parityThreshold : S.plan.plan.verify.parityThreshold.val ≤ 1
  minParity : S.plan.plan.slo.minParity.val ≤ 1
  ids : ∀ r ∈ rows, 0 < r.id
  null : S.plan.plan.backfill.column ≠ "" → ∀ r ∈ rows, r.get S.plan.plan.backfill.column = none
  value : S.plan.plan.backfill.column ≠ "" →
    ∀ r ∈ rows, S.eval S.plan.plan.backfill.sourceExpr r ≠ none

/-- **Fault-free runs complete**, if all their steps are favourable: whatever the surroundings answer,
the run ends, in `Done`, having executed the Expand statements and then the Contract statements. -/
theorem run_completes {rows : List (Row V)} (h : Given S rows) (delay : ℤ) :
    ∃ n, Completes S (Favourable rows) delay n .start (World.init rows) := by
  have hone := threshold_le_one h.parityThreshold h.minParity
  have hfresh : S.plan.plan.backfill.column ≠ "" → Fresh S rows :=
    fun hcol => ⟨h.null hcol, h.value hcol⟩
  have hstart : Ends S (Favourable rows) (fun x t => x = .goto (.loop .pending) ∧ At .pending [] rows t)
      (body delay S.id .start) (World.init rows) := by
    refine ends_idle rfl ?_
    rintro _ t rfl - ht -
    exact ⟨rfl, At.keeps ⟨rfl, rfl, rfl⟩ ht⟩
  exact ⟨_, completes_goto hstart fun t ht =>
    completes_pending hone hfresh h.chaos h.multiSQL h.ids ht⟩

/-! ### One such run -/

/-- An answer of faultless surroundings, if there is one: no lag, nobody waiting, every row sampled. -/
def answer (S : Site V) (s : World V) : (op : Op) → Option op.Ret
  | .load _ => some (some (S.record s))
  | .saveState .. | .saveCheckpoint .. | .logDDLExecution .. | .logBackfillProgress ..
  | .logCanaryObservation .. => some true
  | .serviceCounts _ => some (some (S.services, S.services))
  | .ctxDone | .wait _ => some false
  | .sleep _ => some ()
  | .lockWaiting => some (some 0)
  | .blockingQuery => some true
  | .replicationLag => some (some (Float64.ofInt 0))
  | .connections => some (some (0, 100))
  | .deadTuples => some (some 0)
  | .beginTx | .setLocal _ | .txExec _ | .commit _ | .setTimeout _ | .poolExec _ | .terminateBackends =>
    some true
  | .columnExists .. => some (some true)
  | .countRemaining _ col lastID =>
    some (some (s.rows.countP fun row => (row.get col).isNone ∧ lastID < row.id))
  | .updateBatch (.single _ col _) lastID limit =>
    if 0 ≤ limit then some (some (s.rows.countP fun row => row.id ∈ selected s.rows col lastID limit))
    else none
  | .updateBatch (.multi ..) _ _ => none
  | .maxId _ col lastID => some (some (maxId s.rows col lastID))
  | .countNulls _ col => some (some (nullCount s.rows col))
  | .sampleParity _ col expr _ => some (some (matchCount S.eval s.rows col expr, s.rows.length))
  | .fullParity _ col expr =>
    some (some (s.rows.length, nullCount s.rows col, driftCount S.eval s.rows col expr))
  | .newThrottle _ | .throttleRef => some (0 : ℕ)
  | .adjustThrottle .. => some ()
  | .isCircuitTripped => if s.throttle.circuitTripped then none else some false
  | .getBatchSize => some s.throttle.currentBatchSize
  | .getThrottleMs => some s.throttle.currentThrottleMs

theorem answers_of_answer {r : op.Ret} (h : answer S s op = some r) : S.answers s op r := by
  cases op with
  | lockWaiting =>
    cases h
    exact ⟨0, rfl, fun _ => by decide⟩
  | replicationLag =>
    cases h
    have hzero : (Float64.ofInt 0).val = 0 := by simp [Float64.ofInt]
    exact ⟨_, rfl, fun hpos => hzero.trans_le (ofInt_pos hpos).le, fun _ => by
      unfold Safe
      decide +kernel⟩
  | updateBatch stmt lastID limit =>
    cases stmt with
    | single =>
      obtain ⟨hlimit, heq⟩ := Option.ite_none_right_eq_some.mp h
      cases heq
      exact ⟨hlimit, rfl⟩
    | multi => cases h
  | sampleParity =>
    cases h
    exact ⟨s.rows, List.Sublist.refl _, rfl⟩
  | isCircuitTripped =>
    obtain ⟨htripped, heq⟩ := Option.ite_none_left_eq_some.mp h
    cases heq
    exact ⟨rfl, Bool.eq_false_iff.mpr htripped⟩
  | _ =>
    cases h
    first | rfl | trivial

/-- The run in which every operation gets this answer. -/
def respond (S : Site V) (op : Op) (s : World V) : Option (op.Ret × World V) :=
  (answer S s op).map fun r => (r, S.after s op)

theorem completed_of_loop {delay : ℤ} {n m : ℕ} {pt : Pt} {x : Exit}
    (h : Completes S anyStep delay n pt s)
    (hloop : execLoop (respond S) (body delay S.id) follows m pt s = some (x, t)) :
    Completed S x t := by
  refine Terminates.of_loop ?_ h hloop
  intro op s r t hr
  obtain ⟨r', hans, heq⟩ := Option.map_eq_some_iff.mp hr
  cases heq
  exact ⟨(), answers_of_answer hans, trivial, rfl⟩

/-- A backfill of two rows. -/
def twoRows : List (Row ℕ) := [⟨1, fun _ => none⟩, ⟨2, fun _ => none⟩]

def siteOf (services : ℕ) : Site ℕ where
  id := 0
  plan := ⟨backfillPlan.prepare.withDefaults, accepted_backfillPlan⟩
  eval := fun _ _ => some 7
  services := services

theorem given_siteOf (services : ℕ) : Given (siteOf services) twoRows where
  multiSQL := rfl
  chaos := rfl
  parityThreshold := by
    show backfillPlan.prepare.withDefaults.verify.parityThreshold.val ≤ 1
    decide +kernel
  minParity := by
    show backfillPlan.prepare.withDefaults.slo.minParity.val ≤ 1
    decide +kernel
  ids := by decide
  null := fun _ => by simp [twoRows, Row.get]
  value := fun _ _ _ => Option.some_ne_none 7

/-- With a service registered the run gets through, and there is such a run. -/
theorem run_completes_two :
    (∃ n, Completes (siteOf 1) (Favourable twoRows) 0 n .start (World.init twoRows)) ∧
      ((execLoop (respond (siteOf 1)) (body 0 0) follows 12 .start (World.init twoRows)).any fun x =>
        x.2.state = .done && x.2.executed =
          ["ALTER TABLE t ADD COLUMN b int", "ALTER TABLE t DROP COLUMN a"]) = true :=
  ⟨run_completes (given_siteOf 1) 0, by decide +kernel⟩

/-- **Without a registered service the cutover refuses**, and the migration is rolled back. -/
theorem run_stuck : ¬∀ (S : Site ℕ) (rows : List (Row ℕ)) (delay : ℤ), Given S rows →
    ∃ n, Completes S anyStep delay n .start (World.init rows) := by
  intro h
  obtain ⟨n, hn⟩ := h (siteOf 0) twoRows 0 (given_siteOf 0)
  have hrun : ((execLoop (respond (siteOf 0)) (body 0 0) follows 12 .start
      (World.init twoRows)).any fun x => x.2.state = .rolledBack) = true := by decide +kernel
  obtain ⟨⟨x, t⟩, hloop, hstate⟩ := (Option.any_eq_true _ _).mp hrun
  have hdone := (completed_of_loop hn hloop).2.1
  rw [of_decide_eq_true hstate] at hdone
  cases hdone

end MigrationSafety.StateMachine.Completion
