import MigrationSafety.StateMachine.Trace

/-! # The gates

Between Expand and Contract a migration passes seven gates. What each was shown is in the trace of
its handler (`Gate.Refuses`), and so is what the canary observed (`observed`).

* `canary_runs`: a canary that has passed has observed every step, without a breach.
* `cutover_runs`: a cutover that has passed has measured no NULL, and parity at the threshold.
* `rollingBack_iff`: only the SLO gate and the gates of the cutover obey `on_failure`. -/

namespace MigrationSafety.StateMachine.Gates

open MigrationSafety.Lib.Effects MigrationSafety.Lib.Binary64
open MigrationSafety.Plan.Validate MigrationSafety.Safety.Executor MigrationSafety.Sql.Rows
open MigrationSafety.StateMachine.Signature MigrationSafety.StateMachine.Handlers
open MigrationSafety.StateMachine.Run

inductive Gate
  | verifyNulls
  | verifyParity
  | canaryLag
  | canaryStepLag
  | canarySlo
  | cutoverService
  | cutoverParity
deriving DecidableEq

/-- The state whose handler evaluates the gate. -/
def Gate.state : Gate → State
  | verifyNulls | verifyParity => .verifying
  | canaryLag | canaryStepLag | canarySlo => .canary
  | cutoverService | cutoverParity => .cutover

/-! ### What the gates were shown -/

/-- The step and the observation an event logs, before it is judged. -/
def observedBy : Event engine → Option (ℤ × CanaryObs)
  | ⟨.logCanaryObservation _ step obs false, _⟩ => some (step, obs)
  | _ => none

/-- **The observations of a canary**, in order. -/
def observed (t : List (Event engine)) : List (ℤ × CanaryObs) := t.filterMap observedBy

@[simp] theorem observed_nil : observed [] = [] := rfl

@[simp] theorem observed_append (t t' : List (Event engine)) :
    observed (t ++ t') = observed t ++ observed t' := List.filterMap_append

theorem observed_cons (ev : Event engine) (t : List (Event engine)) :
    observed (ev :: t) = (observedBy ev).toList ++ observed t := by
  unfold observed
  rw [List.filterMap_cons]
  cases observedBy ev <;> rfl

/-- Some observation violates the SLO. -/
def Breached (slo : SLO) (t : List (Event engine)) : Prop :=
  ∃ x ∈ observed t, sloBreached x.2 slo ≠ none

/-- The lag is over three times the limit after the wait. -/
def StillLagging (slo : SLO) (t : List (Event engine)) : Prop :=
  ∃ lag : Float64, (lagLimit slo 3).val < lag.val ∧
    [⟨.sleep (5 * second), ()⟩, ⟨.replicationLag, some lag⟩] <:+: t

/-- **The gate has been shown what it does not let pass.** -/
def Gate.Refuses (r : Record) (t : List (Event engine)) : Gate → Prop
  | verifyNulls => ∃ nulls : ℕ, 0 < nulls ∧
      ⟨.countNulls r.plan.table r.plan.backfill.column, some nulls⟩ ∈ t
  | verifyParity => ∃ matching sampled : ℕ,
      (ratio matching sampled).val < (threshold r.plan).val ∧
        ⟨.sampleParity r.plan.table r.plan.backfill.column r.plan.backfill.sourceExpr
          (sampleRate r.plan), some (matching, sampled)⟩ ∈ t
  | canaryLag => ∃ lag : Float64, (Float64.ofInt r.plan.slo.maxP99LatencyMs).val < lag.val ∧
      [⟨.replicationLag, some lag⟩] <+: t
  | canaryStepLag => StillLagging r.plan.slo t
  | canarySlo => Breached r.plan.slo t
  | cutoverService => ∃ c c' : ℕ × ℕ, allServicesReady c = false ∧ allServicesReady c' = false ∧
      [⟨.serviceCounts r.id, some c⟩, ⟨.sleep (5 * second), ()⟩,
        ⟨.serviceCounts r.id, some c'⟩] <+: t
  | cutoverParity => ∃ total nulls drifted : ℕ,
      (0 < nulls ∨ (parity total drifted).val < (threshold r.plan).val) ∧
        ⟨.fullParity r.plan.table r.plan.backfill.column r.plan.backfill.sourceExpr,
          some (total, nulls, drifted)⟩ ∈ t

/-! ### Verify -/

section Verify
variable {r : Record} {t : List (Event engine)} {out : Outcome}

/-- A verification that is shown a NULL or too little parity fails. -/
theorem verify_refused (h : Runs (verify r) t out)
    (hg : Gate.verifyNulls.Refuses r t ∨ Gate.verifyParity.Refuses r t) : ∃ e, out = .error e := by
  have hp : (verify r).Post (fun t out =>
      (Gate.verifyNulls.Refuses r t ∨ Gate.verifyParity.Refuses r t) → ∃ e, out = .error e) [] := by
    by_cases hcol : r.plan.backfill.column = ""
    · simp [verify, hcol, Gate.Refuses]
    · simp only [verify, hcol, verifySample, if_false, Prog.perform_bind, post_call, Option.forall,
        post_ite, post_ret, Prog.pure_eq]
      refine ⟨fun _ => ⟨_, rfl⟩, fun nulls => ⟨fun _ _ => ⟨_, rfl⟩, fun hnull => ⟨fun _ => ⟨_, rfl⟩,
        fun c => ⟨fun _ _ => ⟨_, rfl⟩, fun hpar => ?_⟩⟩⟩⟩
      rintro (⟨k, hk, hmem⟩ | ⟨matching, sampled, hlt, hmem⟩)
      · simp at hmem
        omega
      · simp at hmem
        subst hmem
        exact absurd hlt hpar
  exact hp.runs h hg

end Verify

/-! ### Canary -/

section Canary
variable {delay : ℤ} {r : Record} {slo : SLO} {step : ℤ} {t t' : List (Event engine)}

theorem not_stillLagging (h : ∀ ev ∈ t, ev.op ≠ .replicationLag) : ¬StillLagging slo t := by
  rintro ⟨lag, -, hin⟩
  exact h ⟨.replicationLag, some lag⟩ (hin.mem (by simp)) rfl

theorem stillLagging_cons {ev : Event engine} (h : ev.op ≠ .sleep (5 * second)) :
    StillLagging slo (ev :: t) ↔ StillLagging slo t := by
  unfold StillLagging
  refine exists_congr fun lag => and_congr_right fun _ => ?_
  rw [List.infix_cons_iff, List.cons_prefix_cons]
  exact or_iff_right fun hev => h (hev.1 ▸ rfl)

/-- A wait and the reading after it are not torn apart. -/
theorem stillLagging_append (h : ∀ lag, t'.head? ≠ some ⟨.replicationLag, some lag⟩) :
    StillLagging slo (t ++ t') ↔ StillLagging slo t ∨ StillLagging slo t' := by
  constructor
  · rintro ⟨lag, hlag, hin⟩
    rcases List.infix_append_iff_ne_nil.mp hin with hin | hin | ⟨l, l', hl, hl', heq, -, hpre⟩
    · exact Or.inl ⟨lag, hlag, hin⟩
    · exact Or.inr ⟨lag, hlag, hin⟩
    · -- the reading would be the first event of `t'`
      match l, l', hl, hl' with
      | [x], y :: l', _, _ =>
        obtain ⟨-, rfl, rfl⟩ := by simpa using heq
        exact absurd (List.singleton_prefix_iff_head?_eq_some.mp hpre) (h lag)
      | x :: x' :: l, y :: l', _, _ => simp at heq
  · rintro (⟨lag, hlag, hin⟩ | ⟨lag, hlag, hin⟩)
    · exact ⟨lag, hlag, List.infix_append_of_infix_left hin⟩
    · exact ⟨lag, hlag, List.infix_append_of_infix_right hin⟩

/-- The canary is not followed by the cutover, but, if the plan says so, by a rollback. -/
def Diverted (p : MigrationPlan) (out : Outcome) : Prop :=
  persistedNext .canary out =
    if p.onFailure = .rollback then some .rollingBack else none

/-- The check before a step lets it go on, unless the lag stays. -/
theorem preflight_runs {x : Option Refusal} (h : Runs (preflight slo) t x) :
    observed t = [] ∧ (x = none → ¬StillLagging slo t) := by
  have hp : (preflight slo).Post
      (fun t x => observed t = [] ∧ (x = none → ¬StillLagging slo t)) [] := by
    simp only [preflight, checkReplicationLag, Prog.perform_bind, post_call, Option.forall,
      post_ite, post_ret, Prog.pure_eq]
    simp [observed_cons, observedBy, StillLagging, List.infix_cons_iff]
  exact hp.runs h

theorem canaryObserve_runs {x : Option Outcome} (h : Runs (canaryObserve delay r step) t x) :
    observed t = [(step, observeCanary r.plan step)] ∧ (∀ ev ∈ t, ev.op ≠ .replicationLag) ∧
      match sloBreached (observeCanary r.plan step) r.plan.slo with
      | none => x = none ∨ ∃ e, x = some (.error e)
      | some _ => ∃ out, x = some out ∧ Diverted r.plan out := by
  have hp : (canaryObserve delay r step).Post (fun t x =>
      observed t = [(step, observeCanary r.plan step)] ∧ (∀ ev ∈ t, ev.op ≠ .replicationLag) ∧
        match sloBreached (observeCanary r.plan step) r.plan.slo with
        | none => x = none ∨ ∃ e, x = some (.error e)
        | some _ => ∃ out, x = some out ∧ Diverted r.plan out) [] := by
    cases hb : sloBreached (observeCanary r.plan step) r.plan.slo with
    | none => simp [canaryObserve, hb, canaryHealthy, observed_cons, observedBy]
    | some why =>
      simp only [canaryObserve, hb, canaryBreached, Prog.perform_bind, Prog.bind_call, post_call]
      intro _ _
      by_cases hf : r.plan.onFailure = .rollback
      · simp [hf, observed_cons, observedBy, Diverted, persistedNext, Result.target]
      · simp [hf, observed_cons, observedBy, Diverted, persistedNext]
  exact hp.runs h

/-- One step is healthy, or fails without a breach, or breaches. -/
theorem canaryStep_runs {x : Option Outcome} (h : Runs (canaryStep delay r step) t x) :
    (x = none ∧ observed t = [(step, observeCanary r.plan step)] ∧ ¬Breached r.plan.slo t ∧
        ¬StillLagging r.plan.slo t) ∨
      (∃ e, x = some (.error e) ∧ ¬Breached r.plan.slo t) ∨
      ∃ out, x = some out ∧ Diverted r.plan out ∧ ¬StillLagging r.plan.slo t := by
  obtain ⟨b, t1, rfl, h1⟩ := runs_perform_bind.mp h
  cases b with
  | true =>
    obtain ⟨rfl, rfl⟩ := runs_ret.mp h1
    exact Or.inr (Or.inl ⟨_, rfl, by simp [Breached, observed_cons, observedBy]⟩)
  | false =>
    have hctx : ∀ u : List (Event engine), observed (⟨.ctxDone, false⟩ :: u) = observed u :=
      fun u => observed_cons _ _
    obtain ⟨t2, t3, why, rfl, h2, h3⟩ := runs_bind.mp h1
    obtain ⟨hobs, hlag⟩ := preflight_runs h2
    cases why with
    | some why =>
      obtain ⟨rfl, rfl⟩ := runs_ret.mp h3
      refine Or.inr (Or.inl ⟨_, rfl, ?_⟩)
      simp [Breached, hctx, hobs]
    | none =>
      obtain ⟨hobs', hread, hx⟩ := canaryObserve_runs h3
      have hobs'' : observed (⟨.ctxDone, false⟩ :: (t2 ++ t3)) =
          [(step, observeCanary r.plan step)] := by
        rw [hctx, observed_append, hobs, hobs', List.nil_append]
      have hlag' : ¬StillLagging r.plan.slo (⟨.ctxDone, false⟩ :: (t2 ++ t3)) := by
        rw [stillLagging_cons (by simp), stillLagging_append]
        · rintro (hl | hl)
          · exact hlag rfl hl
          · exact not_stillLagging hread hl
        · exact fun lag hhead => hread _ (List.mem_of_mem_head? hhead) rfl
      cases hb : sloBreached (observeCanary r.plan step) r.plan.slo with
      | none =>
        rw [hb] at hx
        have hbr : ¬Breached r.plan.slo (⟨.ctxDone, false⟩ :: (t2 ++ t3)) := by
          simp [Breached, hobs'', hb]
        rcases hx with rfl | ⟨e, rfl⟩
        · exact Or.inl ⟨rfl, hobs'', hbr, hlag'⟩
        · exact Or.inr (Or.inl ⟨e, rfl, hbr⟩)
      | some why =>
        rw [hb] at hx
        obtain ⟨out, rfl, hd⟩ := hx
        exact Or.inr (Or.inr ⟨out, rfl, hd, hlag'⟩)

/-- How a canary over these steps ends. -/
inductive CanaryEnd (p : MigrationPlan) (steps : List ℤ) (t : List (Event engine)) : Outcome → Prop
  | passed {c : Checkpoint} (hs : (observed t).map Prod.fst = steps) (hb : ¬Breached p.slo t)
      (hl : ¬StillLagging p.slo t) : CanaryEnd p steps t (.ok { checkpoint := c })
  | failed {e : HandlerError} (hb : ¬Breached p.slo t) : CanaryEnd p steps t (.error e)
  | breached {out : Outcome} (hd : Diverted p out) (hl : ¬StillLagging p.slo t) :
      CanaryEnd p steps t out

theorem breached_append {t t' : List (Event engine)} :
    Breached slo (t ++ t') ↔ Breached slo t ∨ Breached slo t' := by
  simp [Breached, or_and_right, exists_or]

/-- By induction on the steps. -/
theorem canarySteps_runs {steps : List ℤ} {out : Outcome}
    (h : Runs (canarySteps delay r steps) t out) : CanaryEnd r.plan steps t out := by
  induction steps generalizing t with
  | nil =>
    obtain ⟨rfl, rfl⟩ := runs_ret.mp h
    exact .passed rfl (by simp [Breached]) (not_stillLagging (by simp))
  | cons step steps ih =>
    obtain ⟨t1, t2, x, rfl, h1, h2⟩ := runs_bind.mp h
    rcases canaryStep_runs h1 with ⟨rfl, hobs, hb, hl⟩ | ⟨e, rfl, hb⟩ | ⟨out', rfl, hd, hl⟩
    · -- the rest of the steps starts with a look at the context
      have hhead : ∀ lag, t2.head? ≠ some ⟨.replicationLag, some lag⟩ := by
        rintro lag
        cases steps with
        | nil =>
          obtain ⟨rfl, -⟩ := runs_ret.mp h2
          simp
        | cons step' steps =>
          obtain ⟨u1, u2, y, rfl, hu, -⟩ := runs_bind.mp h2
          obtain ⟨b, u3, rfl, -⟩ := runs_perform_bind.mp hu
          simp
      cases ih h2 with
      | passed hs hb' hl' =>
        refine .passed (by simp [hobs, hs]) ?_ ?_
        · rw [breached_append]
          exact not_or.mpr ⟨hb, hb'⟩
        · rw [stillLagging_append hhead]
          exact not_or.mpr ⟨hl, hl'⟩
      | failed hb' =>
        refine .failed ?_
        rw [breached_append]
        exact not_or.mpr ⟨hb, hb'⟩
      | breached hd hl' =>
        refine .breached hd ?_
        rw [stillLagging_append hhead]
        exact not_or.mpr ⟨hl, hl'⟩
    · obtain ⟨rfl, rfl⟩ := runs_ret.mp h2
      exact .failed (by rwa [List.append_nil])
    · obtain ⟨rfl, rfl⟩ := runs_ret.mp h2
      exact .breached hd (by rwa [List.append_nil])

/-- An event that is neither an observation nor a wait makes no difference. -/
theorem CanaryEnd.cons {p : MigrationPlan} {steps : List ℤ} {out : Outcome} {ev : Event engine}
    (h : CanaryEnd p steps t out) (hev : observedBy ev = none) (hs : ev.op ≠ .sleep (5 * second)) :
    CanaryEnd p steps (ev :: t) out := by
  have hobs : observed (ev :: t) = observed t := by rw [observed_cons, hev]; rfl
  have hbr : ∀ slo, Breached slo (ev :: t) ↔ Breached slo t := fun slo => by
    unfold Breached
    rw [hobs]
  cases h with
  | passed hst hb hl =>
    exact .passed (by rw [hobs, hst]) (by rwa [hbr]) (by rwa [stillLagging_cons hs])
  | failed hb => exact .failed (by rwa [hbr])
  | breached hd hl => exact .breached hd (by rwa [stillLagging_cons hs])

/-- **The canary** observes its steps until one breaches, and fails on a lag it is shown first. -/
theorem canary_runs {out : Outcome} (h : Runs (canary delay r) t out) :
    CanaryEnd r.plan r.plan.canary.steps t out ∧
      (Gate.canaryLag.Refuses r t → ∃ e, out = .error e) := by
  obtain ⟨x, t', rfl, h'⟩ := runs_perform_bind.mp h
  have hcons : ∀ out, CanaryEnd r.plan r.plan.canary.steps t' out →
      CanaryEnd r.plan r.plan.canary.steps (⟨.replicationLag, x⟩ :: t') out :=
    fun out hc => hc.cons rfl (by simp)
  cases x with
  | none => exact ⟨hcons _ (canarySteps_runs h'), by simp [Gate.Refuses]⟩
  | some lag =>
    dsimp only at h'
    split_ifs at h' with hlag
    · obtain ⟨rfl, rfl⟩ := runs_ret.mp h'
      exact ⟨hcons _ (.failed (by simp [Breached])), fun _ => ⟨_, rfl⟩⟩
    · refine ⟨hcons _ (canarySteps_runs h'), ?_⟩
      rintro ⟨lag', hlag', hpre⟩
      obtain rfl : lag' = lag := by simpa using hpre
      exact absurd hlag' hlag

end Canary

/-! ### Cutover -/

section Cutover
variable {r : Record} {t : List (Event engine)} {out : Outcome}

/-- The service gate is closed, or has not been shown two checks that fail. -/
theorem serviceGate_runs {why : Option Refusal} (h : Runs (serviceGate r.id) t why) :
    (∀ ev ∈ t, Op.kind ev.op ≠ .column) ∧
      ((why = none ∧ ∀ u, ¬Gate.cutoverService.Refuses r (t ++ u)) ∨ ∃ n, why = some n) := by
  have hp : (serviceGate r.id).Post (fun t why => (∀ ev ∈ t, Op.kind ev.op ≠ .column) ∧
      ((why = none ∧ ∀ u, ¬Gate.cutoverService.Refuses r (t ++ u)) ∨ ∃ n, why = some n)) [] := by
    simp only [serviceGate, Prog.perform_bind, post_call, Option.forall, post_ite, post_ret,
      Prog.pure_eq]
    refine ⟨by simp [Op.kind, Gate.Refuses], fun c => ⟨fun hc => ?_, fun hc _ => ⟨?_, fun c' =>
      ⟨fun hc' => ?_, fun hc' => ?_⟩⟩⟩⟩
    · simp [Op.kind, Gate.Refuses]
      grind
    · simp [Op.kind, Gate.Refuses]
    · simp [Op.kind, Gate.Refuses]
      grind
    · simp [Op.kind]
  exact hp.runs h

/-- A refusal at cutover. -/
theorem persistedNext_cutoverAbort (p : MigrationPlan) (c : Checkpoint) (why : Refusal) :
    persistedNext .cutover (cutoverAbort p c why) =
      if p.onFailure = .rollback then some .rollingBack else none := by
  unfold cutoverAbort
  split_ifs <;> rfl

/-- **The cutover** passes only on a full-table measurement that the thresholds allow, and a refusal
follows `on_failure`. -/
theorem cutover_runs (h : Runs (cutover r) t out) :
    (persistedNext .cutover out = some .contracting → r.plan.backfill.column = "" ∨
      ∃ total drifted : ℕ, (threshold r.plan).val ≤ (parity total drifted).val ∧
        ⟨.fullParity r.plan.table r.plan.backfill.column r.plan.backfill.sourceExpr,
          some (total, 0, drifted)⟩ ∈ t) ∧
      (Gate.cutoverService.Refuses r t ∨ Gate.cutoverParity.Refuses r t →
        persistedNext .cutover out =
          if r.plan.onFailure = .rollback then some .rollingBack else none) := by
  obtain ⟨t1, t2, why, rfl, h1, h2⟩ := runs_bind.mp h
  obtain ⟨hk, hwhy⟩ := serviceGate_runs h1
  have hno : ∀ x, (⟨.fullParity r.plan.table r.plan.backfill.column r.plan.backfill.sourceExpr, x⟩ :
      Event engine) ∉ t1 := fun x hx => hk _ hx rfl
  rcases hwhy with ⟨rfl, hserv⟩ | ⟨why, rfl⟩
  · dsimp only at h2
    split_ifs at h2 with hcol
    · obtain ⟨rfl, rfl⟩ := runs_ret.mp h2
      refine ⟨fun _ => Or.inl hcol, ?_⟩
      rintro (hs | ⟨total, nulls, drifted, -, hm⟩)
      · exact absurd hs (hserv [])
      · rw [List.append_nil] at hm
        exact absurd hm (hno _)
    · obtain ⟨x, t3, rfl, h3⟩ := runs_perform_bind.mp h2
      cases x with
      | none =>
        obtain ⟨rfl, rfl⟩ := runs_ret.mp h3
        refine ⟨by simp [persistedNext], ?_⟩
        rintro (hs | ⟨total, nulls, drifted, -, hm⟩)
        · exact absurd hs (hserv _)
        · simp [hno] at hm
      | some x =>
        obtain ⟨total, nulls, drifted⟩ := x
        dsimp only at h3
        split_ifs at h3 with hbad
        · obtain ⟨rfl, rfl⟩ := runs_ret.mp h3
          rw [persistedNext_cutoverAbort]
          exact ⟨by split_ifs <;> simp, fun _ => rfl⟩
        · obtain ⟨rfl, rfl⟩ := runs_ret.mp h3
          obtain ⟨hnull, hpar⟩ := not_or.mp hbad
          obtain rfl : nulls = 0 := by omega
          refine ⟨fun _ => Or.inr ⟨total, drifted, not_lt.mp hpar, by simp⟩, ?_⟩
          rintro (hs | ⟨total', nulls', drifted', hlt, hm⟩)
          · exact absurd hs (hserv _)
          · simp [hno] at hm
            obtain ⟨rfl, rfl, rfl⟩ := hm
            exact absurd hlt hbad
  · obtain ⟨rfl, rfl⟩ := runs_ret.mp h2
    rw [persistedNext_cutoverAbort]
    exact ⟨by split_ifs <;> simp, fun _ => rfl⟩

end Cutover

/-! ### The gates and `on_failure` -/

/-- **Which gates obey `on_failure`**: a refusal leads to `RollingBack` exactly at the SLO gate of the
canary and at the two gates of the cutover. -/
theorem rollingBack_iff {delay : ℤ} {g : Gate} {handler : Record → Code Outcome} {r : Record}
    {t : List (Event engine)} {out : Outcome} (hh : handlers delay g.state = some handler)
    (hf : r.plan.onFailure = .rollback) (hr : Runs (handler r) t out) (hg : g.Refuses r t) :
    persistedNext g.state out = some .rollingBack ↔
      g = .canarySlo ∨ g = .cutoverService ∨ g = .cutoverParity := by
  have herr : (∃ e, out = .error e) → persistedNext g.state out ≠ some .rollingBack := by
    rintro ⟨e, rfl⟩
    simp [persistedNext]
  cases g with
  | verifyNulls =>
    cases hh
    exact iff_of_false (herr (verify_refused hr (Or.inl hg))) (by simp)
  | verifyParity =>
    cases hh
    exact iff_of_false (herr (verify_refused hr (Or.inr hg))) (by simp)
  | canaryLag =>
    cases hh
    exact iff_of_false (herr ((canary_runs hr).2 hg)) (by simp)
  | canaryStepLag =>
    cases hh
    refine iff_of_false (herr ?_) (by simp)
    cases (canary_runs hr).1 with
    | passed _ _ hl => exact absurd hg hl
    | failed _ => exact ⟨_, rfl⟩
    | breached _ hl => exact absurd hg hl
  | canarySlo =>
    cases hh
    refine iff_of_true ?_ (by simp)
    cases (canary_runs hr).1 with
    | passed _ hb _ => exact absurd hg hb
    | failed hb => exact absurd hg hb
    | breached hd _ => exact hd.trans (if_pos hf)
  | cutoverService =>
    cases hh
    exact iff_of_true (((cutover_runs hr).2 (Or.inl hg)).trans (if_pos hf)) (by simp)
  | cutoverParity =>
    cases hh
    exact iff_of_true (((cutover_runs hr).2 (Or.inr hg)).trans (if_pos hf)) (by simp)

/-- A record of the plan with one backfilled column. -/
def sampleRecord (cur : State) : Record :=
  { id := 0, plan := backfillPlan.prepare.withDefaults, state := cur }

/-- A NULL at cutover leads to `RollingBack`. -/
theorem rollingBack_iff_cutover : ∃ out,
    Runs (cutover (sampleRecord .cutover))
      [⟨.serviceCounts 0, some (1, 1)⟩, ⟨.fullParity "t" "b" "a", some (1, 1, 1)⟩] out ∧
      persistedNext .cutover out = some .rollingBack := by
  have hr : ∃ out, Runs (cutover (sampleRecord .cutover))
      [⟨.serviceCounts 0, some (1, 1)⟩, ⟨.fullParity "t" "b" "a", some (1, 1, 1)⟩] out :=
    ⟨_, After.cons (After.cons After.nil)⟩
  obtain ⟨out, hout⟩ := hr
  refine ⟨out, hout, (@rollingBack_iff 0 .cutoverParity _ _ _ _ rfl ?_ hout ?_).mpr
    (Or.inr (Or.inr rfl))⟩
  · decide +kernel
  · exact ⟨1, 1, 1, Or.inl one_pos, List.Mem.tail _ (List.Mem.head _)⟩

/-- **A NULL at verification parks the migration.** -/
theorem verify_parks : ¬∀ (delay : ℤ) (g : Gate) (handler : Record → Code Outcome) (r : Record)
    (t : List (Event engine)) (out : Outcome), Accepted r.plan →
      handlers delay g.state = some handler → r.plan.onFailure = .rollback →
      Runs (handler r) t out → g.Refuses r t → persistedNext g.state out = some .rollingBack := by
  intro hall
  have hr : ∃ out, Runs (verify (sampleRecord .verifying)) [⟨.countNulls "t" "b", some 1⟩] out :=
    ⟨_, After.cons After.nil⟩
  obtain ⟨out, hout⟩ := hr
  have hg : Gate.verifyNulls.Refuses (sampleRecord .verifying) [⟨.countNulls "t" "b", some 1⟩] :=
    ⟨1, one_pos, List.Mem.head _⟩
  obtain ⟨e, rfl⟩ := verify_refused hout (Or.inl hg)
  have := hall 0 .verifyNulls _ _ _ _ accepted_backfillPlan rfl
    (by decide +kernel) hout hg
  cases this

end MigrationSafety.StateMachine.Gates
