import Mathlib.Data.List.TakeWhile
import MigrationSafety.StateMachine.CanarySteps

/-! # The fault knob

A step at or above `fail_canary_at_step` is observed far outside the limits of the plan (`Forced`). But
a limit of zero or below is no limit, so a forced step breaches only where one of the two is set
(`breaches_iff`).

* `follows_iff`: when the canary does what the knob says.
* `faithful_iff`: when its observations are logged once each, as they were judged. -/

namespace MigrationSafety.StateMachine.Knob

open MigrationSafety.Lib.Effects MigrationSafety.Lib.Binary64 MigrationSafety.Plan.Validate
open MigrationSafety.Safety.Executor
open MigrationSafety.Sql.Rows (ofInt_pos)
open MigrationSafety.StateMachine.Signature MigrationSafety.StateMachine.Handlers
open MigrationSafety.StateMachine.Trace (preflight_within)
open MigrationSafety.StateMachine.Gates (Gate StillLagging observed observedBy observed_cons
  observed_append preflight_runs stillLagging_append)
open MigrationSafety.StateMachine.CanarySteps

variable {p : MigrationPlan} {delay : ℤ} {r : Record} {step : ℤ} {tr t t' : List (Event engine)}

/-! ### The observation of a step -/

/-- The knob reaches the step. -/
def Forced (p : MigrationPlan) (step : ℤ) : Prop :=
  0 < p.chaos.failCanaryAtStep ∧ p.chaos.failCanaryAtStep ≤ step

instance (p : MigrationPlan) : DecidablePred (Forced p) := fun _ => inferInstanceAs (Decidable (_ ∧ _))

/-- One of the two limits is set. -/
def Limited (slo : SLO) : Prop := 0 < slo.maxP99LatencyMs ∨ 0 < slo.maxErrorRatePct.val

instance (slo : SLO) : Decidable (Limited slo) := inferInstanceAs (Decidable (_ ∨ _))

/-- The healthy baseline is within every limit. -/
theorem not_breaches (h : ¬Forced p step) : breaches p step = false := by
  have hobs : observeCanary p step =
      { p99Ms := (Float64.ofInt p.slo.maxP99LatencyMs).mul (Float64.ofRat (6 / 10))
        errPct := p.slo.maxErrorRatePct.mul (Float64.ofRat (3 / 10)) } := if_neg h
  unfold breaches sloBreached
  rw [hobs, if_neg, if_neg]
  · rfl
  · rintro ⟨hpos, hlt⟩
    exact absurd hlt (not_lt.mpr (Float64.val_mul_le hpos (by norm_num)))
  · rintro ⟨hpos, hlt⟩
    exact absurd hlt (not_lt.mpr (Float64.val_mul_le (ofInt_pos hpos) (by norm_num)))

/-- **A step breaches** where the knob reaches it and there is a limit. -/
theorem breaches_iff : breaches p step = true ↔ Forced p step ∧ Limited p.slo := by
  by_cases h : Forced p step
  · have hobs : observeCanary p step =
        { p99Ms := ((Float64.ofInt p.slo.maxP99LatencyMs).mul (Float64.ofInt 2)).add (Float64.ofInt 1)
          errPct := (p.slo.maxErrorRatePct.mul (Float64.ofInt 2)).add (Float64.ofInt 1) } := if_pos h
    have hp99 : 0 < p.slo.maxP99LatencyMs → (Float64.ofInt p.slo.maxP99LatencyMs).val <
        (((Float64.ofInt p.slo.maxP99LatencyMs).mul (Float64.ofInt 2)).add (Float64.ofInt 1)).val :=
      fun hpos => Float64.lt_double_add_one (ofInt_pos hpos)
    have herr : 0 < p.slo.maxErrorRatePct.val → p.slo.maxErrorRatePct.val <
        ((p.slo.maxErrorRatePct.mul (Float64.ofInt 2)).add (Float64.ofInt 1)).val :=
      Float64.lt_double_add_one
    unfold breaches sloBreached Limited
    rw [hobs]
    by_cases h1 : 0 < p.slo.maxP99LatencyMs
    · simp [h, h1, hp99 h1]
    · by_cases h2 : 0 < p.slo.maxErrorRatePct.val
      · simp [h, h1, h2, herr h2]
      · simp [h1, h2]
  · rw [not_breaches h]
    simp [h]

/-! ### What a canary leaves -/

/-- The checkpoint of a canary step an event has saved. -/
def savedBy : Event engine → Option Checkpoint
  | ⟨.saveCheckpoint _ .canary c, true⟩ => some c
  | _ => none

/-- **The checkpoints of the healthy steps**, in order. -/
def saved (tr : List (Event engine)) : List Checkpoint := tr.filterMap savedBy

@[simp] theorem saved_append (t t' : List (Event engine)) : saved (t ++ t') = saved t ++ saved t' :=
  List.filterMap_append

/-- A row of `canary_observation`. -/
structure ObservationRow where
  step : ℤ
  obs : CanaryObs
  sloBreached : Bool
deriving DecidableEq

/-- The row an event has inserted. -/
def insertedBy : Event engine → Option ObservationRow
  | ⟨.logCanaryObservation _ step obs b, true⟩ => some ⟨step, obs, b⟩
  | _ => none

/-- **The rows inserted**, in order. -/
def inserted (tr : List (Event engine)) : List ObservationRow := tr.filterMap insertedBy

@[simp] theorem inserted_append (t t' : List (Event engine)) :
    inserted (t ++ t') = inserted t ++ inserted t' := List.filterMap_append

/-- No insert into `canary_observation` has failed. -/
def InsertsSucceed (tr : List (Event engine)) : Prop :=
  ∀ id step obs b, ⟨.logCanaryObservation id step obs b, false⟩ ∉ tr

/-- The row of an observation, as it is judged. -/
def rowOf (slo : SLO) (x : ℤ × CanaryObs) : ObservationRow := ⟨x.1, x.2, (sloBreached x.2 slo).isSome⟩

/-- **The rows are those of the observations**, one each and in order. -/
def Faithful (r : Record) (tr : List (Event engine)) : Prop :=
  inserted tr = (observed tr).map (rowOf r.plan.slo)

/-! ### An undisturbed canary -/

/-- The context is not cancelled, and the checkpoint is saved. -/
def Calm : Event engine → Prop
  | ⟨.ctxDone, b⟩ | ⟨.wait _, b⟩ => b = false
  | ⟨.saveCheckpoint .., b⟩ => b = true
  | _ => True

/-- Nothing stops the canary: neither the lag of the replicas nor a cancellation nor the store. -/
structure Undisturbed (r : Record) (tr : List (Event engine)) : Prop where
  lag : ¬Gate.canaryLag.Refuses r tr
  stepLag : ¬Gate.canaryStepLag.Refuses r tr
  calm : ∀ ev ∈ tr, Calm ev

/-- The canary stops at a step, after those before it, and follows `on_failure`. -/
structure StopsAt (r : Record) (before : List ℤ) (step : ℤ) (tr : List (Event engine)) (out : Outcome) :
    Prop where
  observed : observed tr = (before ++ [step]).map (observation r.plan)
  saved : saved tr = before.map percent
  rollback : r.plan.onFailure = .rollback → ∃ c, out = .ok { checkpoint := c, next := some .rollingBack }
  pause : r.plan.onFailure = .pause → ∃ e, out = .error e

/-- The canary takes the happy path, after all of its steps. -/
structure Passes (r : Record) (steps : List ℤ) (tr : List (Event engine)) (out : Outcome) : Prop where
  observed : observed tr = steps.map (observation r.plan)
  saved : saved tr = steps.map percent
  happy : out = .ok { checkpoint := percent 100 }

/-- **What the canary is to do** if it breaches at the steps of which `P` holds. -/
def Decides (P : ℤ → Bool) (r : Record) (steps : List ℤ) (tr : List (Event engine)) (out : Outcome) :
    Prop :=
  match steps.find? P with
  | none => Passes r steps tr out
  | some step => StopsAt r (steps.takeWhile fun s => !P s) step tr out

/-! ### What a canary does -/

theorem stillLagging_mono {slo : SLO} (h : StillLagging slo t) (ht : t <:+: t') : StillLagging slo t' :=
  h.imp fun _ hlag => ⟨hlag.1, hlag.2.trans ht⟩

/-- The check before a step only gives up on a lag that stays. -/
theorem stillLagging_of_preflight {slo : SLO} {why : Refusal} (h : Runs (preflight slo) t (some why)) :
    StillLagging slo t := by
  have hp : (preflight slo).Post (fun t x => x = some why → StillLagging slo t) [] := by
    simp only [preflight, checkReplicationLag, Prog.perform_bind, post_call, Option.forall, post_ite,
      post_ret, Prog.pure_eq, reduceCtorEq, false_imp_iff, implies_true, true_and, and_true]
    intro lag _ _ lag' hlag _
    exact ⟨lag', hlag, (List.suffix_cons _ _).isInfix⟩
  exact hp.runs h rfl

theorem saved_of_kind (h : ∀ ev ∈ t, Op.kind ev.op ≠ .journal) : saved t = [] := by
  refine List.filterMap_eq_nil_iff.mpr fun ev hev => ?_
  obtain ⟨op, ans⟩ := ev
  cases op <;> first | rfl | exact absurd rfl (h _ hev)

/-- A step is observed, and then either breaches or is checkpointed. -/
theorem canaryObserve_calm {x : Option Outcome} (h : Runs (canaryObserve delay r step) t x)
    (hcalm : ∀ ev ∈ t, Calm ev) : observed t = [observation r.plan step] ∧
      if breaches r.plan step then
        saved t = [] ∧ ∃ out, x = some out ∧
          (r.plan.onFailure = .rollback → ∃ c, out = .ok { checkpoint := c, next := some .rollingBack }) ∧
          (r.plan.onFailure = .pause → ∃ e, out = .error e)
      else saved t = [percent step] ∧ x = none := by
  have hp : (canaryObserve delay r step).Post (fun t x => (∀ ev ∈ t, Calm ev) →
      observed t = [observation r.plan step] ∧
      if breaches r.plan step then
        saved t = [] ∧ ∃ out, x = some out ∧
          (r.plan.onFailure = .rollback → ∃ c, out = .ok { checkpoint := c, next := some .rollingBack }) ∧
          (r.plan.onFailure = .pause → ∃ e, out = .error e)
      else saved t = [percent step] ∧ x = none) [] := by
    cases hb : sloBreached (observeCanary r.plan step) r.plan.slo with
    | none =>
      simp [canaryObserve, hb, canaryHealthy, observed_cons, observedBy, observation, breaches, saved,
        savedBy, Calm, percent]
      exact ⟨⟨fun _ => rfl, fun _ => rfl⟩, fun _ => rfl, fun _ => rfl⟩
    | some why =>
      simp only [canaryObserve, hb, canaryBreached, Prog.perform_bind, Prog.bind_call, post_call]
      intro _ _
      by_cases hf : r.plan.onFailure = .rollback
      · simp [hf, hb, observed_cons, observedBy, observation, breaches, saved, savedBy]
      · simp [hf, hb, observed_cons, observedBy, observation, breaches, saved, savedBy]
  exact hp.runs h hcalm

/-- One step, if nothing stops it. -/
theorem canaryStep_calm {x : Option Outcome} (h : Runs (canaryStep delay r step) t x)
    (hlag : ¬StillLagging r.plan.slo t) (hcalm : ∀ ev ∈ t, Calm ev) :
    observed t = [observation r.plan step] ∧
      if breaches r.plan step then
        saved t = [] ∧ ∃ out, x = some out ∧
          (r.plan.onFailure = .rollback → ∃ c, out = .ok { checkpoint := c, next := some .rollingBack }) ∧
          (r.plan.onFailure = .pause → ∃ e, out = .error e)
      else saved t = [percent step] ∧ x = none := by
  obtain ⟨b, t1, rfl, h1⟩ := runs_perform_bind.mp h
  obtain rfl : b = false := hcalm ⟨.ctxDone, b⟩ List.mem_cons_self
  obtain ⟨t2, t3, why, rfl, h2, h3⟩ := runs_bind.mp h1
  cases why with
  | some why =>
    obtain ⟨rfl, -⟩ := runs_ret.mp h3
    have hinfix : t2 <:+: ⟨.ctxDone, false⟩ :: (t2 ++ []) := by
      rw [List.append_nil]
      exact (List.suffix_cons _ _).isInfix
    exact absurd (stillLagging_mono (stillLagging_of_preflight h2) hinfix) hlag
  | none =>
    have hcalm3 : ∀ ev ∈ t3, Calm ev := fun ev hev =>
      hcalm ev (List.mem_cons_of_mem _ (List.mem_append_right _ hev))
    obtain ⟨hobs, hx⟩ := canaryObserve_calm h3 hcalm3
    have hkind : ∀ ev ∈ t2, Op.kind ev.op ≠ .journal := fun ev hev hk => by
      have := ((preflight_within r.plan.slo).after h2).2 ev hev
      simp [hk] at this
    have hobs' : observed (⟨.ctxDone, false⟩ :: (t2 ++ t3)) = observed t3 := by
      rw [observed_cons, observed_append, (preflight_runs h2).1]
      rfl
    have hsaved' : saved (⟨.ctxDone, false⟩ :: (t2 ++ t3)) = saved t3 := by
      rw [← List.singleton_append, saved_append, saved_append, saved_of_kind hkind]
      rfl
    rw [hobs', hsaved']
    exact ⟨hobs, hx⟩

/-- A healthy step before the others. -/
theorem Decides.cons {P : ℤ → Bool} {steps : List ℤ} {out : Outcome} (h : Decides P r steps t' out)
    (hstep : P step = false) (hobs : observed t = [observation r.plan step])
    (hsaved : saved t = [percent step]) : Decides P r (step :: steps) (t ++ t') out := by
  unfold Decides at h ⊢
  rw [List.find?_cons_of_neg (by simp [hstep])]
  cases hfind : steps.find? P with
  | none =>
    rw [hfind] at h
    obtain ⟨hobs', hsaved', hhappy⟩ := h
    exact ⟨by simp [hobs, hobs'], by simp [hsaved, hsaved'], hhappy⟩
  | some s =>
    rw [hfind] at h
    obtain ⟨hobs', hsaved', hrollback, hpause⟩ := h
    refine ⟨?_, ?_, hrollback, hpause⟩
    · simp [hobs, hobs', hstep]
    · simp [hsaved, hsaved', hstep]

/-- **An undisturbed canary stops at the first step that breaches**, by induction on the steps. -/
theorem canarySteps_decides {steps : List ℤ} {out : Outcome} (h : Runs (canarySteps delay r steps) t out)
    (hlag : ¬StillLagging r.plan.slo t) (hcalm : ∀ ev ∈ t, Calm ev) :
    Decides (breaches r.plan) r steps t out := by
  induction steps generalizing t with
  | nil =>
    obtain ⟨rfl, rfl⟩ := runs_ret.mp h
    exact ⟨rfl, rfl, rfl⟩
  | cons step steps ih =>
    obtain ⟨t1, t2, x, rfl, h1, h2⟩ := runs_bind.mp h
    have hlag1 : ¬StillLagging r.plan.slo t1 := fun hl =>
      hlag (stillLagging_mono hl (List.prefix_append _ _).isInfix)
    have hlag2 : ¬StillLagging r.plan.slo t2 := fun hl =>
      hlag (stillLagging_mono hl (List.suffix_append _ _).isInfix)
    obtain ⟨hobs, hx⟩ := canaryStep_calm h1 hlag1 fun ev hev => hcalm ev (List.mem_append_left _ hev)
    cases hb : breaches r.plan step
    · rw [hb] at hx
      obtain ⟨hsaved, rfl⟩ := hx
      exact (ih h2 hlag2 fun ev hev => hcalm ev (List.mem_append_right _ hev)).cons hb hobs hsaved
    · rw [hb] at hx
      obtain ⟨hsaved, out', rfl, hrollback, hpause⟩ := hx
      obtain ⟨rfl, rfl⟩ := runs_ret.mp h2
      unfold Decides
      rw [List.find?_cons_of_pos hb, List.append_nil]
      exact ⟨by simp [hobs, hb], by simp [hsaved, hb], hrollback, hpause⟩

theorem canary_decides {out : Outcome} (h : Runs (canary delay r) tr out) (hu : Undisturbed r tr) :
    Decides (breaches r.plan) r r.plan.canary.steps tr out := by
  obtain ⟨x, t, rfl, h'⟩ := runs_perform_bind.mp h
  have hlag : ¬StillLagging r.plan.slo t := fun hl =>
    hu.stepLag (stillLagging_mono hl (List.suffix_cons _ _).isInfix)
  have hcalm : ∀ ev ∈ t, Calm ev := fun ev hev => hu.calm ev (List.mem_cons_of_mem _ hev)
  have hcons : Decides (breaches r.plan) r r.plan.canary.steps t out →
      Decides (breaches r.plan) r r.plan.canary.steps (⟨.replicationLag, x⟩ :: t) out := by
    unfold Decides
    cases r.plan.canary.steps.find? (breaches r.plan) with
    | none => exact fun hd => ⟨hd.observed, hd.saved, hd.happy⟩
    | some s => exact fun hd => ⟨hd.observed, hd.saved, hd.rollback, hd.pause⟩
  cases x with
  | none => exact hcons (canarySteps_decides h' hlag hcalm)
  | some lag =>
    dsimp only at h'
    split_ifs at h' with hlt
    · exact absurd ⟨lag, hlt, t, rfl⟩ hu.lag
    · exact hcons (canarySteps_decides h' hlag hcalm)

/-! ### A run without disturbance -/

/-- Every write succeeds, the context is not cancelled, and the check of the replicas is skipped. -/
def Smooth : Event engine → Prop
  | ⟨.ctxDone, b⟩ | ⟨.wait _, b⟩ => b = false
  | ⟨.saveCheckpoint .., b⟩ | ⟨.logCanaryObservation .., b⟩ => b = true
  | ⟨.replicationLag, x⟩ => x = none
  | _ => True

theorem exists_smooth (op : Op) : ∃ ans, Smooth ⟨op, ans⟩ := by
  cases op
  case ctxDone => exact ⟨false, rfl⟩
  case wait => exact ⟨false, rfl⟩
  case saveCheckpoint => exact ⟨true, rfl⟩
  case logCanaryObservation => exact ⟨true, rfl⟩
  case replicationLag => exact ⟨none, rfl⟩
  all_goals exact ⟨default, trivial⟩

/-- A canary has such a run. -/
theorem exists_undisturbed (delay : ℤ) (r : Record) : ∃ tr out, Runs (canary delay r) tr out ∧
    Undisturbed r tr ∧ InsertsSucceed tr := by
  obtain ⟨tr, out, h, hall⟩ := exists_runs (P := Smooth) exists_smooth (canary delay r)
  have hlag : ∀ lag, ⟨.replicationLag, some lag⟩ ∉ tr := fun lag hmem => nomatch hall _ hmem
  refine ⟨tr, out, h, ⟨?_, ?_, fun ev hev => ?_⟩, fun id step obs b hmem => nomatch hall _ hmem⟩
  · rintro ⟨lag, -, hpre⟩
    exact hlag lag (hpre.mem List.mem_cons_self)
  · rintro ⟨lag, -, hin⟩
    exact hlag lag (hin.mem (by simp))
  · obtain ⟨op, ans⟩ := ev
    cases op <;> first | trivial | exact hall _ hev

/-! ### The knob -/

/-- **The canary follows the knob.** -/
def Follows (delay : ℤ) (r : Record) : Prop :=
  ∀ tr out, Runs (canary delay r) tr out → Undisturbed r tr →
    Decides (Forced r.plan) r r.plan.canary.steps tr out

theorem find?_breaches (h : (∀ s ∈ r.plan.canary.steps, ¬Forced r.plan s) ∨ Limited r.plan.slo) :
    ∀ s ∈ r.plan.canary.steps, breaches r.plan s = decide (Forced r.plan s) := by
  intro s hs
  rw [Bool.eq_iff_iff, breaches_iff, decide_eq_true_iff]
  rcases h with h | h
  · exact iff_of_false (fun hb => h s hs hb.1) (h s hs)
  · exact and_iff_left h

theorem find?_takeWhile_congr {P Q : ℤ → Bool} {steps : List ℤ} (h : ∀ s ∈ steps, P s = Q s) :
    steps.find? P = steps.find? Q ∧
      (steps.takeWhile fun s => !P s) = steps.takeWhile fun s => !Q s := by
  induction steps with
  | nil => exact ⟨rfl, rfl⟩
  | cons s steps ih =>
    obtain ⟨hs, hsteps⟩ := List.forall_mem_cons.mp h
    obtain ⟨hfind, htake⟩ := ih hsteps
    rw [List.find?_cons, List.find?_cons, List.takeWhile_cons, List.takeWhile_cons, hs, hfind, htake]
    exact ⟨rfl, rfl⟩

/-- What is to happen only depends on the steps of the plan. -/
theorem Decides.congr {P Q : ℤ → Bool} {steps : List ℤ} {out : Outcome} (h : Decides P r steps tr out)
    (hPQ : ∀ s ∈ steps, P s = Q s) : Decides Q r steps tr out := by
  obtain ⟨hfind, htake⟩ := find?_takeWhile_congr hPQ
  unfold Decides at h ⊢
  rwa [← hfind, ← htake]

/-- A step of which `P` holds is not among those before the first. -/
theorem length_takeWhile_lt {P : ℤ → Bool} {steps : List ℤ} {s : ℤ} (h : steps.find? P = some s) :
    (steps.takeWhile fun s => !P s).length < steps.length := by
  have hpre : (steps.takeWhile fun s => !P s) <+: steps := List.takeWhile_prefix _
  refine hpre.length_le.lt_of_ne fun heq => ?_
  have hs : s ∈ steps.takeWhile fun s => !P s := by
    rw [hpre.eq_of_length heq]
    exact List.mem_of_find?_eq_some h
  have hnot := List.mem_takeWhile_imp hs
  rw [List.find?_some h] at hnot
  cases hnot

/-- **When the canary follows the knob**: when it reaches no step, or one of the two limits is set. -/
theorem follows_iff (delay : ℤ) (r : Record) : Follows delay r ↔
    (∀ s ∈ r.plan.canary.steps, ¬Forced r.plan s) ∨ Limited r.plan.slo := by
  constructor
  · intro h
    by_contra hno
    obtain ⟨hforced, hlimit⟩ := not_or.mp hno
    -- without a limit nothing breaches, so an undisturbed canary checkpoints every step
    obtain ⟨tr, out, hruns, hu, -⟩ := exists_undisturbed delay r
    have hpass := canary_decides hruns hu
    have hfollow := h tr out hruns hu
    have hnone : r.plan.canary.steps.find? (breaches r.plan) = none :=
      List.find?_eq_none.mpr fun s _ hb => hlimit (breaches_iff.mp hb).2
    unfold Decides at hpass hfollow
    rw [hnone] at hpass
    cases hfind : r.plan.canary.steps.find? (Forced r.plan) with
    | none =>
      exact hforced fun s hs => by simpa using List.find?_eq_none.mp hfind s hs
    | some s =>
      rw [hfind] at hfollow
      have hmap := congrArg List.length (hpass.saved.symm.trans hfollow.saved)
      rw [List.length_map, List.length_map] at hmap
      exact absurd hmap.symm (length_takeWhile_lt hfind).ne
  · intro h tr out hruns hu
    exact (canary_decides hruns hu).congr (find?_breaches h)

/-- A plan without limits whose knob is at the first step. -/
def unlimitedPlan : MigrationPlan := { plainPlan with chaos := { failCanaryAtStep := 1 } }

theorem validate_unlimitedPlan : validate unlimitedPlan = .ok unlimitedPlan.prepare.withDefaults := by
  decide +kernel

theorem accepted_unlimitedPlan : Accepted unlimitedPlan.prepare.withDefaults :=
  (validate_ok validate_unlimitedPlan).2

/-- Its canary passes: the observation is above a limit of zero, which is none. -/
theorem not_follows : ¬∀ (delay : ℤ) (p : ValidPlan) (r : Record), r.plan = p.plan → Follows delay r := by
  intro h
  have hfollows := h 0 ⟨_, accepted_unlimitedPlan⟩
    { id := 0, plan := unlimitedPlan.prepare.withDefaults, state := .canary } rfl
  exact absurd ((follows_iff _ _).mp hfollows) (by decide +kernel)

/-! ### The rows -/

/-- The observation of a step is judged as the step is. -/
theorem rowOf_observation (p : MigrationPlan) (step : ℤ) :
    rowOf p.slo (observation p step) = ⟨step, observeCanary p step, breaches p step⟩ := rfl

/-- What a canary logs that does not breach. -/
def LogsHealthy (r : Record) : Op → Prop
  | .logCanaryObservation _ step obs b =>
    b = false ∧ obs = observeCanary r.plan step ∧ breaches r.plan step = false
  | _ => True

theorem canary_logsHealthy (h : ∀ s ∈ r.plan.canary.steps, breaches r.plan s = false) :
    (canary delay r).All (LogsHealthy r) fun _ => True := by
  have hspec : (canary delay r).Spec (CanaryAsk r) (CanaryDone r) [] := canary_spec
  refine hspec.all (fun t op hop => ?_) fun _ _ _ => trivial
  cases hop with
  | other hk => cases op <;> first | trivial | exact absurd hk (by simp [Op.kind])
  | observe hs hw => exact ⟨rfl, rfl, h _ (hs ▸ List.mem_append_right _ List.mem_cons_self)⟩
  | breach hs hw ht hb =>
    have hhealthy := h _ (hs ▸ List.mem_append_right _ List.mem_cons_self)
    exact absurd hb (by rw [hhealthy]; exact Bool.false_ne_true)
  | save hb ho => trivial

theorem inserted_eq {ev : Event engine} (h : LogsHealthy r ev.op)
    (hok : ∀ id step obs b, ev ≠ ⟨.logCanaryObservation id step obs b, false⟩) :
    insertedBy ev = (observedBy ev).map (rowOf r.plan.slo) := by
  obtain ⟨op, ans⟩ := ev
  cases op <;> first | rfl | skip
  case logCanaryObservation id step obs b =>
    obtain ⟨rfl, rfl, hb⟩ := h
    cases ans with
    | false => exact absurd rfl (hok _ _ _ _)
    | true =>
      show some _ = some (rowOf r.plan.slo (observation r.plan step))
      rw [rowOf_observation, hb]

/-- The row of an observation says at first that it is healthy. -/
theorem insertedBy_of_observedBy {ev : Event engine} {x : ℤ × CanaryObs} (h : observedBy ev = some x)
    (hok : ∀ id step obs b, ev ≠ ⟨.logCanaryObservation id step obs b, false⟩) :
    insertedBy ev = some ⟨x.1, x.2, false⟩ := by
  obtain ⟨op, ans⟩ := ev
  cases op <;> try cases h
  case logCanaryObservation id step obs b =>
    cases b with
    | true => cases h
    | false =>
      cases h
      cases ans with
      | false => exact absurd rfl (hok _ _ _ _)
      | true => rfl

/-- **Every observation has its row, and every row its observation**, at any point of any invocation. -/
def LogsFaithfully (delay : ℤ) (r : Record) : Prop :=
  ∀ tr c, After (canary delay r) tr c → InsertsSucceed tr → Faithful r tr

/-- **When the rows are faithful**: when no step of the plan breaches. -/
theorem faithful_iff (delay : ℤ) (r : Record) : LogsFaithfully delay r ↔
    (∀ s ∈ r.plan.canary.steps, ¬Forced r.plan s) ∨ ¬Limited r.plan.slo := by
  have hcond : (∀ s ∈ r.plan.canary.steps, ¬Forced r.plan s) ∨ ¬Limited r.plan.slo ↔
      ∀ s ∈ r.plan.canary.steps, breaches r.plan s = false := by
    simp only [← Bool.not_eq_true, breaches_iff, not_and]
    constructor
    · rintro (h | h) s hs hforced
      · exact absurd hforced (h s hs)
      · exact h
    · intro h
      by_cases hl : Limited r.plan.slo
      · exact Or.inl fun s hs hforced => h s hs hforced hl
      · exact Or.inr hl
  rw [hcond]
  constructor
  · intro h
    obtain ⟨tr, out, hruns, hu, hok⟩ := exists_undisturbed delay r
    have hfaithful := h tr _ hruns hok
    have hdecides := canary_decides hruns hu
    unfold Decides at hdecides
    cases hfind : r.plan.canary.steps.find? (breaches r.plan) with
    | none => exact fun s hs => Bool.eq_false_iff.mpr (List.find?_eq_none.mp hfind s hs)
    | some s =>
      -- the row written before the step is judged says that it is healthy
      rw [hfind] at hdecides
      have hmem : observation r.plan s ∈ observed tr := by
        rw [hdecides.observed]
        simp
      obtain ⟨ev, hev, hby⟩ := List.mem_filterMap.mp hmem
      have hrow : (⟨s, observeCanary r.plan s, false⟩ : ObservationRow) ∈ inserted tr :=
        List.mem_filterMap.mpr ⟨ev, hev, insertedBy_of_observedBy hby fun _ _ _ _ heq =>
          hok _ _ _ _ (heq ▸ hev)⟩
      rw [hfaithful] at hrow
      obtain ⟨x, -, hx⟩ := List.mem_map.mp hrow
      have hbreach : breaches r.plan s = true := List.find?_some hfind
      obtain ⟨rfl, hobs, hflag⟩ := ObservationRow.mk.inj hx
      rw [hobs] at hflag
      exact absurd (hbreach.symm.trans hflag) (by decide)
  · intro h tr c hafter hok
    have hhealthy : (canary delay r).All (LogsHealthy r) fun _ => True := canary_logsHealthy h
    have hall := (hhealthy.after hafter).2
    unfold Faithful inserted observed
    rw [List.map_filterMap]
    refine List.filterMap_congr fun ev hev => inserted_eq (hall ev hev) ?_
    rintro id step obs b rfl
    exact hok _ _ _ _ hev

theorem accepted_breachingPlan : Accepted breachingPlan.prepare.withDefaults :=
  (validate_ok (show validate breachingPlan = .ok breachingPlan.prepare.withDefaults by
    decide +kernel)).2

/-- A breach at the first step is logged twice, first as healthy. -/
theorem not_logsFaithfully : ¬∀ (delay : ℤ) (p : ValidPlan) (r : Record), r.plan = p.plan →
    LogsFaithfully delay r := by
  intro h
  have hfaithful := h 0 ⟨_, accepted_breachingPlan⟩
    { id := 0, plan := breachingPlan.prepare.withDefaults, state := .canary } rfl
  exact absurd ((faithful_iff _ _).mp hfaithful) (by decide +kernel)

end MigrationSafety.StateMachine.Knob
