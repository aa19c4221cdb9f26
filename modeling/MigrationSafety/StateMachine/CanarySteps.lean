import MigrationSafety.StateMachine.Gates

/-! # The steps of a canary

A canary works through the steps of its plan from the first one, whatever has been persisted. `Walked`
is what it leaves when it has been through some of them: each has been observed, in order, was healthy
and has been checkpointed. `canary_spec` says once what a canary asks for on the way. -/

namespace MigrationSafety.StateMachine.CanarySteps

open MigrationSafety.Lib.Effects MigrationSafety.Plan.Validate MigrationSafety.Safety.Executor
open MigrationSafety.StateMachine.Signature MigrationSafety.StateMachine.Handlers
open MigrationSafety.StateMachine.Trace (preflight_within)
open MigrationSafety.StateMachine.Gates (observedBy observed observed_append observed_nil)

variable {delay : ℤ} {r : Record} {step : ℤ} {walked rest : List ℤ} {tr t : List (Event engine)}

/-- The checkpoint of a healthy step. -/
def percent (step : ℤ) : Checkpoint := [("canary_pct", .int step)]

/-- The observation of the step violates the SLO. -/
def breaches (p : MigrationPlan) (step : ℤ) : Bool :=
  (sloBreached (observeCanary p step) p.slo).isSome

/-- A step and what is observed at it. -/
def observation (p : MigrationPlan) (step : ℤ) : ℤ × CanaryObs := (step, observeCanary p step)

/-- **The percentage an event has published.** A step is published just before it is logged, and 100%
just before the state after the canary is saved. -/
def traffic : Event engine → Option ℤ
  | ⟨.logCanaryObservation _ step _ _, _⟩ => some step
  | ⟨.saveState _ .canary .cutover _ _, _⟩ => some 100
  | _ => none

/-- The only state that is saved with traffic. -/
theorem traffic_saveState {i : Id} {src dst : State} {c : Checkpoint} {b r : Bool} {s : ℤ}
    (h : traffic ⟨.saveState i src dst c b, r⟩ = some s) : src = .canary ∧ dst = .cutover ∧ s = 100 := by
  unfold traffic at h
  split at h
  · rename_i heq
    cases heq
  · rename_i heq
    cases heq
    exact ⟨rfl, rfl, (Option.some.inj h).symm⟩
  · cases h

/-- The steps have been observed, were healthy and have been checkpointed. -/
structure Walked (r : Record) (walked : List ℤ) (tr : List (Event engine)) : Prop where
  observed : Gates.observed tr = walked.map (observation r.plan)
  published : tr.filterMap traffic = walked
  logged : ∀ s ∈ walked, ∃ b,
    ⟨.logCanaryObservation r.id s (observeCanary r.plan s) false, b⟩ ∈ tr
  saved : ∀ s ∈ walked, ⟨.saveCheckpoint r.id .canary (percent s), true⟩ ∈ tr
  healthy : ∀ s ∈ walked, breaches r.plan s = false

theorem walked_nil (r : Record) : Walked r [] [] := ⟨rfl, rfl, by simp, by simp, by simp⟩

/-- Events that are no observations change nothing. -/
theorem Walked.append (h : Walked r walked tr)
    (ht : ∀ ev ∈ t, observedBy ev = none ∧ traffic ev = none) : Walked r walked (tr ++ t) := by
  refine ⟨?_, ?_, fun s hs => (h.logged s hs).imp fun _ hm => List.mem_append_left _ hm,
    fun s hs => List.mem_append_left _ (h.saved s hs), h.healthy⟩
  · have hnil : Gates.observed t = [] := List.filterMap_eq_nil_iff.mpr fun ev hev => (ht ev hev).1
    rw [observed_append, h.observed, hnil, List.append_nil]
  · rw [List.filterMap_append, h.published, List.filterMap_eq_nil_iff.mpr fun ev hev => (ht ev hev).2,
      List.append_nil]

theorem unpublished_of_kind {ev : Event engine} (h : Op.kind ev.op ≠ .journal)
    (h' : Op.kind ev.op ≠ .cursor) : observedBy ev = none ∧ traffic ev = none := by
  obtain ⟨op, ans⟩ := ev
  cases op <;> first | exact ⟨rfl, rfl⟩ | exact absurd rfl h | exact absurd rfl h'

/-- What a canary may ask for. -/
inductive CanaryAsk (r : Record) (tr : List (Event engine)) : Op → Prop
  | other {op : Op} (h : op.kind = .probe ∨ op.kind = .clock) : CanaryAsk r tr op
  | observe {walked rest : List ℤ} {step : ℤ} (hs : walked ++ step :: rest = r.plan.canary.steps)
      (hw : Walked r walked tr) :
      CanaryAsk r tr (.logCanaryObservation r.id step (observeCanary r.plan step) false)
  | breach {walked rest : List ℤ} {step : ℤ} {t : List (Event engine)} {b : Bool}
      (hs : walked ++ step :: rest = r.plan.canary.steps) (hw : Walked r walked t)
      (ht : tr = t ++ [⟨.logCanaryObservation r.id step (observeCanary r.plan step) false, b⟩])
      (hb : breaches r.plan step = true) :
      CanaryAsk r tr (.logCanaryObservation r.id step (observeCanary r.plan step) true)
  | save {step : ℤ} {b : Bool} (hb : breaches r.plan step = false)
      (ho : ⟨.logCanaryObservation r.id step (observeCanary r.plan step) false, b⟩ ∈ tr) :
      CanaryAsk r tr (.saveCheckpoint r.id .canary (percent step))

/-- How a canary ends. -/
inductive CanaryDone (r : Record) (tr : List (Event engine)) : Outcome → Prop
  | passed (hw : Walked r r.plan.canary.steps tr) :
      CanaryDone r tr (.ok { checkpoint := percent 100 })
  | failed {e : HandlerError} : CanaryDone r tr (.error e)
  | breached {walked rest : List ℤ} {step : ℤ} {why : Refusal}
      (hs : walked ++ step :: rest = r.plan.canary.steps)
      (hw : ∀ s ∈ walked, breaches r.plan s = false) (hb : breaches r.plan step = true)
      (hf : r.plan.onFailure = .rollback) : CanaryDone r tr
        (.ok { checkpoint := [("canary_pct", .int step), ("slo_breach", .text why.text)]
               next := some .rollingBack })

/-- How a step ends, after those before it. -/
def StepDone (r : Record) (walked : List ℤ) (step : ℤ) (tr : List (Event engine)) :
    Option Outcome → Prop
  | none => Walked r (walked ++ [step]) tr
  | some out => CanaryDone r tr out

/-- The observation of a step, after the steps before it. -/
theorem canaryObserve_spec (hs : walked ++ step :: rest = r.plan.canary.steps)
    (hw : Walked r walked tr) :
    (canaryObserve delay r step).Spec (CanaryAsk r) (StepDone r walked step) tr := by
  refine spec_perform_bind.mpr ⟨.observe hs hw, fun b => ?_⟩
  cases hb : sloBreached (observeCanary r.plan step) r.plan.slo with
  | some why =>
    have hbr : breaches r.plan step = true := by simp [breaches, hb]
    refine spec_perform_bind.mpr ⟨.breach hs hw rfl hbr, fun b' => ?_⟩
    by_cases hf : r.plan.onFailure = .rollback
    · rw [if_pos hf]
      exact CanaryDone.breached hs hw.healthy hbr hf
    · rw [if_neg hf]
      exact CanaryDone.failed
  | none =>
    have hbr : breaches r.plan step = false := by simp [breaches, hb]
    have hobs : observed (tr ++ [⟨.logCanaryObservation r.id step (observeCanary r.plan step) false,
        b⟩]) = (walked ++ [step]).map (observation r.plan) := by
      rw [observed_append, hw.observed, List.map_append]
      rfl
    refine spec_perform_bind.mpr ⟨.save hbr (List.mem_append_right _ List.mem_cons_self), fun ok => ?_⟩
    cases ok with
    | false => exact CanaryDone.failed
    | true =>
      have hw' : Walked r (walked ++ [step]) (tr ++ [⟨.logCanaryObservation r.id step
          (observeCanary r.plan step) false, b⟩] ++
            [⟨.saveCheckpoint r.id .canary (percent step), true⟩]) := by
        refine ⟨?_, ?_, fun s hmem => ?_, fun s hmem => ?_, fun s hmem => ?_⟩
        · rw [observed_append, hobs]
          exact List.append_nil _
        · rw [List.filterMap_append, List.filterMap_append, hw.published]
          exact List.append_nil _
        · rcases List.mem_append.mp hmem with hmem | hmem
          · obtain ⟨b', hb'⟩ := hw.logged s hmem
            exact ⟨b', by simp [hb']⟩
          · exact ⟨b, by simp [List.mem_singleton.mp hmem]⟩
        · rcases List.mem_append.mp hmem with hmem | hmem
          · simp [hw.saved s hmem]
          · simp [List.mem_singleton.mp hmem]
        · rcases List.mem_append.mp hmem with hmem | hmem
          · exact hw.healthy s hmem
          · rw [List.mem_singleton.mp hmem, hbr]
      by_cases hd : 0 < delay
      · simp only [if_true, if_pos hd]
        refine spec_perform_bind.mpr ⟨.other (Or.inr rfl), fun c => ?_⟩
        cases c with
        | true => exact CanaryDone.failed
        | false => exact hw'.append (by simp [observedBy, traffic])
      · simp only [if_true, if_neg hd]
        exact hw'

theorem canaryStep_spec (hs : walked ++ step :: rest = r.plan.canary.steps)
    (hw : Walked r walked tr) :
    (canaryStep delay r step).Spec (CanaryAsk r) (StepDone r walked step) tr := by
  refine spec_perform_bind.mpr ⟨.other (Or.inr rfl), fun b => ?_⟩
  cases b with
  | true => exact CanaryDone.failed
  | false =>
    have hw0 : Walked r walked (tr ++ [⟨.ctxDone, false⟩]) := hw.append (by simp [observedBy, traffic])
    refine ((preflight_within r.plan.slo).spec (fun _ _ _ hop => .other (by simpa using hop))).bind ?_
    rintro _ why ⟨t, rfl, -, ht⟩
    have hw1 : Walked r walked (tr ++ [⟨.ctxDone, false⟩] ++ t) :=
      hw0.append fun ev hev => unpublished_of_kind (fun hk => by simpa [hk] using ht ev hev)
        fun hk => by simpa [hk] using ht ev hev
    cases why with
    | some why => exact CanaryDone.failed
    | none => exact canaryObserve_spec hs hw1

/-- By induction on the steps that are left. -/
theorem canarySteps_spec (hs : walked ++ rest = r.plan.canary.steps) (hw : Walked r walked tr) :
    (canarySteps delay r rest).Spec (CanaryAsk r) (CanaryDone r) tr := by
  induction rest generalizing walked tr with
  | nil => exact CanaryDone.passed (by rwa [← hs, List.append_nil])
  | cons step rest ih =>
    refine (canaryStep_spec hs hw).bind fun tr' x hx => ?_
    cases x with
    | some out => exact hx
    | none => exact ih (by rw [← hs, List.append_assoc]; rfl) hx

/-- **What a canary asks for, and how it ends.** -/
theorem canary_spec : (canary delay r).Spec (CanaryAsk r) (CanaryDone r) [] := by
  refine spec_perform_bind.mpr ⟨.other (Or.inl rfl), fun x => ?_⟩
  have hw : Walked r [] ([] ++ [⟨.replicationLag, x⟩]) := (walked_nil r).append (by simp [observedBy, traffic])
  have hsteps : (canarySteps delay r r.plan.canary.steps).Spec (CanaryAsk r) (CanaryDone r)
      ([] ++ [⟨.replicationLag, x⟩]) := canarySteps_spec (List.nil_append _) hw
  cases x with
  | none => exact hsteps
  | some lag =>
    dsimp only
    split_ifs with hlag
    · exact CanaryDone.failed
    · exact hsteps

end MigrationSafety.StateMachine.CanarySteps
