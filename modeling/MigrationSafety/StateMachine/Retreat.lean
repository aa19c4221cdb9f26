import MigrationSafety.StateMachine.Completion

/-! # Verdicts of the canary, and rollbacks

The surroundings are those of a run that completes, but the plan may set the fault knob, so that the
canary breaches. Then `on_failure` decides: a rollback is a run of DDL statements like the others, if
the executor lets it pass (`Fair`).

* `ends_canary_judged`: the canary passes, leads into a rollback, or fails, as the plan says (`Fate`). -/

namespace MigrationSafety.StateMachine.Retreat

open MigrationSafety.Lib.Effects MigrationSafety.Lib.Worlds MigrationSafety.Lib.Binary64
open MigrationSafety.Plan.Validate MigrationSafety.Sql.Rows MigrationSafety.Safety.Executor
open MigrationSafety.StateMachine.Signature MigrationSafety.StateMachine.Handlers
open MigrationSafety.StateMachine.Run MigrationSafety.StateMachine.Faultless
open MigrationSafety.StateMachine.Completion
open MigrationSafety.StateMachine.CanarySteps (breaches)

variable {V : Type} {S : Site V} {rows : List (Row V)} {s t u : World V}

/-! ### Fates -/

/-- What a plan comes to. -/
inductive Fate
  | completes
  | rollsBack
  | pauses
deriving DecidableEq

/-- A step the knob reaches breaches the limits of the plan; then `on_failure` decides. -/
def fate (p : MigrationPlan) : Fate :=
  if ∀ step ∈ p.canary.steps, breaches p step = false then .completes
  else if p.onFailure = .rollback then .rollsBack
  else .pauses

theorem fate_of_smooth {p : MigrationPlan} (h : ∀ step ∈ p.canary.steps, breaches p step = false) :
    fate p = .completes := if_pos h

theorem fate_of_breach {p : MigrationPlan} {step : ℤ} (h : step ∈ p.canary.steps)
    (hb : breaches p step = true) :
    fate p = if p.onFailure = .rollback then .rollsBack else .pauses := by
  refine if_neg fun hsmooth => ?_
  rw [hsmooth step h] at hb
  cases hb

/-! ### The condition -/

/-- The executor lets the statements of a rollback pass. -/
def Calm : Condition V := fun _ s op =>
  match op with
  | .lockWaiting => fun r => s.state = .rollingBack → ∀ n, r = some n → n ≤ defaultDDLConfig.maxLockQueue
  | .replicationLag => fun r => s.state = .rollingBack → ∀ lag, r = some lag → Safe lag
  | _ => fun _ => True

/-- **What a run needs to get through**, to either end. -/
def Fair (rows : List (Row V)) : Condition V := fun S s op r =>
  Favourable rows S s op r ∧ Calm S s op r

/-- DDL may be sent. -/
def Passable (s : World V) : Prop := s.sends ∨ s.state = .rollingBack

theorem Passable.sent {l : List String} (h : Passable s) (ht : Sent l s t) : Passable t := by
  unfold Passable
  rw [ht.state]
  exact h.imp (fun h => ht.sends h) id

variable [DecidableEq V] {α : Type} {Q : α → World V → Prop}

theorem Ends.fair {p : Code α} (h : Ends S (Favourable rows) Q p s) : Ends S (Fair rows) Q p s := by
  refine h.narrow fun u x v hx => ?_
  obtain ⟨hans, hok, rfl⟩ := hx
  exact ⟨hans, hok.1, rfl⟩

theorem lock_ok {r : Option ℤ} (h : Passable s) (hr : S.answers s .lockWaiting r)
    (hok : Fair rows S s .lockWaiting r) : ∃ n, r = some n ∧ n ≤ defaultDDLConfig.maxLockQueue := by
  obtain ⟨n, rfl, hn⟩ := hr
  exact ⟨n, rfl, h.elim hn fun hs => hok.2 hs n rfl⟩

theorem lag_ok {r : Option Float64} (h : Passable s) (hr : S.answers s .replicationLag r)
    (hok : Fair rows S s .replicationLag r) : ∃ lag, r = some lag ∧ Safe lag := by
  obtain ⟨lag, rfl, -, hlag⟩ := hr
  exact ⟨lag, rfl, h.elim hlag fun hs => hok.2 hs lag rfl⟩

/-! ### DDL -/

theorem ends_safetyCheck_passable (hs : Passable s) :
    Ends S (Fair rows) (fun x t => x = .ok () ∧ Keeps s t) safetyCheck s := by
  have hlock : Ends S (Fair rows) (fun x t =>
      (∃ n, x = some n ∧ n ≤ defaultDDLConfig.maxLockQueue) ∧ Keeps s t) checkLockQueue s := by
    refine ends_idle rfl fun r t hr hok ht _ => ?_
    obtain ⟨n, rfl, hn⟩ := lock_ok hs hr hok
    dsimp only
    split_ifs
    · refine ends_idle rfl ?_
      rintro _ u rfl - hu -
      exact ⟨⟨n, rfl, hn⟩, ht.trans hu⟩
    · exact ⟨⟨n, rfl, hn⟩, ht⟩
  refine hlock.bind ?_
  rintro _ t ⟨⟨n, rfl, hn⟩, ht⟩
  dsimp only
  rw [if_neg (not_lt.mpr hn)]
  refine ends_idle rfl fun r u hr hok hu _ => ?_
  obtain ⟨lag, rfl, hlag⟩ := lag_ok (hs.sent ht) hr hok
  have hsafe : Safe lag := hlag
  dsimp only
  rw [if_neg (not_lt.mpr hsafe)]
  exact ⟨rfl, ht.trans hu⟩

/-! ### The canary -/

section Canary
variable {r : Record} {delay : ℤ}

/-- What a breach leads to. -/
def Ruled (p : MigrationPlan) (out : Outcome) : Prop :=
  if p.onFailure = .rollback then ∃ c, out = .ok { checkpoint := c, next := some .rollingBack }
  else ∃ step why, out = .error (.breach step why p.onFailure)

/-- How a step ends: the canary goes on, or a breach ends it. -/
inductive Observed (p : MigrationPlan) (step : ℤ) : Option Outcome → Prop
  | healthy (h : breaches p step = false) : Observed p step none
  | breach {out : Outcome} (h : breaches p step = true) (hout : Ruled p out) :
      Observed p step (some out)

theorem ends_canaryObserve (hr : r.plan = S.plan.plan) (step : ℤ) :
    Ends S (Fair rows) (fun x t => Observed S.plan.plan step x ∧ Keeps s t)
      (canaryObserve delay r step) s := by
  refine ends_idle rfl fun _ t _ _ ht _ => ?_
  rw [hr]
  cases hwhy : sloBreached (observeCanary S.plan.plan step) S.plan.plan.slo with
  | some why =>
    have hb : breaches S.plan.plan step = true := by simp [breaches, hwhy]
    refine ends_idle rfl fun _ u _ _ hu _ => ?_
    rw [hr]
    split_ifs with hroll
    · have hout : Ruled S.plan.plan (.ok { checkpoint := [("canary_pct", .int step),
          ("slo_breach", .text why.text)], next := some .rollingBack }) := by
        unfold Ruled
        rw [if_pos hroll]
        exact ⟨_, rfl⟩
      exact ⟨.breach hb hout, ht.trans hu⟩
    · have hout : Ruled S.plan.plan (.error (.breach step why S.plan.plan.onFailure)) := by
        unfold Ruled
        rw [if_neg hroll]
        exact ⟨_, _, rfl⟩
      exact ⟨.breach hb hout, ht.trans hu⟩
  | none =>
    have hb : breaches S.plan.plan step = false := by simp [breaches, hwhy]
    refine ends_idle rfl ?_
    rintro _ u rfl - hu -
    rw [if_pos rfl]
    split_ifs
    · refine ends_idle rfl ?_
      rintro _ v rfl - hv -
      exact ⟨.healthy hb, ht.trans (hu.trans hv)⟩
    · exact ⟨.healthy hb, ht.trans hu⟩

theorem ends_canaryStep_observed (hr : r.plan = S.plan.plan) (hs : s.state = .canary) (step : ℤ) :
    Ends S (Fair rows) (fun x t => Observed S.plan.plan step x ∧ Keeps s t)
      (canaryStep delay r step) s := by
  refine ends_idle rfl ?_
  rintro _ t rfl - ht -
  rw [if_neg Bool.false_ne_true, hr]
  have hpre : Ends S (Fair rows) (fun why u => why = none ∧ Keeps t u)
      (preflight S.plan.plan.slo) t := Ends.fair (ends_preflight (ht.state.trans hs))
  refine hpre.bind ?_
  rintro _ u ⟨rfl, hu⟩
  exact (ends_canaryObserve hr step).mono fun _ _ h => ⟨h.1, ht.trans (hu.trans h.2)⟩

/-- Either no step breaches and the canary passes, or one does and `on_failure` rules. -/
theorem ends_canarySteps_observed (hr : r.plan = S.plan.plan) (hs : s.state = .canary)
    (steps : List ℤ) : Ends S (Fair rows) (fun out t =>
      ((∀ step ∈ steps, breaches S.plan.plan step = false) ∧ (∃ c, out = .ok { checkpoint := c }) ∨
        (∃ step ∈ steps, breaches S.plan.plan step = true) ∧ Ruled S.plan.plan out) ∧ Keeps s t)
      (canarySteps delay r steps) s := by
  induction steps generalizing s with
  | nil => exact ⟨Or.inl ⟨fun _ h => (List.not_mem_nil h).elim, _, rfl⟩, Keeps.refl s⟩
  | cons step steps ih =>
    refine (ends_canaryStep_observed hr hs step).bind ?_
    rintro x t ⟨hx, ht⟩
    cases hx with
    | breach hb hout => exact ⟨Or.inr ⟨⟨step, List.mem_cons_self, hb⟩, hout⟩, ht⟩
    | healthy hb =>
      refine (ih (ht.state.trans hs)).mono fun out u hu => ⟨?_, ht.trans hu.2⟩
      rcases hu.1 with ⟨hsmooth, hout⟩ | ⟨⟨step', hmem, hb'⟩, hout⟩
      · exact Or.inl ⟨List.forall_mem_cons.mpr ⟨hb, hsmooth⟩, hout⟩
      · exact Or.inr ⟨⟨step', List.mem_cons_of_mem _ hmem, hb'⟩, hout⟩

/-- What the canary hands over. -/
def Judged (p : MigrationPlan) (out : Outcome) : Prop :=
  match fate p with
  | .completes => ∃ c, out = .ok { checkpoint := c }
  | .rollsBack => ∃ c, out = .ok { checkpoint := c, next := some .rollingBack }
  | .pauses => ∃ step why, out = .error (.breach step why .pause)

omit [DecidableEq V] in
theorem judged_of_ruled {step : ℤ} {out : Outcome} (h : step ∈ S.plan.plan.canary.steps)
    (hb : breaches S.plan.plan step = true) (hout : Ruled S.plan.plan out) : Judged S.plan.plan out := by
  unfold Judged
  unfold Ruled at hout
  rw [fate_of_breach h hb]
  rcases S.plan.accepted.onFailure with hroll | hpause
  · rw [if_pos hroll] at hout ⊢
    exact hout
  · rw [hpause, if_neg (by decide)] at hout ⊢
    exact hout

/-- **The canary does what the plan says.** -/
theorem ends_canary_judged (hr : r.plan = S.plan.plan) (hs : s.state = .canary)
    (hlast : s.last = some (.load S.id)) :
    Ends S (Fair rows) (fun out t => Judged S.plan.plan out ∧ Keeps s t) (canary delay r) s := by
  refine ends_idle rfl ?_
  rintro _ t ⟨lag, rfl, hslo, -⟩ hok ht -
  have hlag : lag.val ≤ (Float64.ofInt S.plan.plan.slo.maxP99LatencyMs).val := by
    rcases le_or_gt S.plan.plan.slo.maxP99LatencyMs 0 with h | h
    · exact (hok.1 hs h lag rfl).1 hlast
    · exact hslo h
  dsimp only
  rw [hr, if_neg (not_lt.mpr hlag)]
  refine (ends_canarySteps_observed hr (ht.state.trans hs) _).mono fun out u hu =>
    ⟨?_, ht.trans hu.2⟩
  rcases hu.1 with ⟨hsmooth, hout⟩ | ⟨⟨step, hmem, hb⟩, hout⟩
  · unfold Judged
    rw [fate_of_smooth hsmooth]
    exact hout
  · exact judged_of_ruled hmem hb hout

end Canary

end MigrationSafety.StateMachine.Retreat
