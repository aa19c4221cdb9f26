import MigrationSafety.StateMachine.Solo

/-! # The direction of the controller

A low score should slow a backfill down and a high score speed it up (`Steers`). The clamps of the
controller bring a value that starts outside its range back into it, whatever the score: the batch size
and the pause of the plan are taken as they are.

* `steered_iff`: no reading pushes the wrong way if and only if the plan's own values are in range. -/

namespace MigrationSafety.StateMachine.Steering

open MigrationSafety.Lib.Effects MigrationSafety.Lib.Paths MigrationSafety.Lib.Worlds
open MigrationSafety.Lib.Restarts MigrationSafety.Plan.Validate
open MigrationSafety.Safety.Throttle MigrationSafety.Safety.Executor MigrationSafety.Safety.Breaker
open MigrationSafety.StateMachine.Signature MigrationSafety.StateMachine.Handlers
open MigrationSafety.StateMachine.Run MigrationSafety.StateMachine.Trace
open MigrationSafety.StateMachine.Solo

variable {p : MigrationPlan} {t : AdaptiveThrottle} {m : DBHealthMetrics} {delay : ℤ} {id : Id}

/-! ### One reading -/

/-- **A reading of a closed breaker pushes the right way.** -/
structure Steers (t : AdaptiveThrottle) (m : DBHealthMetrics) : Prop where
  slower : t.circuitTripped = false → healthScore m < 5 / 10 →
    (t.update m).currentBatchSize ≤ t.currentBatchSize ∧
      t.currentThrottleMs ≤ (t.update m).currentThrottleMs
  faster : t.circuitTripped = false → 8 / 10 < healthScore m →
    t.currentBatchSize ≤ (t.update m).currentBatchSize ∧
      (t.update m).currentThrottleMs ≤ t.currentThrottleMs

theorem pace_slower (h : Bounded p t) (hscore : t.healthScore < 5 / 10) :
    t.pace.currentBatchSize ≤ t.currentBatchSize ∧ t.currentThrottleMs ≤ t.pace.currentThrottleMs := by
  obtain ⟨hb, hb'⟩ := h.batch
  obtain ⟨hp, hp'⟩ := h.pause
  simp only [backfillConfig] at hb hb' hp hp'
  have hnot : ¬8 / 10 < t.healthScore := by linarith
  rw [h.pace_eq, if_neg hnot]
  split_ifs
  · exact ⟨by dsimp only; omega, by dsimp only; omega⟩
  · exact ⟨by dsimp only; omega, by dsimp only; omega⟩

theorem pace_faster (h : Bounded p t) (hscore : 8 / 10 < t.healthScore) :
    t.currentBatchSize ≤ t.pace.currentBatchSize ∧ t.pace.currentThrottleMs ≤ t.currentThrottleMs := by
  obtain ⟨hb, hb'⟩ := h.batch
  obtain ⟨hp, hp'⟩ := h.pause
  simp only [backfillConfig] at hb hb' hp hp'
  rw [h.pace_eq, if_pos hscore]
  exact ⟨by dsimp only; omega, by dsimp only; omega⟩

/-- **In range every reading pushes the right way.** -/
theorem steers_of_bounded (h : Bounded p t) (m : DBHealthMetrics) : Steers t m := by
  have hscored : Bounded p { t with healthScore := healthScore m } := ⟨h.config, h.batch, h.pause⟩
  cases ht' : (adjust t (healthScore m)).circuitTripped
  · refine ⟨fun ht hscore => ?_, fun ht hscore => ?_⟩
    · obtain ⟨hbatch, hpause⟩ := adjust_of_closed ht ht'
      have hpace := pace_slower hscored hscore
      exact ⟨hbatch.trans_le hpace.1, hpause ▸ hpace.2⟩
    · obtain ⟨hbatch, hpause⟩ := adjust_of_closed ht ht'
      have hpace := pace_faster hscored hscore
      exact ⟨hbatch ▸ hpace.1, hpause.trans_le hpace.2⟩
  · -- the reading that trips the breaker leaves both alone
    obtain ⟨hbatch, hpause⟩ := adjust_of_tripped ht'
    exact ⟨fun _ _ => ⟨hbatch.le, hpause.ge⟩, fun _ _ => ⟨hbatch.ge, hpause.le⟩⟩

/-! ### The readings of a run -/

/-- **No reading that a run takes pushes the wrong way.** -/
def Steered (delay : ℤ) (id : Id) (p : MigrationPlan) : Prop :=
  ∀ t as m ref reading, SoloRuns delay id p ⟨t, none⟩ as m → m.Asks (.adjustThrottle ref reading) →
    Steers m.world reading

/-- A reading finds the controller in range. -/
def FoundBounded (p : MigrationPlan) (t : AdaptiveThrottle) : Op → Prop
  | .adjustThrottle .. => Bounded p t
  | _ => True

/-- A stretch all of whose readings do. -/
abbrev FindsBounded (p : MigrationPlan) {α : Type} (c : Code α) (t : AdaptiveThrottle) : Prop :=
  Prog.Wp (Alone p) (fun t x => FoundBounded p t x.1.op) (fun _ _ => True) c t

theorem finds_ask {α : Type} {op : Op} {k : op.Ret → Code α} (hop : FoundBounded p t op)
    (hk : ∀ r, FindsBounded p (k r) (after t op)) : FindsBounded p (ask op >>= k) t := by
  rintro r _ t' ⟨-, rfl⟩
  exact ⟨hop, hk r⟩

/-- A program that takes no reading. -/
theorem finds_of_all {α : Type} {c : Code α} {P : Op → Prop} {q : α → Prop} (hc : c.All P q)
    (hP : ∀ op, P op → ∀ ref m, op ≠ .adjustThrottle ref m) : FindsBounded p c t := by
  refine (wp_of_all hc (I := fun _ => True) ?_ trivial).mono fun _ _ _ => trivial
  intro op r i s t' hop _ _
  refine ⟨?_, trivial⟩
  cases op <;> first | trivial | exact absurd rfl (hP _ hop _ _)

theorem finds_finish (delay : ℤ) (id : Id) (cur : State) (out : Outcome) :
    FindsBounded p (finish delay id cur out) t :=
  finds_of_all (finish_all delay id cur out) (by rintro _ (h | h) ref m rfl <;> cases h)

/-- A probe of the target leaves the controller alone. -/
theorem finds_health :
    Prog.Wp (Alone p) (fun t x => FoundBounded p t x.1.op) (fun _ t' => t' = t) collectHealthMetrics t := by
  refine (wp_of_all collectHealthMetrics_within (I := (· = t)) ?_ rfl).mono fun _ _ h => h.2
  rintro op r i s t' hop rfl ⟨-, rfl⟩
  have hkind : op.kind = .probe := List.mem_singleton.mp hop
  refine ⟨?_, after_of_kind (by simp [hkind])⟩
  cases op <;> trivial

theorem finds_backfillRecord (r : Record) (n : ℕ) (pr : Progress) :
    FindsBounded p (backfillRecord r n pr) t := by
  refine finds_health.bind fun m t' _ => ?_
  refine finds_ask trivial fun ms => finds_ask trivial fun logged => finds_ask trivial fun saved => ?_
  cases saved with
  | false => trivial
  | true =>
    refine finds_ask trivial fun pause => ?_
    split_ifs
    · refine finds_ask trivial fun cancelled => ?_
      cases cancelled <;> trivial
    · trivial

theorem finds_backfillAdvance (r : Record) (n : ℕ) (pr : Progress) :
    FindsBounded p (backfillAdvance r n pr) t := by
  refine finds_ask trivial fun x => ?_
  cases x with
  | none => trivial
  | some newLastID =>
    dsimp only
    split_ifs
    · trivial
    · exact finds_backfillRecord r n _

theorem finds_updateHealth (h : Bounded p t) : FindsBounded p updateHealth t := by
  refine finds_ask trivial fun ref => finds_health.bind ?_
  rintro m _ rfl
  cases m with
  | none => trivial
  | some m => exact fun _ _ _ _ => ⟨h, trivial⟩

/-- **A turn takes its reading first**, while the controller is as the turn has found it. -/
theorem finds_backfillTurn (h : Bounded p t) (r : Record) (pr : Progress) :
    FindsBounded p (backfillTurn r pr) t := by
  refine finds_ask trivial fun stopped => ?_
  cases stopped with
  | true => trivial
  | false =>
    refine finds_ask trivial fun tripped => ?_
    cases tripped with
    | true => exact finds_ask trivial fun _ => trivial
    | false =>
      refine Prog.Wp.bind (finds_updateHealth h) fun _ t' _ => ?_
      refine finds_ask trivial fun size => finds_ask trivial fun x => ?_
      cases x with
      | none => trivial
      | some n =>
        dsimp only
        split_ifs
        · trivial
        · exact finds_backfillAdvance r n pr

theorem finds_dispatch (r : Record) :
    FindsBounded p (dispatch delay id .backfilling (fun _ => pure skipped) r) t := by
  unfold dispatch
  split_ifs
  · refine finds_ask trivial fun ref => finds_ask trivial fun x => ?_
    cases x with
    | none => exact finds_finish delay id .backfilling (.error .countRemaining)
    | some n => trivial
  · exact finds_finish delay id .backfilling skipped

theorem finds_body (delay : ℤ) (id : Id) (pt : Pt) (h : Ready p pt t) :
    FindsBounded p (body delay id pt) t := by
  cases pt with
  | start =>
    refine finds_ask trivial fun x => ?_
    cases x <;> trivial
  | loop cur =>
    obtain rfl : cur = .backfilling := h
    refine finds_ask trivial fun stopped => ?_
    cases stopped with
    | true => trivial
    | false =>
      refine finds_ask trivial fun x => ?_
      cases x with
      | none => trivial
      | some r => exact finds_dispatch r
  | batch r pr =>
    refine Prog.Wp.bind (finds_backfillTurn h.2.2 r pr) fun x t' _ => ?_
    cases x with
    | again pr' => trivial
    | stop out => exact finds_finish delay id .backfilling out

/-- Every reading of a run finds a controller in range, if the plan's own values are. -/
theorem steered_of_bounded
    (hp : p.backfill.column ≠ "" → Bounded p (newAdaptiveThrottle (backfillConfig p))) (delay : ℤ)
    (id : Id) : Steered delay id p := by
  intro t as m ref reading h hop
  have hsound := machine_inv (C := fun t x => InPace p t x.1.op ∧ FoundBounded p t x.1.op)
    (I := fun _ => True) (J := Ready p) (fun _ _ _ _ _ _ => trivial)
    (fun _ pt _ hpt => by rw [hpt]; trivial)
    (fun pt _ _ hpt => ((keeps_body hp delay id pt hpt).and (finds_body delay id pt hpt)).mono
      fun _ _ hx => hx.1) h (sound_idle trivial)
  exact steers_of_bounded (hsound.allowed (r := ()) (i := ()) hop ⟨trivial, rfl⟩).2 reading

/-! ### Readings that push the wrong way -/

/-- An idle database: its score is 1. -/
def idle : DBHealthMetrics := {}

/-- Three active connections for one slot: the score is 1/10. -/
def crowded : DBHealthMetrics where
  activeConns := 3
  maxConns := 1

theorem healthScore_idle : healthScore idle = 1 := by decide +kernel

theorem healthScore_crowded : healthScore crowded = 1 / 10 := by decide +kernel

/-- The first reading of a backfill, with neither a lock queue nor replicas. -/
theorem reaches_reading (hcol : p.backfill.column ≠ "") (delay : ℤ) (id : Id) (active max : ℤ) :
    ∃ as m, SoloRuns delay id p ⟨t, none⟩ as m ∧
      m.Asks (.adjustThrottle 0 { activeConns := active, maxConns := max }) ∧
      m.world = newAdaptiveThrottle (backfillConfig p) := by
  obtain ⟨as, has⟩ := reaches_loop (t := t) hcol delay id
  have hworld : Path (Alone p) (newAdaptiveThrottle (backfillConfig p)) [(⟨.ctxDone, false⟩, ()),
      (⟨.isCircuitTripped, false⟩, ()), (⟨.throttleRef, 0⟩, ()),
      (⟨.connections, some (active, max)⟩, ()), (⟨.deadTuples, some 0⟩, ()),
      (⟨.lockWaiting, none⟩, ()), (⟨.replicationLag, none⟩, ())]
      (newAdaptiveThrottle (backfillConfig p)) :=
    Path.cons ⟨trivial, rfl⟩ (Path.cons ⟨rfl, rfl⟩ (Path.cons ⟨trivial, rfl⟩ (Path.cons ⟨trivial, rfl⟩
      (Path.cons ⟨trivial, rfl⟩ (Path.cons ⟨trivial, rfl⟩ (Path.cons ⟨trivial, rfl⟩ Path.nil))))))
  exact ⟨_, _, has.append (path_of_after hworld (After.cons (After.cons (After.cons (After.cons
    (After.cons (After.cons (After.cons After.nil)))))))), ⟨_, rfl⟩, rfl⟩

/-- One reading does not trip a new breaker. -/
theorem update_new (config : BackfillConfig) (m : DBHealthMetrics) :
    ((newAdaptiveThrottle config).update m).currentBatchSize =
        { newAdaptiveThrottle config with healthScore := healthScore m }.pace.currentBatchSize ∧
      ((newAdaptiveThrottle config).update m).currentThrottleMs =
        { newAdaptiveThrottle config with healthScore := healthScore m }.pace.currentThrottleMs := by
  have hopen : (adjust (newAdaptiveThrottle config) (healthScore m)).circuitTripped = false := by
    unfold adjust AdaptiveThrottle.adjustThrottle
    split_ifs <;> simp_all [newAdaptiveThrottle]
  exact adjust_of_closed rfl hopen

/-- A new controller that an idle and a crowded database push the right way is in range. -/
theorem bounded_of_steers (hidle : Steers (newAdaptiveThrottle (backfillConfig p)) idle)
    (hcrowded : Steers (newAdaptiveThrottle (backfillConfig p)) crowded) :
    Bounded p (newAdaptiveThrottle (backfillConfig p)) := by
  obtain ⟨hfast, hless⟩ := hidle.faster rfl (by rw [healthScore_idle]; norm_num)
  obtain ⟨hslow, hmore⟩ := hcrowded.slower rfl (by rw [healthScore_crowded]; norm_num)
  rw [(update_new _ _).1] at hfast hslow
  rw [(update_new _ _).2] at hless hmore
  have hnot : ¬(8 / 10 : ℚ) < 1 / 10 := by norm_num
  unfold AdaptiveThrottle.pace at hfast hless hslow hmore
  rw [healthScore_idle, if_pos (by norm_num)] at hfast hless
  rw [healthScore_crowded, if_neg hnot, if_pos (by norm_num)] at hslow hmore
  -- each clamp has come out on the right side of the value it was given
  exact ⟨rfl, ⟨(le_max_right _ _).trans hslow, hfast.trans (min_le_right _ _)⟩,
    (le_max_right _ _).trans hless, hmore.trans (min_le_right _ _)⟩

/-- **When no reading pushes the wrong way**: when the plan's own values are in the range of the
controller. -/
theorem steered_iff (delay : ℤ) (id : Id) (p : ValidPlan) : Steered delay id p.plan ↔
    p.plan.backfill.column = "" ∨
      (p.plan.backfill.batchSize ≤ 0 ∨
        100 ≤ p.plan.backfill.batchSize ∧ p.plan.backfill.batchSize ≤ 50000) ∧
      0 ≤ p.plan.backfill.throttleMs ∧ p.plan.backfill.throttleMs ≤ 5000 := by
  rw [← bounded_new_iff]
  constructor
  · intro h
    by_cases hcol : p.plan.backfill.column = ""
    · exact Or.inl hcol
    · obtain ⟨_, m, hm, hop, hworld⟩ :=
        reaches_reading (t := newAdaptiveThrottle defaultBackfillConfig) hcol delay id 0 0
      obtain ⟨_, m', hm', hop', hworld'⟩ :=
        reaches_reading (t := newAdaptiveThrottle defaultBackfillConfig) hcol delay id 3 1
      exact Or.inr (bounded_of_steers (hworld ▸ h _ _ _ _ _ hm hop) (hworld' ▸ h _ _ _ _ _ hm' hop'))
  · rintro (hcol | hp)
    · exact steered_of_bounded (fun h => absurd hcol h) delay id
    · exact steered_of_bounded (fun _ => hp) delay id

/-- Ten rows a batch: the first low score makes it a hundred. -/
theorem not_steered : ¬∀ (delay : ℤ) (id : Id) (p : ValidPlan), Steered delay id p.plan := by
  intro h
  have hvalid : validate smallBatches = .ok smallBatches.prepare.withDefaults := by decide +kernel
  obtain ⟨_, m, hm, hop, hworld⟩ := reaches_reading (p := smallBatches.prepare.withDefaults)
    (t := newAdaptiveThrottle defaultBackfillConfig) (by decide +kernel) 0 0 3 1
  have hslow := ((h 0 0 ⟨_, (validate_ok hvalid).2⟩ _ _ _ _ _ hm hop).slower
    (by rw [hworld]; rfl) (by decide +kernel)).1
  rw [hworld] at hslow
  exact absurd hslow (by decide +kernel)

end MigrationSafety.StateMachine.Steering
