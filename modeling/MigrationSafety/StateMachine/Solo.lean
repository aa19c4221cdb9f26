import MigrationSafety.Lib.Restarts
import MigrationSafety.Safety.Breaker
import MigrationSafety.StateMachine.Trace

/-! # A run alone with its controller

A run whose controller no other run uses: the controller answers for itself, everything else answers
what it likes (`Alone`).

* `saturated_trips_iff`: when three readings of a saturated database trip the breaker.
* `tripped_forever`: the loop asks the breaker first, and only a reading could close it.
* `paced_iff`: when every batch keeps to the limits of the controller's configuration. -/

namespace MigrationSafety.StateMachine.Solo

open MigrationSafety.Lib.Effects MigrationSafety.Lib.Paths MigrationSafety.Lib.Worlds
open MigrationSafety.Lib.Restarts MigrationSafety.Lib.Debounce MigrationSafety.Plan.Validate
open MigrationSafety.Safety.Throttle MigrationSafety.Safety.Executor MigrationSafety.Safety.Breaker
open MigrationSafety.StateMachine.Signature MigrationSafety.StateMachine.Handlers
open MigrationSafety.StateMachine.Run MigrationSafety.StateMachine.Trace

/-! ### A saturated database -/

/-- All four inputs of the score are at their worst. -/
structure Saturated (m : DBHealthMetrics) : Prop where
  capacity : 0 < m.maxConns
  conns : m.maxConns ≤ m.activeConns
  lag : 1000 ≤ m.maxLagMs
  waiting : 10 ≤ m.waitingQueries
  dead : 1000000 < m.tuplesDead

section
variable {t : AdaptiveThrottle} {m : DBHealthMetrics} {score₁ score₂ score₃ bad good : ℚ} {c : ℕ}

/-- Bloat alone never brings its score below one half. -/
theorem Saturated.score (h : Saturated m) :
    healthScore m = 3 / 10 * (1 - m.activeConns / m.maxConns) + 1 / 10 := by
  have hlag : max (1 - m.maxLagMs / 1000) 0 = 0 := by
    have := h.lag
    exact max_eq_right (by linarith)
  have hwaiting : max (1 - (m.waitingQueries : ℚ) / 10) 0 = 0 := by
    have : (10 : ℚ) ≤ m.waitingQueries := by exact_mod_cast h.waiting
    exact max_eq_right (by linarith)
  have hlag0 : 0 < m.maxLagMs := lt_of_lt_of_le (by norm_num) h.lag
  have hwaiting0 : 0 < m.waitingQueries := lt_of_lt_of_le (by norm_num) h.waiting
  unfold healthScore connScore replScore lockScore bloatScore
  rw [if_pos h.capacity, if_pos hlag0, if_pos hwaiting0, if_pos h.dead, hlag, hwaiting]
  ring

theorem Saturated.score_lt_iff (h : Saturated m) (bad : ℚ) :
    healthScore m < bad ↔ (4 - 10 * bad) * m.maxConns < 3 * m.activeConns := by
  have hmax : (0 : ℚ) < m.maxConns := by exact_mod_cast h.capacity
  rw [h.score]
  constructor
  · intro hlt
    have hmul := mul_lt_mul_of_pos_right hlt hmax
    have hdiv : (m.activeConns / m.maxConns : ℚ) * m.maxConns = m.activeConns :=
      div_mul_cancel₀ _ hmax.ne'
    nlinarith
  · intro hlt
    have hdiv : (4 - 10 * bad) / 3 < (m.activeConns / m.maxConns : ℚ) := by
      rw [lt_div_iff₀ hmax]
      linarith
    linarith

theorem Saturated.score_le (h : Saturated m) : healthScore m ≤ 1 / 10 := by
  have hcapacity : (0 : ℚ) < m.maxConns := by exact_mod_cast h.capacity
  have hconns : (m.maxConns : ℚ) ≤ m.activeConns := by exact_mod_cast h.conns
  have hratio : (1 : ℚ) ≤ m.activeConns / m.maxConns := (one_le_div hcapacity).mpr hconns
  rw [h.score]
  linarith

/-- Three readings none of which would close the breaker: it is tripped in the end if the first of
them complete the readings that have been counted. -/
theorem on_three (h₂ : score₂ ≤ good) (h₃ : score₃ ≤ good) :
    ((((⟨false, c⟩ : Switch).read 3 (against bad good) score₁).read 3 (against bad good) score₂).read 3
        (against bad good) score₃).on = true ↔
      ∀ score ∈ [score₁, score₂, score₃].take (max 1 (3 - c)), score < bad := by
  have hclosed : ∀ x, against bad good false x ↔ x < bad := fun x => Iff.rfl
  have htripped : ∀ x, x ≤ good → ¬against bad good true x := fun x hx => not_lt.mpr hx
  obtain rfl | rfl | hc : c = 0 ∨ c = 1 ∨ 2 ≤ c := by omega
  · by_cases b₁ : score₁ < bad <;> by_cases b₂ : score₂ < bad <;> by_cases b₃ : score₃ < bad <;>
      simp [Switch.read, hclosed, b₁, b₂, b₃]
  · by_cases b₁ : score₁ < bad <;> by_cases b₂ : score₂ < bad <;> by_cases b₃ : score₃ < bad <;>
      simp [Switch.read, hclosed, htripped _ h₃, b₁, b₂, b₃]
  · have hone : max 1 (3 - c) = 1 := by omega
    have hfull : 3 ≤ c + 1 := by omega
    rw [hone]
    by_cases b₁ : score₁ < bad
    · simp [Switch.read, hclosed, htripped _ h₂, htripped _ h₃, b₁, hc]
    · by_cases b₂ : score₂ < bad <;> by_cases b₃ : score₃ < bad <;>
        simp [Switch.read, hclosed, b₁, b₂, b₃]

theorem updates_eq_adjusts (t : AdaptiveThrottle) (ms : List DBHealthMetrics) :
    t.updates ms = adjusts t (ms.map healthScore) := by
  unfold AdaptiveThrottle.updates adjusts
  rw [List.foldl_map]
  rfl

/-- Three readings of a closed breaker. -/
theorem updates_three {m₁ m₂ m₃ : DBHealthMetrics} (ht : t.circuitTripped = false)
    (hr : t.recoveryThreshold = 3 / 10) (h₂ : Saturated m₂) (h₃ : Saturated m₃) :
    (t.updates [m₁, m₂, m₃]).circuitTripped = true ↔
      ∀ score ∈ ([m₁, m₂, m₃].map healthScore).take (max 1 (3 - t.consecutiveBad)),
        score < t.config.circuitBreakerThreshold := by
  have hgood : ∀ {m}, Saturated m → healthScore m ≤ t.recoveryThreshold := fun h => by
    have := h.score_le
    linarith
  have hswitch : switch t = ⟨false, t.consecutiveBad⟩ := by simp [switch, ht]
  rw [updates_eq_adjusts]
  change (switch (adjusts t [healthScore m₁, healthScore m₂, healthScore m₃])).on = true ↔ _
  simp only [adjusts_cons, adjusts_nil, switch_adjust, (adjust_fixed _ _).1, (adjust_fixed _ _).2,
    hswitch]
  exact on_three (hgood h₂) (hgood h₃)

/-- **When three readings of a saturated database trip the breaker**: when those that complete the bad
readings already counted, at least the first, have more connections than there are; with the
configuration of the handler, which leaves the threshold at zero, more than four thirds of them. -/
theorem saturated_trips_iff {m₁ m₂ m₃ : DBHealthMetrics} (ht : t.circuitTripped = false)
    (hr : t.recoveryThreshold = (newAdaptiveThrottle t.config).recoveryThreshold)
    (h₁ : Saturated m₁) (h₂ : Saturated m₂) (h₃ : Saturated m₃) :
    (t.config = defaultBackfillConfig →
      ((t.updates [m₁, m₂, m₃]).circuitTripped = true ↔
        ∀ m ∈ [m₁, m₂, m₃].take (max 1 (3 - t.consecutiveBad)), m.maxConns < m.activeConns)) ∧
    ∀ p, t.config = backfillConfig p →
      ((t.updates [m₁, m₂, m₃]).circuitTripped = true ↔
        ∀ m ∈ [m₁, m₂, m₃].take (max 1 (3 - t.consecutiveBad)),
          4 * m.maxConns < 3 * m.activeConns) := by
  have hall : ∀ m ∈ [m₁, m₂, m₃].take (max 1 (3 - t.consecutiveBad)), Saturated m := by
    intro m hm
    have := List.mem_of_mem_take hm
    simp only [List.mem_cons, List.not_mem_nil, or_false] at this
    rcases this with rfl | rfl | rfl
    exacts [h₁, h₂, h₃]
  rw [updates_three ht hr h₂ h₃, ← List.map_take]
  simp only [List.forall_mem_map]
  refine ⟨fun hc => forall₂_congr fun m hm => ?_, fun p hc => forall₂_congr fun m hm => ?_⟩
  · rw [(hall m hm).score_lt_iff, hc]
    have : (4 - 10 * defaultBackfillConfig.circuitBreakerThreshold : ℚ) = 3 := by
      norm_num [defaultBackfillConfig]
    rw [this, mul_lt_mul_iff_right₀ (by norm_num)]
    exact Int.cast_lt
  · rw [(hall m hm).score_lt_iff, hc]
    have : (4 - 10 * (backfillConfig p).circuitBreakerThreshold : ℚ) = 4 := by
      norm_num [backfillConfig]
    rw [this]
    exact_mod_cast Iff.rfl

end

/-- A database with `active` of a hundred connections in use, and all else at its worst. -/
def worst (active : ℤ) : DBHealthMetrics where
  activeConns := active
  maxConns := 100
  tuplesDead := 1000001
  waitingQueries := 10
  maxLagMs := 1000

theorem saturated_worst {active : ℤ} (h : 100 ≤ active) : Saturated (worst active) :=
  ⟨by simp [worst], h, le_rfl, le_rfl, by simp [worst]⟩

/-- One connection more than there are, three times. -/
theorem saturated_trips_worst :
    ((newAdaptiveThrottle defaultBackfillConfig).updates
      [worst 101, worst 101, worst 101]).circuitTripped = true :=
  ((saturated_trips_iff rfl rfl (saturated_worst (by decide)) (saturated_worst (by decide))
    (saturated_worst (by decide))).1 rfl).mpr (by decide)

/-- All connections in use: the score is the threshold. -/
theorem saturated_untripped : ¬∀ (t : AdaptiveThrottle) (m₁ m₂ m₃ : DBHealthMetrics),
    t.circuitTripped = false → t.recoveryThreshold = (newAdaptiveThrottle t.config).recoveryThreshold →
    (t.config = defaultBackfillConfig ∨ ∃ p, t.config = backfillConfig p) →
    Saturated m₁ → Saturated m₂ → Saturated m₃ →
      (t.updates [m₁, m₂, m₃]).circuitTripped = true := by
  intro h
  have hs : Saturated (worst 100) := saturated_worst le_rfl
  have := h (newAdaptiveThrottle defaultBackfillConfig) _ _ _ rfl rfl (Or.inl rfl) hs hs hs
  exact absurd this (by decide +kernel)

/-! ### The controller of a run -/

/-- The answers to a run of a migration with the plan `p`. -/
def answers (p : MigrationPlan) (t : AdaptiveThrottle) : (op : Op) → op.Ret → Prop
  | .load _ => fun r => ∀ rec, r = some rec → rec.plan = p
  | .isCircuitTripped => fun r => r = t.circuitTripped
  | .getBatchSize => fun r => r = t.currentBatchSize
  | .getThrottleMs => fun r => r = t.currentThrottleMs
  | _ => fun _ => True

/-- What an operation makes of the controller. -/
def after (t : AdaptiveThrottle) : Op → AdaptiveThrottle
  | .newThrottle config => newAdaptiveThrottle config
  | .adjustThrottle _ m => t.update m
  | _ => t

/-- **A run that has its controller to itself.** -/
def Alone (p : MigrationPlan) (t : AdaptiveThrottle) (x : Event engine × Unit) (t' : AdaptiveThrottle) :
    Prop :=
  answers p t x.1.op x.1.ans ∧ t' = after t x.1.op

section
variable {p : MigrationPlan} {t t' : AdaptiveThrottle} {op : Op}

theorem after_of_kind (h : op.kind ≠ .throttle) : after t op = t := by
  cases op <;> first | rfl | exact absurd rfl h

end

/-! ### A tripped breaker -/

/-- The moves of a run that starts at a turn of the loop and is not taken up again. -/
abbrev Turns (delay : ℤ) (id : Id) (p : MigrationPlan) :
    Machine engine AdaptiveThrottle Exit → List (Move engine Unit Pt) → Machine engine AdaptiveThrottle Exit →
      Prop :=
  Path (Step (Alone p) (fun _ _ => False) (body delay id) follow)

/-- After four turns all of whose readings are good, the breaker is closed and a batch has been sent. -/
def Recovers (delay : ℤ) (id : Id) (r : Record) (pr : Progress) (t : AdaptiveThrottle) : Prop :=
  ∀ as m, Turns delay id r.plan ⟨t, some (body delay id (.batch r pr))⟩ as m → advances as = 4 →
    (∀ ref m u i, .answer (⟨.adjustThrottle ref m, u⟩, i) ∈ as →
      t.recoveryThreshold < healthScore m) →
    m.world.circuitTripped = false ∧
      ∃ stmt lastID limit n i, .answer (⟨.updateBatch stmt lastID limit, n⟩, i) ∈ as

section
variable {delay : ℤ} {id : Id} {r : Record} {pr : Progress} {t : AdaptiveThrottle}
  {as : List (Move engine Unit Pt)} {m : Machine engine AdaptiveThrottle Exit}

/-- A turn with a tripped breaker. -/
def pause : List (Event engine × Unit) :=
  [(⟨.ctxDone, false⟩, ()), (⟨.isCircuitTripped, true⟩, ()), (⟨.sleep (5 * second), ()⟩, ())]

theorem turns_pause (ht : t.circuitTripped = true) (n : ℕ) :
    ∃ as, Turns delay id r.plan ⟨t, some (body delay id (.batch r pr))⟩ as
        ⟨t, some (body delay id (.batch r pr))⟩ ∧ advances as = n ∧
      ∀ ref m u i, .answer (⟨.adjustThrottle ref m, u⟩, i) ∉ as := by
  induction n with
  | zero => exact ⟨[], Path.nil, rfl, by simp⟩
  | succ n ih =>
    obtain ⟨as, has, hn, hno⟩ := ih
    have hworld : Path (Alone r.plan) t pause t :=
      Path.cons ⟨trivial, rfl⟩ (Path.cons ⟨ht.symm, rfl⟩ (Path.cons ⟨trivial, rfl⟩ Path.nil))
    have hcode : After (body delay id (.batch r pr)) (pause.map Prod.fst)
        (.ret (.goto (.batch r pr))) := After.cons (After.cons (After.cons After.nil))
    refine ⟨as ++ (pause.map .answer ++ [.advance]), has.append
      ((path_of_after hworld hcode).snoc
        (Step.advance (show follow (.goto (.batch r pr)) = some _ from rfl))), ?_, ?_⟩
    · rw [advances_append, advances_append, advances_answers, hn]
      rfl
    · intro ref m u i h
      simp [hno, pause] at h

/-- What a turn asks for while the breaker is tripped. -/
def Op.pauses : Op → Bool
  | .ctxDone | .isCircuitTripped | .sleep _ => true
  | _ => false

theorem after_of_pauses {op : Op} (h : Op.pauses op = true) : after t op = t := by
  cases op <;> first | rfl | cases h

theorem body_pauses (delay : ℤ) (id : Id) (p : MigrationPlan) {pt : Pt}
    (ht : t.circuitTripped = true) (hpt : ∃ r pr, pt = .batch r pr) :
    Prog.Wp (Alone p) (fun _ x => Op.pauses x.1.op = true)
      (fun x _ => ∀ pt', follow x = some pt' → ∃ r pr, pt' = .batch r pr) (body delay id pt) t := by
  obtain ⟨r, pr, rfl⟩ := hpt
  rintro stopped _ t₁ ⟨-, rfl⟩
  refine ⟨rfl, ?_⟩
  cases stopped with
  | true => exact fun _ h => nomatch h
  | false =>
    rintro tripped _ t₂ ⟨htripped, rfl⟩
    obtain rfl : tripped = true := htripped.trans ht
    refine ⟨rfl, ?_⟩
    rintro u _ t₃ ⟨-, rfl⟩
    refine ⟨rfl, ?_⟩
    rintro pt' h
    exact ⟨r, pr, (Option.some.inj h).symm⟩

/-- **While the breaker is tripped the loop takes no reading and sends no batch.** -/
theorem tripped_turns (ht : t.circuitTripped = true)
    (h : Turns delay id r.plan ⟨t, some (body delay id (.batch r pr))⟩ as m) :
    m.world.circuitTripped = true ∧
      ∀ stmt lastID limit n i, .answer (⟨.updateBatch stmt lastID limit, n⟩, i) ∉ as := by
  have hI : ∀ s x s', s.circuitTripped = true → Alone r.plan s x s' → Op.pauses x.1.op = true →
      s'.circuitTripped = true := by
    rintro s x s' hs ⟨-, rfl⟩ hx
    rwa [after_of_pauses hx]
  have hentry : ∀ (s : AdaptiveThrottle) (pt : Pt), s.circuitTripped = true → False →
      ∃ r pr, pt = .batch r pr := fun _ _ _ h => h.elim
  have hbody := fun (pt : Pt) (s : AdaptiveThrottle) (hs : s.circuitTripped = true)
    (hpt : ∃ r pr, pt = .batch r pr) => body_pauses delay id r.plan hs hpt
  have hstart : Sound (Alone r.plan) follow (fun _ x => Op.pauses x.1.op = true)
      (·.circuitTripped = true) (fun pt _ => ∃ r pr, pt = .batch r pr)
      ⟨t, some (body delay id (.batch r pr))⟩ := sound_start ht ⟨r, pr, rfl⟩ hbody
  refine ⟨(machine_inv hI hentry hbody h hstart).world, fun stmt lastID limit n i hmem => ?_⟩
  obtain ⟨_, -, hpauses⟩ := answers_allowed hI hentry hbody h hstart hmem
  cases hpauses

/-- Four turns go by, and nothing has changed. -/
theorem not_recovers (ht : t.circuitTripped = true) : ¬Recovers delay id r pr t := by
  intro h
  obtain ⟨as, has, hn, hno⟩ := turns_pause ht 4
  obtain ⟨hclosed, -⟩ := h as _ has hn fun ref m u i hmem => absurd hmem (hno ref m u i)
  rw [ht] at hclosed
  cases hclosed

end

/-- **The loop never recovers**: a tripped breaker stays tripped, whatever it would read. -/
theorem tripped_forever (delay : ℤ) (id : Id) (r : Record) (pr : Progress) (t : AdaptiveThrottle)
    (ht : t.circuitTripped = true) : ¬Recovers delay id r pr t ∧
      ∀ as m, Turns delay id r.plan ⟨t, some (body delay id (.batch r pr))⟩ as m →
        m.world.circuitTripped = true ∧
          ∀ stmt lastID limit n i, .answer (⟨.updateBatch stmt lastID limit, n⟩, i) ∉ as :=
  ⟨not_recovers ht, fun _ _ h => tripped_turns ht h⟩

/-- A breaker that has just tripped, in a backfill of twenty rows. -/
def stuck : AdaptiveThrottle × Record × Progress where
  fst := { newAdaptiveThrottle defaultBackfillConfig with circuitTripped := true, tripCount := 1 }
  snd := ({ id := 0, plan := backfillPlan, state := .backfilling }, ⟨20, 20, 1⟩)

theorem tripped_forever_stuck : ¬Recovers 0 0 stuck.2.1 stuck.2.2 stuck.1 :=
  (tripped_forever 0 0 stuck.2.1 stuck.2.2 stuck.1 rfl).1

theorem breaker_stuck : ¬∀ (delay : ℤ) (id : Id) (r : Record) (pr : Progress) (t : AdaptiveThrottle),
    t.circuitTripped = true → Recovers delay id r pr t :=
  fun h => not_recovers (t := stuck.1) rfl (h 0 0 stuck.2.1 stuck.2.2 stuck.1 rfl)

/-! ### The pace of a run -/

/-- A batch size the configuration admits. -/
def BatchInRange (config : BackfillConfig) (size : ℤ) : Prop :=
  config.minBatchSize ≤ size ∧ size ≤ config.maxBatchSize

def PauseInRange (config : BackfillConfig) (ms : ℤ) : Prop :=
  config.minThrottleMs ≤ ms ∧ ms ≤ config.maxThrottleMs

/-- The runs of a migration with the plan `p` in `Backfilling`, which may be cut off and taken up again
at any time. -/
abbrev SoloRuns (delay : ℤ) (id : Id) (p : MigrationPlan) :
    Machine engine AdaptiveThrottle Exit → List (Move engine Unit Pt) → Machine engine AdaptiveThrottle Exit →
      Prop :=
  Path (Step (Alone p) (fun _ pt => pt = .start) (body delay id) follow)

/-- **Every batch that is sent and every pause that is read** is in the range of the configuration. -/
def Paced (delay : ℤ) (id : Id) (p : MigrationPlan) : Prop :=
  ∀ t as m, SoloRuns delay id p ⟨t, none⟩ as m →
    (∀ stmt lastID limit, m.Asks (.updateBatch stmt lastID limit) →
      BatchInRange (backfillConfig p) limit) ∧
    (m.Asks .getThrottleMs → PauseInRange (backfillConfig p) m.world.currentThrottleMs)

/-- The controller of a backfill with the plan `p`, in range. -/
structure Bounded (p : MigrationPlan) (t : AdaptiveThrottle) : Prop where
  config : t.config = backfillConfig p
  batch : BatchInRange (backfillConfig p) t.currentBatchSize
  pause : PauseInRange (backfillConfig p) t.currentThrottleMs

section
variable {p : MigrationPlan} {t : AdaptiveThrottle} {m : DBHealthMetrics} {score : ℚ}

theorem wrap64_eq {n : ℤ} (h : -2 ^ 63 ≤ n) (h' : n < 2 ^ 63) : wrap64 n = n := by
  unfold wrap64
  exact Int.bmod_eq_of_le (by omega) (by omega)

/-- In range nothing overflows. -/
theorem Bounded.batch_eq (h : Bounded p t) {k : ℤ} (hk : 0 ≤ k) (hk' : k ≤ 15) :
    (wrap64 (t.currentBatchSize * k)).tdiv 10 = t.currentBatchSize * k / 10 := by
  obtain ⟨hb, hb'⟩ := h.batch
  simp only [backfillConfig] at hb hb'
  have hlow : 0 ≤ t.currentBatchSize * k := mul_nonneg (by omega) hk
  have hhigh : t.currentBatchSize * k ≤ 50000 * 15 := mul_le_mul hb' hk' hk (by norm_num)
  rw [wrap64_eq (by omega) (by omega), Int.tdiv_eq_ediv_of_nonneg hlow]

theorem Bounded.pause_eq (h : Bounded p t) {k : ℤ} (hk : -5 ≤ k) (hk' : k ≤ 50) :
    wrap64 (t.currentThrottleMs + k) = t.currentThrottleMs + k := by
  obtain ⟨hp, hp'⟩ := h.pause
  simp only [backfillConfig] at hp hp'
  exact wrap64_eq (by omega) (by omega)

/-- The pace of a controller in range. -/
theorem Bounded.pace_eq (h : Bounded p t) : t.pace =
    if 8 / 10 < t.healthScore then
      { t with
        currentBatchSize := min (t.currentBatchSize * 15 / 10) 50000
        currentThrottleMs := max (t.currentThrottleMs + -5) 0 }
    else if t.healthScore < 3 / 10 then
      { t with
        currentBatchSize := max (t.currentBatchSize * 5 / 10) 100
        currentThrottleMs := min (t.currentThrottleMs + 50) 5000 }
    else if t.healthScore < 5 / 10 then
      { t with
        currentBatchSize := max (t.currentBatchSize * 8 / 10) 100
        currentThrottleMs := min (t.currentThrottleMs + 20) 5000 }
    else t := by
  unfold AdaptiveThrottle.pace
  rw [h.config, h.batch_eq (k := 15) (by norm_num) (by norm_num),
    h.batch_eq (k := 5) (by norm_num) (by norm_num), h.batch_eq (k := 8) (by norm_num) (by norm_num),
    h.pause_eq (k := 50) (by norm_num) (by norm_num), h.pause_eq (k := 20) (by norm_num) (by norm_num),
    sub_eq_add_neg, h.pause_eq (k := -5) (by norm_num) (by norm_num)]
  rfl

/-- A change of pace stays in range. -/
theorem Bounded.pace (h : Bounded p t) : Bounded p t.pace := by
  obtain ⟨hb, hb'⟩ := h.batch
  obtain ⟨hp, hp'⟩ := h.pause
  refine ⟨by rw [config_pace, h.config], ?_, ?_⟩
  · rw [h.pace_eq]
    simp only [BatchInRange, backfillConfig] at hb hb' ⊢
    split_ifs <;> first | omega | (dsimp only; omega)
  · rw [h.pace_eq]
    simp only [PauseInRange, backfillConfig] at hp hp' ⊢
    split_ifs <;> first | omega | (dsimp only; omega)

/-- **One reading stays in range**, if the configuration starts in range. -/
theorem Bounded.adjust (h : Bounded p t) (hp : Bounded p (newAdaptiveThrottle (backfillConfig p))) :
    Bounded p (adjust t score) := by
  have hconfig : (Safety.Breaker.adjust t score).config = backfillConfig p :=
    (adjust_fixed t score).1.trans h.config
  cases ht' : (Safety.Breaker.adjust t score).circuitTripped
  · cases ht : t.circuitTripped
    · obtain ⟨hbatch, hpause⟩ := adjust_of_closed ht ht'
      have hpace : Bounded p { t with healthScore := score }.pace :=
        Bounded.pace ⟨h.config, h.batch, h.pause⟩
      exact ⟨hconfig, hbatch ▸ hpace.batch, hpause ▸ hpace.pause⟩
    · obtain ⟨hbatch, hpause⟩ := adjust_of_recovered ht ht'
      rw [h.config] at hbatch hpause
      exact ⟨hconfig, hbatch ▸ hp.batch, hpause ▸ hp.pause⟩
  · obtain ⟨hbatch, hpause⟩ := adjust_of_tripped ht'
    exact ⟨hconfig, hbatch ▸ h.batch, hpause ▸ h.pause⟩

/-! ### A run in range -/

/-- What may be asked for. -/
def InPace (p : MigrationPlan) (t : AdaptiveThrottle) : Op → Prop
  | .updateBatch _ _ limit => BatchInRange (backfillConfig p) limit
  | .getThrottleMs => PauseInRange (backfillConfig p) t.currentThrottleMs
  | _ => True

/-- Where a stretch may start. -/
def Ready (p : MigrationPlan) : Pt → AdaptiveThrottle → Prop
  | .start, _ => True
  | .loop cur, _ => cur = .backfilling
  | .batch r _, t => r.plan = p ∧ p.backfill.column ≠ "" ∧ Bounded p t

/-- A stretch that keeps the pace. -/
abbrev Keeps (p : MigrationPlan) {α : Type} (Q : α → AdaptiveThrottle → Prop) (c : Code α)
    (t : AdaptiveThrottle) : Prop :=
  Prog.Wp (Alone p) (fun t x => InPace p t x.1.op) Q c t

/-- One operation. -/
theorem keeps_ask {α : Type} {Q : α → AdaptiveThrottle → Prop} {op : Op} {k : op.Ret → Code α}
    (hop : InPace p t op) (hk : ∀ r, answers p t op r → Keeps p Q (k r) (after t op)) :
    Keeps p Q (ask op >>= k) t := by
  rintro r _ t' ⟨hr, rfl⟩
  exact ⟨hop, hk r hr⟩

/-- Programs that neither send a batch nor look at the throttle. -/
theorem keeps_of_all {α : Type} {c : Code α} {P : Op → Prop} {q : α → Prop} (hc : c.All P q)
    (hP : ∀ op, P op → op.kind ≠ .throttle ∧ op.kind ≠ .column) :
    Keeps p (fun a t' => q a ∧ t' = t) c t := by
  refine wp_of_all hc (I := (· = t)) ?_ rfl
  rintro op r i s t' hop rfl ⟨-, rfl⟩
  obtain ⟨hthrottle, hcolumn⟩ := hP op hop
  refine ⟨?_, after_of_kind hthrottle⟩
  cases op <;> trivial

theorem keeps_finish (delay : ℤ) (id : Id) (cur : State) (out : Outcome) :
    Keeps p (fun x t' => ∀ pt, follow x = some pt → Ready p pt t') (finish delay id cur out) t := by
  have hP : ∀ op : Op, (op.kind = .cursor ∨ op.kind = .clock) →
      op.kind ≠ .throttle ∧ op.kind ≠ .column := by
    rintro op (h | h) <;> simp [h]
  refine (keeps_of_all (finish_all delay id cur out) hP).mono fun x t' hx pt hpt => ?_
  rw [follow_of_ne hx.1 hpt]
  rfl

theorem keeps_health (p : MigrationPlan) (t : AdaptiveThrottle) :
    Keeps p (fun _ t' => t' = t) collectHealthMetrics t := by
  have hP : ∀ op : Op, op.kind ∈ [Kind.probe] → op.kind ≠ .throttle ∧ op.kind ≠ .column := by
    intro op h
    simp [List.mem_singleton.mp h]
  exact (keeps_of_all collectHealthMetrics_within hP).mono fun _ _ h => h.2

/-- **A reading.** -/
theorem keeps_updateHealth (h : Bounded p t) (hp : Bounded p (newAdaptiveThrottle (backfillConfig p))) :
    Keeps p (fun _ t' => Bounded p t') updateHealth t := by
  refine keeps_ask trivial fun ref _ => (keeps_health p _).bind ?_
  rintro m _ rfl
  cases m with
  | none => exact h
  | some m =>
    rintro _ _ t' ⟨-, rfl⟩
    exact ⟨trivial, h.adjust hp⟩

/-- The result of a turn. -/
def TurnReady (p : MigrationPlan) : Turn → AdaptiveThrottle → Prop
  | .again _, t => Bounded p t
  | .stop _, _ => True

theorem keeps_backfillRecord (h : Bounded p t) (r : Record) (n : ℕ) (pr : Progress) :
    Keeps p (TurnReady p) (backfillRecord r n pr) t := by
  refine (keeps_health p t).bind ?_
  rintro m _ rfl
  refine keeps_ask h.pause fun ms _ => keeps_ask trivial fun logged _ => keeps_ask trivial fun saved _ => ?_
  cases saved with
  | false => trivial
  | true =>
    refine keeps_ask h.pause fun pause _ => ?_
    split_ifs
    · refine keeps_ask trivial fun cancelled _ => ?_
      cases cancelled with
      | true => trivial
      | false => exact h
    · exact h

theorem keeps_backfillAdvance (h : Bounded p t) (r : Record) (n : ℕ) (pr : Progress) :
    Keeps p (TurnReady p) (backfillAdvance r n pr) t := by
  refine keeps_ask trivial fun x _ => ?_
  cases x with
  | none => trivial
  | some newLastID =>
    dsimp only
    split_ifs
    · trivial
    · exact keeps_backfillRecord h r n _

/-- **One turn of the loop.** -/
theorem keeps_backfillTurn (h : Bounded p t) (hp : Bounded p (newAdaptiveThrottle (backfillConfig p)))
    (r : Record) (pr : Progress) : Keeps p (TurnReady p) (backfillTurn r pr) t := by
  refine keeps_ask trivial fun stopped _ => ?_
  cases stopped with
  | true => trivial
  | false =>
    refine keeps_ask trivial fun tripped _ => ?_
    cases tripped with
    | true => exact keeps_ask trivial fun _ _ => h
    | false =>
      refine (keeps_updateHealth h hp).bind fun _ t' h' => ?_
      refine keeps_ask trivial fun size hsize => keeps_ask ?_ fun x _ => ?_
      · obtain rfl : size = t'.currentBatchSize := hsize
        exact h'.batch
      · cases x with
        | none => trivial
        | some n =>
          dsimp only
          split_ifs
          · trivial
          · exact keeps_backfillAdvance h' r n pr

/-- From the record to the loop. -/
theorem keeps_dispatch
    (hp : p.backfill.column ≠ "" → Bounded p (newAdaptiveThrottle (backfillConfig p))) {r : Record}
    (hr : r.plan = p) (delay : ℤ) (id : Id) :
    Keeps p (fun x t' => ∀ pt, follow x = some pt → Ready p pt t')
      (dispatch delay id .backfilling (fun _ => pure skipped) r) t := by
  unfold dispatch
  split_ifs with hcol
  · refine keeps_ask trivial fun ref _ => keeps_ask trivial fun x _ => ?_
    cases x with
    | none => exact keeps_finish delay id .backfilling (.error .countRemaining)
    | some n =>
      rintro pt hpt
      cases hpt
      rw [hr] at hcol ⊢
      exact ⟨hr, hcol.2, hp hcol.2⟩
  · exact keeps_finish delay id .backfilling skipped

/-- **A stretch in range leads to the next.** -/
theorem keeps_body
    (hp : p.backfill.column ≠ "" → Bounded p (newAdaptiveThrottle (backfillConfig p))) (delay : ℤ)
    (id : Id) (pt : Pt) (h : Ready p pt t) :
    Keeps p (fun x t' => ∀ pt', follow x = some pt' → Ready p pt' t') (body delay id pt) t := by
  cases pt with
  | start =>
    refine keeps_ask trivial fun x _ => ?_
    cases x with
    | none => exact fun _ hpt => nomatch hpt
    | some r =>
      intro pt' hpt
      rw [follow_of_ne (by rintro _ _ ⟨⟩) hpt]
      rfl
  | loop cur =>
    obtain rfl : cur = .backfilling := h
    refine keeps_ask trivial fun stopped _ => ?_
    cases stopped with
    | true => exact fun _ hpt => nomatch hpt
    | false =>
      refine keeps_ask trivial fun x hload => ?_
      cases x with
      | none => exact fun _ hpt => nomatch hpt
      | some r => exact keeps_dispatch hp (hload r rfl) delay id
  | batch r pr =>
    refine (keeps_backfillTurn h.2.2 (hp h.2.1) r pr).bind fun x t' hx => ?_
    cases x with
    | again pr' =>
      rintro pt' hpt
      cases hpt
      exact ⟨h.1, h.2.1, hx⟩
    | stop out => exact keeps_finish delay id .backfilling out

/-- A configuration that starts in range keeps every batch in range. -/
theorem paced_of_bounded
    (hp : p.backfill.column ≠ "" → Bounded p (newAdaptiveThrottle (backfillConfig p))) (delay : ℤ)
    (id : Id) : Paced delay id p := by
  intro t as m h
  have hsound := machine_inv (C := fun t x => InPace p t x.1.op) (I := fun _ => True) (J := Ready p)
    (fun _ _ _ _ _ _ => trivial) (fun _ pt _ hpt => by rw [hpt]; trivial)
    (fun pt _ _ hpt => keeps_body hp delay id pt hpt) h (sound_idle trivial)
  refine ⟨fun stmt lastID limit hop => ?_, fun hop => ?_⟩
  · exact hsound.allowed (r := none) (i := ()) hop ⟨trivial, rfl⟩
  · exact hsound.allowed (r := m.world.currentThrottleMs) (i := ()) hop ⟨rfl, rfl⟩

/-! ### Runs out of range -/

/-- The record of a migration that has just come to `Backfilling`. -/
def fresh (p : MigrationPlan) : Record := { id := 0, plan := p, state := .backfilling }

theorem reaches_loop (hcol : p.backfill.column ≠ "") (delay : ℤ) (id : Id) :
    ∃ as, SoloRuns delay id p ⟨t, none⟩ as
      ⟨newAdaptiveThrottle (backfillConfig p), some (body delay id (.batch (fresh p) ⟨0, 0, 0⟩))⟩ := by
  have hplan : ∀ rec, some (fresh p) = some rec → rec.plan = p := by
    rintro rec ⟨⟩
    rfl
  have hdispatch : After (dispatch delay id .backfilling (fun _ => pure skipped) (fresh p))
      [⟨.newThrottle (backfillConfig p), 0⟩, ⟨.countRemaining p.table p.backfill.column 0, some 0⟩]
      (.ret (.goto (.batch (fresh p) ⟨0, 0, 0⟩))) := by
    unfold dispatch
    rw [if_pos ⟨rfl, hcol⟩]
    exact After.cons (After.cons After.nil)
  have hstart : Path (Alone p) t [(⟨.load id, some (fresh p)⟩, ())] t :=
    Path.cons ⟨hplan, rfl⟩ Path.nil
  have hloop : Path (Alone p) t [(⟨.ctxDone, false⟩, ()), (⟨.load id, some (fresh p)⟩, ()),
      (⟨.newThrottle (backfillConfig p), 0⟩, ()),
      (⟨.countRemaining p.table p.backfill.column 0, some 0⟩, ())]
      (newAdaptiveThrottle (backfillConfig p)) :=
    Path.cons ⟨trivial, rfl⟩ (Path.cons ⟨hplan, rfl⟩ (Path.cons ⟨trivial, rfl⟩
      (Path.cons ⟨trivial, rfl⟩ Path.nil)))
  have h1 : SoloRuns delay id p ⟨t, none⟩ [.enter .start] ⟨t, some (body delay id .start)⟩ :=
    Path.nil.snoc (Step.enter rfl)
  have h2 := h1.append (path_of_after hstart (After.cons After.nil))
  have h3 := h2.snoc (Step.advance (show follow (.goto (.loop (fresh p).state)) = some _ from rfl))
  have h4 := h3.append (path_of_after hloop (After.cons (After.cons hdispatch)))
  exact ⟨_, h4.snoc (Step.advance (show follow (.goto (.batch (fresh p) ⟨0, 0, 0⟩)) = some _ from rfl))⟩

/-- The first reading fails. -/
theorem reaches_batch (hcol : p.backfill.column ≠ "") (delay : ℤ) (id : Id) :
    ∃ as m, SoloRuns delay id p ⟨t, none⟩ as m ∧
      m.Asks (.updateBatch (batchStmt p) 0 (backfillConfig p).initialBatchSize) := by
  obtain ⟨as, has⟩ := reaches_loop (t := t) hcol delay id
  have hworld : Path (Alone p) (newAdaptiveThrottle (backfillConfig p)) [(⟨.ctxDone, false⟩, ()),
      (⟨.isCircuitTripped, false⟩, ()), (⟨.throttleRef, 0⟩, ()), (⟨.connections, none⟩, ()),
      (⟨.getBatchSize, (backfillConfig p).initialBatchSize⟩, ())]
      (newAdaptiveThrottle (backfillConfig p)) :=
    Path.cons ⟨trivial, rfl⟩ (Path.cons ⟨rfl, rfl⟩ (Path.cons ⟨trivial, rfl⟩ (Path.cons ⟨trivial, rfl⟩
      (Path.cons ⟨rfl, rfl⟩ Path.nil))))
  exact ⟨_, _, has.append (path_of_after hworld (After.cons (After.cons (After.cons (After.cons
    (After.cons After.nil)))))), _, rfl⟩

theorem reaches_pause (hcol : p.backfill.column ≠ "") (delay : ℤ) (id : Id) :
    ∃ as m, SoloRuns delay id p ⟨t, none⟩ as m ∧ m.Asks .getThrottleMs ∧
      m.world = newAdaptiveThrottle (backfillConfig p) := by
  obtain ⟨as, has⟩ := reaches_loop (t := t) hcol delay id
  have hworld : Path (Alone p) (newAdaptiveThrottle (backfillConfig p)) [(⟨.ctxDone, false⟩, ()),
      (⟨.isCircuitTripped, false⟩, ()), (⟨.throttleRef, 0⟩, ()), (⟨.connections, none⟩, ()),
      (⟨.getBatchSize, (backfillConfig p).initialBatchSize⟩, ()),
      (⟨.updateBatch (batchStmt p) 0 (backfillConfig p).initialBatchSize, some 1⟩, ()),
      (⟨.maxId p.table p.backfill.column 0, some 1⟩, ()), (⟨.connections, none⟩, ())]
      (newAdaptiveThrottle (backfillConfig p)) :=
    Path.cons ⟨trivial, rfl⟩ (Path.cons ⟨rfl, rfl⟩ (Path.cons ⟨trivial, rfl⟩ (Path.cons ⟨trivial, rfl⟩
      (Path.cons ⟨rfl, rfl⟩ (Path.cons ⟨trivial, rfl⟩ (Path.cons ⟨trivial, rfl⟩ (Path.cons
        ⟨trivial, rfl⟩ Path.nil)))))))
  exact ⟨_, _, has.append (path_of_after hworld (After.cons (After.cons (After.cons (After.cons
    (After.cons (After.cons (After.cons (After.cons After.nil))))))))), ⟨_, rfl⟩, rfl⟩

end

/-- The plan's own values are in range. -/
theorem bounded_new_iff {p : MigrationPlan} : Bounded p (newAdaptiveThrottle (backfillConfig p)) ↔
    (p.backfill.batchSize ≤ 0 ∨ 100 ≤ p.backfill.batchSize ∧ p.backfill.batchSize ≤ 50000) ∧
      0 ≤ p.backfill.throttleMs ∧ p.backfill.throttleMs ≤ 5000 := by
  have hbatch : BatchInRange (backfillConfig p) (newAdaptiveThrottle (backfillConfig p)).currentBatchSize ↔
      p.backfill.batchSize ≤ 0 ∨ 100 ≤ p.backfill.batchSize ∧ p.backfill.batchSize ≤ 50000 := by
    simp only [BatchInRange, newAdaptiveThrottle, backfillConfig]
    split_ifs <;> omega
  exact ⟨fun h => ⟨hbatch.mp h.batch, h.pause⟩, fun h => ⟨rfl, hbatch.mpr h.1, h.2⟩⟩

/-- **When every batch keeps to the range**: when the plan's own values do. -/
theorem paced_iff (delay : ℤ) (id : Id) (p : ValidPlan) : Paced delay id p.plan ↔
    p.plan.backfill.column = "" ∨
      (p.plan.backfill.batchSize ≤ 0 ∨
        100 ≤ p.plan.backfill.batchSize ∧ p.plan.backfill.batchSize ≤ 50000) ∧
      0 ≤ p.plan.backfill.throttleMs ∧ p.plan.backfill.throttleMs ≤ 5000 := by
  rw [← bounded_new_iff]
  constructor
  · intro h
    by_cases hcol : p.plan.backfill.column = ""
    · exact Or.inl hcol
    · obtain ⟨_, m, hm, hop⟩ := reaches_batch (t := newAdaptiveThrottle defaultBackfillConfig) hcol delay id
      obtain ⟨_, m', hm', hop', hworld⟩ :=
        reaches_pause (t := newAdaptiveThrottle defaultBackfillConfig) hcol delay id
      have hpause := (h _ _ _ hm').2 hop'
      rw [hworld] at hpause
      exact Or.inr ⟨rfl, (h _ _ _ hm).1 _ _ _ hop, hpause⟩
  · rintro (hcol | hp)
    · exact paced_of_bounded (fun h => absurd hcol h) delay id
    · exact paced_of_bounded (fun _ => hp) delay id

/-- A plan that asks for batches of ten rows. -/
def smallBatches : MigrationPlan :=
  { backfillPlan with backfill := { backfillPlan.backfill with batchSize := 10, throttleMs := 20 } }

/-- Ten is below the minimum; as long as no reading succeeds nothing changes it. -/
theorem not_paced : ¬∀ (delay : ℤ) (id : Id) (p : ValidPlan), Paced delay id p.plan := by
  intro h
  have hvalid : validate smallBatches = .ok smallBatches.prepare.withDefaults := by decide +kernel
  obtain ⟨_, m, hm, hop⟩ := reaches_batch (p := smallBatches.prepare.withDefaults)
    (t := newAdaptiveThrottle defaultBackfillConfig) (by decide +kernel) 0 0
  have hsize : (backfillConfig smallBatches.prepare.withDefaults).initialBatchSize = 10 := by
    decide +kernel
  have hbatch := ((h 0 0 ⟨_, (validate_ok hvalid).2⟩ _ _ _ hm).1 _ _ _ hop).1
  rw [hsize] at hbatch
  exact absurd hbatch (by norm_num [backfillConfig])

end MigrationSafety.StateMachine.Solo
