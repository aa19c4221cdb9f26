import MigrationSafety.StateMachine.Gates

/-! # The service gate

A cutover asks for the registered services at most twice; a check that fails is passed over, also when
the one before it has reported a service that is not compatible.

* `serviceGate_cases`: the four ways the checks can go.
* `cutover_blocks_iff`: a service known to be incompatible blocks the cutover, unless the second check
  fails and nothing else stops it. -/

namespace MigrationSafety.StateMachine.Readiness

open MigrationSafety.Lib.Effects MigrationSafety.Lib.Binary64
open MigrationSafety.Plan.Validate MigrationSafety.Safety.Executor MigrationSafety.Sql.Rows
open MigrationSafety.StateMachine.Signature MigrationSafety.StateMachine.Handlers
open MigrationSafety.StateMachine.Run MigrationSafety.StateMachine.Gates

variable {id : Id} {r : Record} {t u : List (Event engine)} {out : Outcome}

/-! ### The checks -/

/-- A registered service is not compatible. -/
def Incompatible (c : ℕ × ℕ) : Prop := c.2 < c.1

instance (c : ℕ × ℕ) : Decidable (Incompatible c) := inferInstanceAs (Decidable (_ < _))

theorem Incompatible.not_ready {c : ℕ × ℕ} (h : Incompatible c) : allServicesReady c = false := by
  simp [allServicesReady, Nat.ne_of_gt h]

/-- A check of the services and what it returned. -/
abbrev check (id : Id) (ans : Option (ℕ × ℕ)) : Event engine := ⟨.serviceCounts id, ans⟩

/-- The five seconds between two checks. -/
abbrev pause : Event engine := ⟨.sleep (5 * second), ()⟩

/-- **How the checks can go**: one that fails or is passed, one that is not passed and then one that
fails or is passed, or two that are not passed. -/
theorem serviceGate_cases {why : Option Refusal} (h : Runs (serviceGate id) t why) :
    (why = none ∧ ∃ ans, t = [check id ans] ∧ ∀ c, ans = some c → allServicesReady c = true) ∨
      (why = none ∧ ∃ c, t = [check id (some c), pause, check id none]) ∨
      (why = none ∧ ∃ c c', t = [check id (some c), pause, check id (some c')] ∧
        allServicesReady c' = true) ∨
      ∃ why' c c', why = some why' ∧ t = [check id (some c), pause, check id (some c')] := by
  obtain ⟨ans, t1, rfl, h1⟩ := runs_perform_bind.mp h
  cases ans with
  | none =>
    obtain ⟨rfl, rfl⟩ := runs_ret.mp h1
    exact Or.inl ⟨rfl, none, rfl, nofun⟩
  | some c =>
    dsimp only at h1
    split_ifs at h1 with hc
    · obtain ⟨rfl, rfl⟩ := runs_ret.mp h1
      exact Or.inl ⟨rfl, some c, rfl, fun c' hc' => Option.some.inj hc' ▸ hc⟩
    · obtain ⟨-, t2, rfl, h2⟩ := runs_perform_bind.mp h1
      obtain ⟨ans, t3, rfl, h3⟩ := runs_perform_bind.mp h2
      cases ans with
      | none =>
        obtain ⟨rfl, rfl⟩ := runs_ret.mp h3
        exact Or.inr (Or.inl ⟨rfl, c, rfl⟩)
      | some c' =>
        dsimp only at h3
        split_ifs at h3 with hc'
        · obtain ⟨rfl, rfl⟩ := runs_ret.mp h3
          exact Or.inr (Or.inr (Or.inl ⟨rfl, c, c', rfl, hc'⟩))
        · obtain ⟨rfl, rfl⟩ := runs_ret.mp h3
          exact Or.inr (Or.inr (Or.inr ⟨_, c, c', rfl, rfl⟩))

/-! ### After the checks -/

/-- Nothing but the services stops the cutover: there is nothing to measure, or the measurement is
within the thresholds. -/
def Unstopped (r : Record) (t : List (Event engine)) : Prop :=
  r.plan.backfill.column = "" ∨ ∃ total drifted : ℕ,
    (threshold r.plan).val ≤ (parity total drifted).val ∧
      ⟨.fullParity r.plan.table r.plan.backfill.column r.plan.backfill.sourceExpr,
        some (total, 0, drifted)⟩ ∈ t

/-- The cutover behind its service gate. -/
theorem behind_gate {p : Code Outcome} (hp : p = if r.plan.backfill.column = "" then
      pure (.ok { checkpoint := [("step", .text State.cutover.text)] }) else cutoverGate r)
    (h : Runs p u out) : (∀ ans, check r.id ans ∉ u) ∧
      (persistedNext .cutover out = some .contracting ↔ Unstopped r u) := by
  subst hp
  split_ifs at h with hcol
  · obtain ⟨rfl, rfl⟩ := runs_ret.mp h
    exact ⟨fun _ => List.not_mem_nil, iff_of_true rfl (Or.inl hcol)⟩
  · obtain ⟨x, t1, rfl, h1⟩ := runs_perform_bind.mp h
    have hun : ∀ u : List (Event engine), Unstopped r u ↔ ∃ total drifted : ℕ,
        (threshold r.plan).val ≤ (parity total drifted).val ∧
          ⟨.fullParity r.plan.table r.plan.backfill.column r.plan.backfill.sourceExpr,
            some (total, 0, drifted)⟩ ∈ u := fun u => or_iff_right hcol
    rcases x with _ | ⟨total, nulls, drifted⟩
    · obtain ⟨rfl, rfl⟩ := runs_ret.mp h1
      refine ⟨by simp, ?_⟩
      rw [hun]
      simp [persistedNext]
    · dsimp only at h1
      split_ifs at h1 with hbad
      · obtain ⟨rfl, rfl⟩ := runs_ret.mp h1
        refine ⟨by simp, ?_⟩
        rw [hun, persistedNext_cutoverAbort]
        refine iff_of_false (by split_ifs <;> simp) ?_
        rintro ⟨total', drifted', hpar, hm⟩
        obtain ⟨rfl, rfl, rfl⟩ := by simpa using hm
        exact hbad.elim (lt_irrefl 0) (not_lt.mpr hpar)
      · obtain ⟨rfl, rfl⟩ := runs_ret.mp h1
        obtain ⟨hnull, hpar⟩ := not_or.mp hbad
        obtain rfl : nulls = 0 := by omega
        refine ⟨by simp, iff_of_true rfl ?_⟩
        exact (hun _).mpr ⟨total, drifted, not_lt.mp hpar, List.mem_singleton.mpr rfl⟩

/-! ### Blocking -/

/-- **A service known to be incompatible blocks the cutover**: after a check that reports one, only a
check that reports all registered services compatible leads to the contract. -/
def Blocks (r : Record) (t : List (Event engine)) (out : Outcome) : Prop :=
  ∀ t1 c t2, t = t1 ++ check r.id (some c) :: t2 → Incompatible c →
    (∀ c', check r.id (some c') ∈ t2 → c'.1 ≠ c'.2) →
      persistedNext .cutover out ≠ some .contracting

/-- The first check reports a service that is not compatible, the second fails, and nothing else stops
the cutover. -/
def FallsThrough (r : Record) (t : List (Event engine)) : Prop :=
  ∃ c u, t = check r.id (some c) :: pause :: check r.id none :: u ∧ Incompatible c ∧ Unstopped r u

/-- **When an incompatible service blocks**: unless the re-check fails and nothing else stops the
cutover. -/
theorem cutover_blocks_iff {r : Record} {t : List (Event engine)} {out : Outcome}
    (h : Runs (cutover r) t out) : Blocks r t out ↔ ¬FallsThrough r t := by
  obtain ⟨t1, u, why, rfl, h1, h2⟩ := runs_bind.mp h
  rcases serviceGate_cases h1 with ⟨rfl, ans, rfl, hans⟩ | ⟨rfl, c, rfl⟩ | ⟨rfl, c, c', rfl, hc'⟩ |
    ⟨why, c, c', rfl, rfl⟩
  · obtain ⟨hno, -⟩ := behind_gate rfl h2
    refine iff_of_true ?_ ?_
    · intro t1 c t2 heq hc
      rcases t1 with _ | ⟨e, t1⟩
      · obtain ⟨rfl, -⟩ := by simpa using heq
        exact absurd (hans c rfl) (by simp [hc.not_ready])
      · obtain ⟨-, rfl⟩ := by simpa using heq
        exact absurd (by simp) (hno (some c))
    · rintro ⟨c, u', heq, hc, -⟩
      obtain ⟨rfl, -⟩ := by simpa using heq
      exact absurd (hans c rfl) (by simp [hc.not_ready])
  · -- only the first check has reported anything
    obtain ⟨hno, hnext⟩ := behind_gate rfl h2
    constructor
    · rintro hb ⟨c', u', heq, hc, hun⟩
      obtain ⟨rfl, rfl⟩ := by simpa using heq
      exact hb [] c _ rfl hc (by simp [hno]) (hnext.mpr hun)
    · intro hf t1 c' t2 heq hc _ hcon
      rcases t1 with _ | ⟨e, _ | ⟨e', _ | ⟨e'', t1⟩⟩⟩
      · obtain ⟨rfl, -⟩ := by simpa using heq
        exact hf ⟨c, u, rfl, hc, hnext.mp hcon⟩
      · simp at heq
      · simp at heq
      · obtain ⟨-, -, -, rfl⟩ := by simpa using heq
        exact absurd (by simp) (hno (some c'))
  · obtain ⟨hno, -⟩ := behind_gate rfl h2
    have heq' : c'.1 = c'.2 := by
      simp only [allServicesReady, Bool.and_eq_true, decide_eq_true_eq] at hc'
      exact hc'.1
    refine iff_of_true ?_ ?_
    · intro t1 d t2 heq hd hlater
      rcases t1 with _ | ⟨e, _ | ⟨e', _ | ⟨e'', t1⟩⟩⟩
      · obtain ⟨-, rfl⟩ := by simpa using heq
        exact absurd heq' (hlater c' (by simp))
      · simp at heq
      · obtain ⟨-, -, rfl, -⟩ := by simpa using heq
        exact absurd heq' (Nat.ne_of_gt hd)
      · obtain ⟨-, -, -, rfl⟩ := by simpa using heq
        exact absurd (by simp) (hno (some d))
    · rintro ⟨d, u', heq, -, -⟩
      simp at heq
  · refine iff_of_true ?_ ?_
    · obtain ⟨rfl, rfl⟩ := runs_ret.mp h2
      intro _ _ _ _ _ _
      rw [persistedNext_cutoverAbort]
      split_ifs <;> simp
    · rintro ⟨c, u', heq, -, -⟩
      simp at heq

/-- One service, which is not compatible; the second check fails; the table is empty. -/
def failedRecheck : List (Event engine) :=
  [check 0 (some (1, 0)), pause, check 0 none, ⟨.fullParity "t" "b" "a", some (0, 0, 0)⟩]

theorem runs_failedRecheck : ∃ out, Runs (cutover (sampleRecord .cutover)) failedRecheck out ∧
    persistedNext .cutover out = some .contracting := by
  have hcol : ¬(sampleRecord .cutover).plan.backfill.column = "" := by decide +kernel
  have hpar : ¬(0 < 0 ∨ (parity 0 0).val < (threshold (sampleRecord .cutover).plan).val) := by
    decide +kernel
  have hgate : Runs (serviceGate 0) (failedRecheck.take 3) none :=
    After.cons (After.cons (After.cons After.nil))
  refine ⟨.ok { checkpoint := [("cutover_parity", .float (parity 0 0)), ("rows", .int 0)] },
    runs_bind.mpr ⟨_, failedRecheck.drop 3, none, rfl, hgate, ?_⟩, rfl⟩
  dsimp only
  rw [if_neg hcol]
  refine runs_perform_bind.mpr ⟨_, [], rfl, ?_⟩
  dsimp only
  rw [if_neg hpar]
  exact runs_ret.mpr ⟨rfl, rfl⟩

theorem fallsThrough_failedRecheck : FallsThrough (sampleRecord .cutover) failedRecheck := by
  refine ⟨(1, 0), _, rfl, by decide, Or.inr ⟨0, 0, by decide +kernel, List.mem_singleton.mpr rfl⟩⟩

/-- The failed check unblocks the cutover. -/
theorem cutover_blocks_iff_failed : ∃ out, Runs (cutover (sampleRecord .cutover)) failedRecheck out ∧
    ¬Blocks (sampleRecord .cutover) failedRecheck out := by
  obtain ⟨out, hr, -⟩ := runs_failedRecheck
  exact ⟨out, hr, fun hb => (cutover_blocks_iff hr).mp hb fallsThrough_failedRecheck⟩

/-- **A failed re-check lets a known-incompatible service through.** -/
theorem incompatible_cuts_over : ¬∀ (r : Record) (t : List (Event engine)) (out : Outcome),
    Accepted r.plan → Runs (cutover r) t out → Blocks r t out := by
  intro hall
  obtain ⟨out, hr, hnext⟩ := runs_failedRecheck
  exact hall _ _ _ accepted_backfillPlan hr [] (1, 0) _ rfl (by decide) (by simp) hnext

end MigrationSafety.StateMachine.Readiness
