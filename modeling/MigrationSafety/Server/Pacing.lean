import MigrationSafety.Server.Steps
import MigrationSafety.StateMachine.Pacing

/-! # Shared pacing

All backfills go through one throttle field. A backfill still paces itself by its own plan and its own
readings, in every run in which the field holds its own controller each time it looks
(`pacing_isolated`). -/

namespace MigrationSafety.Server.Pacing

open MigrationSafety.Lib.Effects MigrationSafety.Lib.Paths
open MigrationSafety.Plan.Validate MigrationSafety.Safety.Throttle
open MigrationSafety.StateMachine.Signature MigrationSafety.StateMachine.Handlers
open MigrationSafety.StateMachine.Run MigrationSafety.StateMachine.Pacing
open MigrationSafety.Server.Migrations MigrationSafety.Server.System MigrationSafety.Server.Steps

variable {n : ℕ} {delay : ℤ} {e e' : Engine n} {a : Act n} {w w' : Fin n}

/-! ### The events of a worker -/

def eventsOf (w : Fin n) (l : List (Entry n)) : List (Event engine) :=
  (l.filter (·.worker = w)).map (·.event)

/-- The events of the worker so far. -/
def events (e : Engine n) (w : Fin n) : List (Event engine) := eventsOf w e.log

theorem events_serve (t : Task) (env : Env) (op : Op) (k : op.Ret → Code Exit) :
    events (e.serve w t env op k) w = events e w ++ [⟨op, e.answer env op⟩] := by
  simp [events, eventsOf, log_serve, entry]

theorem events_serve_of_ne (t : Task) (env : Env) (op : Op) (k : op.Ret → Code Exit)
    (h : w' ≠ w) : events (e.serve w t env op k) w' = events e w' := by
  have hne : ¬(entry w t ⟨op, e.answer env op⟩).worker = w' := fun heq => h heq.symm
  simp [events, eventsOf, log_serve, hne]

/-- When a run looks at the field, it finds the controller it made last. -/
def OwnField (e : Engine n) : Act n → Prop
  | .work w _ => ∀ t op k s, e.workers w = some t → t.code = .call op k → Op.looks op = true →
      session (events e w) = some s → e.throttle = s.ref
  | _ => True

/-- The answer is the one this controller gives. -/
def Agrees (t : AdaptiveThrottle) : Event engine → Prop
  | ⟨.isCircuitTripped, b⟩ => b = t.circuitTripped
  | ⟨.getBatchSize, k⟩ => k = t.currentBatchSize
  | ⟨.getThrottleMs, k⟩ => k = t.currentThrottleMs
  | _ => True

/-! ### Controllers -/

/-- Every backfill has a controller of its own, in the state its own readings give. -/
structure Cells (e : Engine n) : Prop where
  fresh : ∀ w s, session (events e w) = some s → s.ref < e.throttleCount
  solo : ∀ w s, session (events e w) = some s → e.throttles s.ref = s.solo
  given : ∀ w s ref, session (events e w) = some s → ⟨.throttleRef, ref⟩ ∈ s.events → ref = s.ref
  apart : ∀ w w' s s', session (events e w) = some s → session (events e w') = some s' →
    s.ref = s'.ref → w = w'

/-- New controllers do not disturb the old ones. -/
theorem Cells.grow (h : Cells e) (hlog : e'.log = e.log)
    (hcount : e.throttleCount ≤ e'.throttleCount)
    (hold : ∀ ref, ref < e.throttleCount → e'.throttles ref = e.throttles ref) : Cells e' := by
  have hev : ∀ w, events e' w = events e w := fun w => by rw [events, hlog]; rfl
  refine ⟨fun w s hs => ?_, fun w s hs => ?_, fun w s ref hs => ?_, fun w w' s s' hs hs' => ?_⟩
  · rw [hev] at hs
    exact (h.fresh w s hs).trans_le hcount
  · rw [hev] at hs
    rw [hold _ (h.fresh w s hs), h.solo w s hs]
  · rw [hev] at hs
    exact h.given w s ref hs
  · rw [hev] at hs hs'
    exact h.apart w w' s s' hs hs'

section Serve
variable {t : Task} {env : Env} {op : Op} {k : op.Ret → Code Exit}

theorem session_serve (h : Op.isEnter op = false) :
    session (events (e.serve w t env op k) w) =
      (session (events e w)).map (·.add ⟨op, e.answer env op⟩) := by
  rw [events_serve, session_snoc, sessionStep_of_not_isEnter h]

/-- A backfill starts. -/
theorem Cells.enter {config : BackfillConfig} {k : ℕ → Code Exit} (h : Cells e) :
    Cells (e.serve w t env (.newThrottle config) k) := by
  have hself : session (events (e.serve w t env (.newThrottle config) k) w) =
      some ⟨config, e.throttleCount, []⟩ := by
    rw [events_serve, session_snoc]
    rfl
  have hcell : ∀ ref, (e.serve w t env (.newThrottle config) k).throttles ref =
      if ref = e.throttleCount then newAdaptiveThrottle config else e.throttles ref :=
    fun ref => Function.update_apply _ _ _ _
  have hcount : (e.serve w t env (.newThrottle config) k).throttleCount = e.throttleCount + 1 := rfl
  -- a session is the new one, or an old one of another worker
  have hcases : ∀ w' s, session (events (e.serve w t env (.newThrottle config) k) w') = some s →
      (w' = w ∧ s = ⟨config, e.throttleCount, []⟩) ∨
        (w' ≠ w ∧ session (events e w') = some s) := by
    intro w' s hs
    by_cases hw : w' = w
    · subst hw
      exact Or.inl ⟨rfl, Option.some.inj (hs.symm.trans hself)⟩
    · rw [events_serve_of_ne _ _ _ _ hw] at hs
      exact Or.inr ⟨hw, hs⟩
  refine ⟨fun w' s hs => ?_, fun w' s hs => ?_, fun w' s ref hs href => ?_,
    fun w1 w2 s1 s2 h1 h2 heq => ?_⟩
  · rw [hcount]
    rcases hcases w' s hs with ⟨-, rfl⟩ | ⟨-, hs⟩
    · exact Nat.lt_succ_self _
    · exact (h.fresh w' s hs).trans (Nat.lt_succ_self _)
  · rw [hcell]
    rcases hcases w' s hs with ⟨-, rfl⟩ | ⟨-, hs⟩
    · rw [if_pos rfl]
      simp [Session.solo, Session.readings]
    · rw [if_neg (h.fresh w' s hs).ne, h.solo w' s hs]
  · rcases hcases w' s hs with ⟨-, rfl⟩ | ⟨-, hs⟩
    · cases href
    · exact h.given w' s ref hs href
  · rcases hcases w1 s1 h1 with ⟨rfl, rfl⟩ | ⟨-, h1'⟩ <;>
      rcases hcases w2 s2 h2 with ⟨rfl, rfl⟩ | ⟨-, h2'⟩
    · rfl
    · exact absurd heq (h.fresh w2 s2 h2').ne'
    · exact absurd heq (h.fresh w1 s1 h1').ne
    · exact h.apart w1 w2 s1 s2 h1' h2' heq

/-- The controllers after an operation that makes none. -/
theorem throttles_effect (hop : Op.isEnter op = false) (ref : ℕ) :
    (e.effect env op).throttleCount = e.throttleCount ∧
      ((∀ m, op ≠ .adjustThrottle ref m) → (e.effect env op).throttles ref = e.throttles ref) := by
  cases op with
  | newThrottle config => cases hop
  | adjustThrottle r m =>
    refine ⟨rfl, fun hne => Function.update_of_ne ?_ _ _⟩
    rintro rfl
    exact hne m rfl
  | saveState id src dst checkpoint terminal =>
    simp only [Engine.effect, Engine.write]
    split_ifs <;> exact ⟨rfl, fun _ => rfl⟩
  | saveCheckpoint id state checkpoint =>
    simp only [Engine.effect, Engine.write]
    split_ifs <;> exact ⟨rfl, fun _ => rfl⟩
  | _ => exact ⟨rfl, fun _ => rfl⟩

/-- The own controller after an operation that makes none. -/
theorem Cells.solo_effect {s : Session} (h : Cells e) (hs : session (events e w) = some s)
    (hop : Op.isEnter op = false) (hadj : ∀ ref m, op = .adjustThrottle ref m → ref = s.ref) :
    (e.effect env op).throttles s.ref = (s.add ⟨op, e.answer env op⟩).solo := by
  by_cases hm : ∃ ref m, op = .adjustThrottle ref m
  · obtain ⟨ref, m, rfl⟩ := hm
    obtain rfl := hadj ref m rfl
    rw [Session.solo_add_reading, ← h.solo w s hs]
    exact Function.update_self ..
  · have hread : readingOf ⟨op, e.answer env op⟩ = none := by
      cases op <;> first | rfl | exact absurd ⟨_, _, rfl⟩ hm
    rw [Session.solo_add hread, ← h.solo w s hs]
    exact (throttles_effect hop _).2 fun m heq => hm ⟨_, m, heq⟩

/-- Any other operation, if a reading goes to the own controller and the field holds it. -/
theorem Cells.serve (h : Cells e) (hop : Op.isEnter op = false)
    (hadj : ∀ ref m, op = .adjustThrottle ref m →
      ∃ s, session (events e w) = some s ∧ ref = s.ref)
    (hown : ∀ s, op = .throttleRef → session (events e w) = some s → e.throttle = s.ref) :
    Cells (e.serve w t env op k) := by
  have hcases : ∀ w' s', session (events (e.serve w t env op k) w') = some s' →
      (w' = w ∧ ∃ s, session (events e w) = some s ∧ s' = s.add ⟨op, e.answer env op⟩) ∨
        (w' ≠ w ∧ session (events e w') = some s') := by
    intro w' s' hs'
    by_cases hw : w' = w
    · subst hw
      rw [session_serve hop] at hs'
      obtain ⟨s, hs, rfl⟩ := Option.map_eq_some_iff.mp hs'
      exact Or.inl ⟨rfl, s, hs, rfl⟩
    · rw [events_serve_of_ne _ _ _ _ hw] at hs'
      exact Or.inr ⟨hw, hs'⟩
  have hcount : (e.serve w t env op k).throttleCount = e.throttleCount :=
    (throttles_effect hop 0).1
  refine ⟨fun w' s' hs' => ?_, fun w' s' hs' => ?_, fun w' s' ref hs' href => ?_,
    fun w1 w2 s1 s2 h1 h2 heq => ?_⟩
  · rw [hcount]
    rcases hcases w' s' hs' with ⟨rfl, s, hs, rfl⟩ | ⟨-, hs⟩
    · exact h.fresh w' s hs
    · exact h.fresh w' s' hs
  · change (e.effect env op).throttles s'.ref = s'.solo
    rcases hcases w' s' hs' with ⟨rfl, s, hs, rfl⟩ | ⟨hw, hs⟩
    · refine h.solo_effect hs hop fun ref m heq => ?_
      obtain ⟨s0, hs0, href⟩ := hadj ref m heq
      rw [hs] at hs0
      cases hs0
      exact href
    · rw [← h.solo w' s' hs]
      refine (throttles_effect hop _).2 fun m heq => hw ?_
      obtain ⟨s0, hs0, href⟩ := hadj _ m heq
      exact h.apart w' w s' s0 hs hs0 href
  · rcases hcases w' s' hs' with ⟨rfl, s, hs, rfl⟩ | ⟨-, hs⟩
    · rcases List.mem_append.mp href with href | href
      · exact h.given w' s ref hs href
      · obtain ⟨hop', hans⟩ := Event.mk.inj (List.mem_singleton.mp href)
        subst hop'
        rw [eq_of_heq hans]
        exact hown s rfl hs
    · exact h.given w' s' ref hs href
  · rcases hcases w1 s1 h1 with ⟨rfl, s, hs, rfl⟩ | ⟨-, h1'⟩ <;>
      rcases hcases w2 s2 h2 with ⟨rfl, s', hs', rfl⟩ | ⟨-, h2'⟩
    · rfl
    · exact h.apart _ w2 s s2 hs h2' heq
    · exact h.apart w1 _ s1 s' h1' hs' heq
    · exact h.apart w1 w2 s1 s2 h1' h2' heq

end Serve

/-! ### The invariant -/

/-- Every answer so far is that of the own controller. -/
def Isolated (e : Engine n) : Prop :=
  ∀ l x l', e.log = l ++ x :: l' → Op.looks x.event.op = true →
    ∃ row s, e.store.rows x.id = some row ∧ session (eventsOf x.worker l) = some s ∧
      s.config = backfillConfig row.plan.plan ∧ Agrees s.solo x.event

structure Inv (e : Engine n) : Prop where
  cells : Cells e
  code : ∀ w t, e.workers w = some t → t.code.Spec (PaceAsk t.pt) (PaceDone t.id t.pt) (events e w)
  loaded : ∀ x ∈ e.log, ∀ i r, x.event = ⟨.load i, some r⟩ →
    ∃ row, e.store.rows i = some row ∧ row.plan.plan = r.plan
  batch : ∀ w t r pr, e.workers w = some t → t.pt = .batch r pr →
    ∃ row, e.store.rows t.id = some row ∧ row.plan.plan = r.plan
  isolated : Isolated e

theorem inv_init : Inv (Engine.init n) := by
  refine ⟨⟨?_, ?_, ?_, ?_⟩, ?_, ?_, ?_, ?_⟩
  · rintro w s ⟨⟩
  · rintro w s ⟨⟩
  · rintro w s ref ⟨⟩
  · rintro w w' s s' ⟨⟩
  · rintro w t ⟨⟩
  · rintro x ⟨⟩
  · rintro w t r pr ⟨⟩
  · rintro l x l' hl
    simp [Engine.init] at hl

theorem keeps_plan {s s' : Store} (h : Store.Keeps s s') {i : Id} {p : MigrationPlan}
    (hrow : ∃ row, s.rows i = some row ∧ row.plan.plan = p) :
    ∃ row, s'.rows i = some row ∧ row.plan.plan = p := by
  obtain ⟨row, hr, rfl⟩ := hrow
  obtain ⟨row', hr', hp⟩ := h i row hr
  exact ⟨row', hr', by rw [hp]⟩

/-- Steps that add nothing to the log. -/
theorem Inv.of_log (h : Inv e) (hlog : e'.log = e.log) (hk : Store.Keeps e.store e'.store)
    (hcells : Cells e')
    (hcode : ∀ w t, e'.workers w = some t →
      t.code.Spec (PaceAsk t.pt) (PaceDone t.id t.pt) (events e w))
    (hbatch : ∀ w t r pr, e'.workers w = some t → t.pt = .batch r pr →
      ∃ row, e.store.rows t.id = some row ∧ row.plan.plan = r.plan) : Inv e' := by
  refine ⟨hcells, fun w t hw => ?_, fun x hx i r hev => ?_, fun w t r pr hw hpt => ?_,
    fun l x l' hl hx => ?_⟩
  · have : events e' w = events e w := by rw [events, hlog]; rfl
    rw [this]
    exact hcode w t hw
  · rw [hlog] at hx
    exact keeps_plan hk (h.loaded x hx i r hev)
  · exact keeps_plan hk (hbatch w t r pr hw hpt)
  · rw [hlog] at hl
    obtain ⟨row, s, hr, hs, hc, ha⟩ := h.isolated l x l' hl hx
    obtain ⟨row', hr', hp⟩ := hk _ row hr
    exact ⟨row', s, hr', hs, by rw [hc, hp], ha⟩

/-- A worker is set to a control point it is ready for. -/
theorem Inv.setWorker (h : Inv e) {id : Id} {pt : Pt} (hready : Ready pt (events e w))
    (hrow : ∀ r pr, pt = .batch r pr → ∃ row, e.store.rows id = some row ∧ row.plan.plan = r.plan) :
    Inv (e.setWorker w (some (taskAt delay id pt))) := by
  refine h.of_log rfl (Store.Keeps.refl _) (h.cells.grow rfl le_rfl fun _ _ => rfl)
    (fun w' t ht => ?_) (fun w' t r pr ht hpt => ?_)
  · rcases setWorker_cases ht with ⟨rfl, hx⟩ | ⟨-, ht⟩
    · cases hx
      exact body_pace pt hready
    · exact h.code w' t ht
  · rcases setWorker_cases ht with ⟨rfl, hx⟩ | ⟨-, ht⟩
    · cases hx
      exact hrow r pr hpt
    · exact h.batch w' t r pr ht hpt

/-- The next control point of a run. -/
theorem Inv.goto {t : Task} {pt : Pt} (h : Inv e) (hw : e.workers w = some t)
    (hc : t.code = .ret (.goto pt)) : Inv (e.setWorker w (some (taskAt delay t.id pt))) := by
  have hdone := h.code w t hw
  rw [hc] at hdone
  have hboth : ∀ r pr, pt = .batch r pr → Entered r (events e w) ∧
      ∃ row, e.store.rows t.id = some row ∧ row.plan.plan = r.plan := by
    rintro r pr rfl
    cases hpt : t.pt with
    | start =>
      rw [hpt] at hdone
      exact absurd hdone id
    | loop cur =>
      rw [hpt] at hdone
      obtain ⟨hmem, hent⟩ := hdone
      obtain ⟨x, hx, hev⟩ := List.mem_map.mp hmem
      exact ⟨hent, h.loaded x (List.mem_of_mem_filter hx) _ _ hev⟩
    | batch r' pr' =>
      rw [hpt] at hdone
      obtain ⟨rfl, hent⟩ := hdone
      exact ⟨hent, h.batch w t _ _ hw hpt⟩
  exact h.setWorker (fun r pr heq => (hboth r pr heq).1) fun r pr heq => (hboth r pr heq).2

section Step
variable {t : Task} {env : Env} {op : Op} {k : op.Ret → Code Exit}

theorem Inv.ask (h : Inv e) (hw : e.workers w = some t) (hc : t.code = .call op k) :
    PaceAsk t.pt (events e w) op ∧ ∀ x, (k x).Spec (PaceAsk t.pt) (PaceDone t.id t.pt)
      (events e w ++ [⟨op, x⟩]) := by
  have := h.code w t hw
  rwa [hc] at this

/-- What a worker asks of the throttle, it asks of its own controller. -/
theorem Inv.cells_serve (h : Inv e) (hg : OwnField e (.work w env)) (hw : e.workers w = some t)
    (hc : t.code = .call op k) : Cells (e.serve w t env op k) := by
  obtain ⟨hask, -⟩ := h.ask hw hc
  cases hop : Op.isEnter op with
  | true =>
    cases op with
    | newThrottle config => exact h.cells.enter
    | _ => cases hop
  | false =>
    refine h.cells.serve hop (fun ref m heq => ?_) fun s heq hs => ?_
    · cases hpt : t.pt with
      | batch r pr =>
        rw [hpt] at hask
        obtain ⟨s, hs, -⟩ := hask.entered
        exact ⟨s, hs, h.cells.given w s ref hs (hask.given s ref m hs heq)⟩
      | _ =>
        rw [hpt] at hask
        exact absurd heq (hask.2 ref m)
    · exact hg t op k s hw hc (by rw [heq]; rfl) hs

/-- What a worker learns of the throttle is the answer of its own controller. -/
theorem Inv.agrees (h : Inv e) (hg : OwnField e (.work w env)) (hw : e.workers w = some t)
    (hc : t.code = .call op k) (hlook : Op.looks op = true) :
    ∃ row s, e.store.rows t.id = some row ∧ session (events e w) = some s ∧
      s.config = backfillConfig row.plan.plan ∧ Agrees s.solo ⟨op, e.answer env op⟩ := by
  obtain ⟨hask, -⟩ := h.ask hw hc
  cases hpt : t.pt with
  | batch r pr =>
    rw [hpt] at hask
    obtain ⟨s, hs, hconf⟩ := hask.entered
    obtain ⟨row, hrow, hp⟩ := h.batch w t r pr hw hpt
    refine ⟨row, s, hrow, hs, by rw [hconf, hp], ?_⟩
    have hcur : e.current = s.solo := by
      rw [Engine.current, hg t op k s hw hc hlook hs, h.cells.solo w s hs]
    cases op <;> simp [Agrees, Engine.answer, hcur]
  | _ =>
    rw [hpt] at hask
    rw [hask.1] at hlook
    cases hlook

theorem Inv.serve (h : Inv e) (hg : OwnField e (.work w env)) (hw : e.workers w = some t)
    (hc : t.code = .call op k) (hk : Store.Keeps e.store (e.serve w t env op k).store) :
    Inv (e.serve w t env op k) := by
  obtain ⟨-, hnext⟩ := h.ask hw hc
  refine ⟨h.cells_serve hg hw hc, fun w' t' ht' => ?_, fun x hx i r hev => ?_,
    fun w' t' r pr ht' hpt => keeps_plan hk ?_, fun l x l' hl hx => ?_⟩
  · rcases serve_cases ht' with ⟨rfl, rfl⟩ | ⟨hww, ht'⟩
    · rw [events_serve]
      exact hnext _
    · rw [events_serve_of_ne _ _ _ _ hww]
      exact h.code w' t' ht'
  · rw [log_serve] at hx
    rcases List.mem_append.mp hx with hx | hx
    · exact keeps_plan hk (h.loaded x hx i r hev)
    · rw [List.mem_singleton.mp hx] at hev
      obtain ⟨hop, hans⟩ := Event.mk.inj hev
      subst hop
      have hans := eq_of_heq hans
      simp only [Engine.answer] at hans
      split_ifs at hans
      obtain ⟨row, hrow, rfl⟩ := Store.load_eq_some.mp hans
      exact keeps_plan hk ⟨row, hrow, rfl⟩
  · rcases serve_cases ht' with ⟨rfl, rfl⟩ | ⟨-, ht'⟩
    · exact h.batch w' t r pr hw hpt
    · exact h.batch w' t' r pr ht' hpt
  · -- the entry is the last one, or an old one
    rw [log_serve] at hl
    have hnew : ∃ row s, e.store.rows x.id = some row ∧ session (eventsOf x.worker l) = some s ∧
        s.config = backfillConfig row.plan.plan ∧ Agrees s.solo x.event := by
      rcases List.eq_nil_or_concat l' with rfl | ⟨l'', y, rfl⟩
      · obtain ⟨rfl, hx'⟩ := List.append_inj' hl rfl
        obtain rfl := List.singleton_inj.mp hx'
        exact h.agrees hg hw hc hx
      · have hl' : e.log ++ [entry w t ⟨op, e.answer env op⟩] = (l ++ x :: l'') ++ [y] := by
          rw [hl]
          simp
        exact h.isolated l x l'' (List.append_inj' hl' rfl).1 hx
    obtain ⟨row, s, hrow, hs, hconf, ha⟩ := hnew
    obtain ⟨row', hrow', hp⟩ := hk _ row hrow
    exact ⟨row', s, hrow', hs, by rw [hconf, hp], ha⟩

end Step

/-- **Every step keeps the pacing apart.** -/
theorem Inv.step (h : Inv e) (hg : OwnField e a) (hs : Stepped delay e a e') : Inv e' := by
  have hk := keeps_step hs
  cases hs with
  | refused hp => exact h
  | apply hr hp => exact h.of_log rfl hk (h.cells.grow rfl le_rfl fun _ _ => rfl) h.code h.batch
  | send hi hcap => exact h.of_log rfl hk (h.cells.grow rfl le_rfl fun _ _ => rfl) h.code h.batch
  | resume hr hcap => exact h.of_log rfl hk (h.cells.grow rfl le_rfl fun _ _ => rfl) h.code h.batch
  | @pickup w id ids hw hj =>
    have : Inv (e.setWorker w (some (taskAt delay id .start))) :=
      h.setWorker (by rintro r pr ⟨⟩) (by rintro r pr ⟨⟩)
    exact this.of_log rfl hk (this.cells.grow rfl le_rfl fun _ _ => rfl) this.code this.batch
  | goto hw hc => exact h.goto hw hc
  | @stop w env t x hw hc =>
    refine h.of_log rfl hk (h.cells.grow rfl le_rfl fun _ _ => rfl) (fun w' t' ht' => ?_)
      fun w' t' r pr ht' hpt => ?_
    · rcases setWorker_cases (e := e) ht' with ⟨rfl, hx⟩ | ⟨-, ht'⟩
      · cases hx
      · exact h.code w' t' ht'
    · rcases setWorker_cases (e := e) ht' with ⟨rfl, hx⟩ | ⟨-, ht'⟩
      · cases hx
      · exact h.batch w' t' r pr ht' hpt
  | serve hw hc => exact h.serve hg hw hc hk
  | abort => exact h.of_log rfl hk (h.cells.grow rfl le_rfl fun _ _ => rfl) h.code h.batch
  | restart =>
    refine h.of_log rfl hk (h.cells.grow rfl (Nat.le_succ _) fun ref href => ?_) ?_ ?_
    · exact Function.update_of_ne href.ne _ _
    · rintro w t ⟨⟩
    · rintro w t r pr ⟨⟩

/-- **A backfill paces itself by its own plan and its own readings**, in every run in which the field
holds its own controller whenever it looks. -/
theorem pacing_isolated {as : List (Act n)} (h : Runs delay OwnField (Engine.init n) as e)
    {l l' : List (Entry n)} {x : Entry n} (hl : e.log = l ++ x :: l')
    (hx : Op.looks x.event.op = true) :
    ∃ row s, e.store.rows x.id = some row ∧ session (eventsOf x.worker l) = some s ∧
      s.config = backfillConfig row.plan.plan ∧ Agrees s.solo x.event := by
  have hi : Inv e := h.invariant inv_init fun u a v hu ha => hu.step ha.2 (step_inv ha.1)
  exact hi.isolated l x l' hl hx

/-! ### Two backfills -/

/-- A plan with its own batch size. -/
def batchPlan (version batchSize : ℤ) : MigrationPlan :=
  { backfillPlan with
    version := version
    backfill := { backfillPlan.backfill with batchSize := batchSize } }

/-- The worker finds its own controller. -/
def ownField (e : Engine n) : Act n → Bool
  | .work w _ => (session (events e w)).all fun s => e.throttle = s.ref
  | _ => true

theorem ownField_of_ownField (e : Engine n) (a : Act n) (h : ownField e a = true) :
    OwnField e a := by
  cases a with
  | work w env =>
    intro t op k s _ _ _ hs
    simp only [ownField, hs, Option.all_some, decide_eq_true_eq] at h
    exact h
  | _ => trivial

/-- The batch size that has just been answered. -/
def lastBatchSize (e : Engine n) : Option (Fin n × ℤ) :=
  e.log.getLast?.bind fun x =>
    match x.event with
    | ⟨.getBatchSize, k⟩ => some (x.worker, k)
    | _ => none

theorem log_of_lastBatchSize {k : ℤ} (h : lastBatchSize e = some (w, k)) :
    ∃ id state, e.log = e.log.dropLast ++ [⟨w, id, state, ⟨.getBatchSize, k⟩⟩] := by
  obtain ⟨⟨w', id, state, ⟨op, ans⟩⟩, hx, h⟩ := Option.bind_eq_some_iff.mp h
  cases op with
  | getBatchSize =>
    cases h
    exact ⟨id, state, (List.dropLast_append_getLast? _ hx).symm⟩
  | _ => cases h

/-- A backfill that is alone: its first batch is of 15 rows, half as many again as the plan says. -/
theorem pacing_isolated_alone : ∃ (e : Engine 2) (x : Entry 2), lastBatchSize e = some (0, 15) ∧
    e.log = e.log.dropLast ++ [x] ∧
    ∃ row s, e.store.rows x.id = some row ∧ session (eventsOf x.worker e.log.dropLast) = some s ∧
      s.config = backfillConfig row.plan.plan ∧ Agrees s.solo x.event := by
  have hrun : ((runs (Engine.step 0) ownField (Engine.init 2)
      (submit (batchPlan 1 10) 0 ++ drive 0 32)).any fun e =>
        lastBatchSize e = some (0, 15)) = true := by
    decide +kernel
  obtain ⟨e, he, hP⟩ := exists_path_of_any ownField_of_ownField hrun
  have hlast := of_decide_eq_true hP
  obtain ⟨id, state, hlog⟩ := log_of_lastBatchSize hlast
  exact ⟨e, _, hlast, hlog, pacing_isolated he hlog rfl⟩

/-- **A second backfill takes over the pace of the first.** -/
theorem pacing_shared : ¬∀ (n : ℕ) (delay : ℤ) (as : List (Act n)) (e : Engine n)
    (l l' : List (Entry n)) (x : Entry n), Runs delay (fun _ _ => True) (Engine.init n) as e →
      e.log = l ++ x :: l' → Op.looks x.event.op = true →
      ∃ row s, e.store.rows x.id = some row ∧ session (eventsOf x.worker l) = some s ∧
        s.config = backfillConfig row.plan.plan ∧ Agrees s.solo x.event := by
  intro hall
  have hrun : ((runs (Engine.step 0) (fun _ _ => true) (Engine.init 2)
      (submit (batchPlan 1 10) 0 ++ drive 0 31 ++ submit (batchPlan 2 20) 1 ++ drive 1 21 ++
        drive 0 1)).any fun e => lastBatchSize e = some (0, 20) ∧
          (session (eventsOf 0 e.log.dropLast)).map (·.solo.currentBatchSize) = some 15) = true := by
    decide +kernel
  obtain ⟨e, he, hP⟩ := exists_path_of_any_free hrun
  obtain ⟨hlast, halone⟩ := of_decide_eq_true hP
  obtain ⟨id, state, hlog⟩ := log_of_lastBatchSize hlast
  obtain ⟨row, s, -, hs, -, ha⟩ := hall 2 0 _ e _ _ _ he hlog rfl
  rw [hs] at halone
  have hsize : (20 : ℤ) = s.solo.currentBatchSize := ha
  rw [Option.map_some, ← hsize] at halone
  cases halone

end MigrationSafety.Server.Pacing
