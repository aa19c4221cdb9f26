import MigrationSafety.Server.Follow

/-! # Pausing on a failure

With `on_failure = pause` a gate that fails ends the run with an error, and the migration stays where
it is. What holds it there (`HeldUp`): nothing is under way for it, or all that is under way will end
at the same canary. Without a request for it the first is kept by every step but a restart, which
takes up all that is not terminal; so the migration waits for a human in every run each of whose
restarts finds it terminal or doomed to breach again (`pause_waits`). A failed cutover is neither, and
a restart tries it again (`restart_resumes_paused`). -/

namespace MigrationSafety.Server.Pause

open MigrationSafety.Lib.Effects MigrationSafety.Lib.Paths MigrationSafety.Plan.Validate
open MigrationSafety.StateMachine.Signature MigrationSafety.StateMachine.Handlers
open MigrationSafety.StateMachine.Run MigrationSafety.StateMachine.Outcomes
open MigrationSafety.StateMachine.CanarySteps MigrationSafety.StateMachine.Checkpoints
open MigrationSafety.StateMachine.Trace (Ask Done NoSave Op.isSave Completed noSave_nil)
open MigrationSafety.Server.Migrations MigrationSafety.Server.System MigrationSafety.Server.Steps
open MigrationSafety.Server.Drivers (waiting waiting_serve)
open MigrationSafety.Server.Follow MigrationSafety.Server.History

variable {n : ℕ} {delay : ℤ} {e e' : Engine n} {a : Act n} {w : Fin n} {m : Id} {r : Row}

/-- A gate has failed, and the plan says to pause. -/
def Paused : HandlerError → Prop
  | .breach _ _ onFailure => onFailure = .pause
  | .aborted _ onFailure => onFailure = .pause
  | _ => False

/-- A run of `m` has ended at a gate, and no other run of it is queued or at work. -/
def Failed (e : Engine n) (m : Id) : Prop :=
  m ∉ waiting e ∧ ∃ w t cur err, e.workers w = some t ∧ t.id = m ∧
    t.code = .ret (.stop (.error (.handler cur err))) ∧ Paused err ∧
      ∀ w' t', e.workers w' = some t' → t'.id = m → w' = w

/-- No request for `m`. -/
def Unattended (m : Id) (e : Engine n) : Act n → Prop
  | .apply p true => ∀ vp, check p = .ok vp → (e.store.createMigration vp).1 ≠ m
  | .abort id => id ≠ m
  | _ => True

/-- Every canary of the migration will breach, and pause it. -/
def Doomed (r : Row) : Prop :=
  r.state = .canary ∧ r.plan.plan.onFailure = .pause ∧
    ∃ s ∈ r.plan.plan.canary.steps, breaches r.plan.plan s = true

/-- No request for `m`, and a restart finds it terminal or doomed. -/
def Waits (m : Id) (e : Engine n) (a : Act n) : Prop :=
  Unattended m e a ∧
    (a = .restart → ∀ r, e.store.rows m = some r → r.terminal = true ∨ Doomed r)

/-- A worker at the canary, or about to load its record. -/
structure AtCanary (delay : ℤ) (e : Engine n) (w : Fin n) (t : Task) (l : List (Entry n))
    (tr : List (Event engine)) : Prop where
  follows : Follows delay e w t l tr
  noSave : NoSave tr
  point : t.pt = .loop .canary ∨
    (t.pt = .start ∧ ∀ i r, ⟨.load i, some r⟩ ∈ tr → r.state = .canary)

/-- **What holds `m` up.** -/
inductive HeldUp (delay : ℤ) (m : Id) (e : Engine n) : Prop
  | idle (hwait : m ∉ waiting e)
      (hstop : ∀ w t, e.workers w = some t → t.id = m → ∃ x, t.code = .ret (.stop x))
  | doomed (hd : ∃ r, e.store.rows m = some r ∧ Doomed r)
      (hcan : ∀ w t, e.workers w = some t → t.id = m → ∃ l tr, AtCanary delay e w t l tr)

theorem Failed.heldUp (h : Failed e m) : HeldUp delay m e := by
  obtain ⟨hwait, w, t, cur, err, hw, hm, hc, -, hone⟩ := h
  refine .idle hwait fun w' t' ht' hm' => ?_
  obtain rfl := hone w' t' ht' hm'
  cases hw.symm.trans ht'
  exact ⟨_, hc⟩

section AtCanary
variable {t : Task} {l : List (Entry n)} {tr : List (Event engine)}

/-- A doomed canary does not pass. -/
theorem AtCanary.not_save (h : AtCanary delay e w t l tr) (hm : t.id = m)
    (hr : e.store.rows m = some r) (hd : Doomed r) {i : Id} {src dst : State} {c : Checkpoint}
    {b : Bool} {k : (Op.saveState i src dst c b).Ret → Code Exit} :
    t.code ≠ .call (.saveState i src dst c b) k := by
  intro hc
  obtain ⟨-, -, hcom⟩ := (h.follows.stretch.ask hc).save_inv
  rcases h.point with hpt | ⟨hpt, -⟩
  · generalize hpt' : t.pt = pt at hcom
    cases hcom with
    | @handler cur _ hd' r' u res hcan hrun hdst hb =>
      cases hpt.symm.trans hpt'
      obtain rfl : hd' = canary delay := (Option.some_injective _ hcan).symm
      obtain ⟨-, hplan⟩ := h.follows.of_plan (i := t.id) (r := r') hm
        (fun r0 hr0 => by cases hr.symm.trans hr0; rfl) (by simp)
      obtain ⟨-, hpause, s, hs, hbr⟩ := hd
      have hend := canary_spec.runs hrun
      generalize hout : (Except.ok res : Outcome) = out at hend
      cases hend with
      | passed hw =>
        have := hw.healthy s (hplan ▸ hs)
        rw [hplan, hbr] at this
        cases this
      | failed => cases hout
      | breached _ _ _ hf =>
        rw [hplan, hpause] at hf
        cases hf
    | batch => cases hpt.symm.trans hpt'
  · have := hcom.pt_state
    rw [hpt] at this
    cases this

/-- It stays at the canary. -/
theorem AtCanary.goto (h : AtCanary delay e w t l tr) {pt : Pt} (hc : t.code = .ret (.goto pt)) :
    pt = .loop .canary := by
  have hdone := h.follows.stretch.done hc
  rcases h.point with hpt | ⟨hpt, hload⟩
  · generalize hpt' : t.pt = pt0 at hdone
    cases hdone with
    | loaded => cases hpt.symm.trans hpt'
    | @saved _ tr1 tr2 src dst c htr ht =>
      have := h.noSave _ (List.mem_append_right tr1 List.mem_cons_self)
      cases this
    | enter => cases hpt.symm.trans hpt'
    | again => cases hpt.symm.trans hpt'
  · generalize hpt' : t.pt = pt0 at hdone
    cases hdone with
    | loaded => rw [hload _ _ List.mem_cons_self]
    | @saved _ tr1 tr2 src dst c htr ht =>
      have := h.noSave _ (List.mem_append_right tr1 List.mem_cons_self)
      cases this
    | enter => cases hpt.symm.trans hpt'
    | again => cases hpt.symm.trans hpt'

/-- An answer to it. -/
theorem AtCanary.serve {env : Env} {op : Op} {k : op.Ret → Code Exit}
    (h : AtCanary delay e w t l tr) (hw : e.workers w = some t) (hm : t.id = m)
    (hr : e.store.rows m = some r) (hd : Doomed r) (hc : t.code = .call op k) :
    AtCanary delay (e.serve w t env op k) w { t with code := k (e.answer env op) } l
      (tr ++ [⟨op, e.answer env op⟩]) := by
  have hk := keeps_step (.serve hw hc : Stepped delay e (.work w env) _)
  refine ⟨h.follows.serve hc hk, ?_, h.point.imp_right fun hst => ⟨hst.1, fun i r' hmem => ?_⟩⟩
  · intro ev hev
    rcases List.mem_append.mp hev with hev | hev
    · exact h.noSave ev hev
    · rw [List.mem_singleton.mp hev]
      cases op with
      | saveState i src dst c b => exact absurd hc (h.not_save hm hr hd)
      | _ => rfl
  · rcases List.mem_append.mp hmem with hmem | hmem
    · exact hst.2 i r' hmem
    · obtain ⟨rfl, hans⟩ := Event.mk.inj (List.mem_singleton.mp hmem)
      obtain rfl := (h.follows.stretch.ask hc).load_inv.trans hm
      have hans := (eq_of_heq hans).symm
      simp only [Engine.answer] at hans
      split_ifs at hans
      obtain ⟨row, hrow, rfl⟩ := Store.load_eq_some.mp hans
      cases hr.symm.trans hrow
      exact hd.1

end AtCanary

/-! ### Steps -/

theorem Doomed.of_pos {r' : Row} (h : Doomed r) (hp : Row.pos r' = Row.pos r) : Doomed r' := by
  obtain ⟨hplan, hst, -⟩ : r'.plan = r.plan ∧ r'.state = r.state ∧ r'.terminal = r.terminal := by
    simpa [Row.pos] using hp
  unfold Doomed
  rw [hplan, hst]
  exact h

/-- What a step does to `m` while something holds it up: nothing moves, and nothing is sent. -/
structure Still (m : Id) (e e' : Engine n) : Prop where
  stored : ∀ r, e.store.rows m = some r → ∃ r', e'.store.rows m = some r' ∧ Row.pos r' = Row.pos r
  sent : ∃ new, hist e' m = hist e m ++ new ∧ ∀ x ∈ new, ¬Sends .contracting x

theorem Still.of_same (hh : hist e' m = hist e m)
    (hr : ∀ r, e.store.rows m = some r → e'.store.rows m = some r) : Still m e e' :=
  ⟨fun r h => ⟨r, hr r h, rfl⟩, [], by simp [hh], by simp⟩

/-- Steps that give `m` no new worker and leave the others in their stretches. -/
theorem HeldUp.of_workers (h : HeldUp delay m e) (hwait : m ∉ waiting e → m ∉ waiting e')
    (hs : Still m e e')
    (hw : ∀ w t, e'.workers w = some t → t.id = m → e.workers w = some t)
    (hf : ∀ {w t l tr}, Follows delay e w t l tr → e'.workers w = some t → t.id = m →
      Follows delay e' w t l tr) : HeldUp delay m e' := by
  cases h with
  | idle hno hstop => exact .idle (hwait hno) fun w t ht hm => hstop w t (hw w t ht hm) hm
  | doomed hd hcan =>
    obtain ⟨r, hr, hd⟩ := hd
    obtain ⟨r', hr', hpos⟩ := hs.stored r hr
    refine .doomed ⟨r', hr', hd.of_pos hpos⟩ fun w t ht hm => ?_
    obtain ⟨l, tr, hc⟩ := hcan w t (hw w t ht hm) hm
    exact ⟨l, tr, hf hc.follows ht hm, hc.noSave, hc.point⟩

/-- A doomed migration with the workers `m` had, but for one at the canary. -/
theorem HeldUp.of_canary (hr : ∃ r, e'.store.rows m = some r ∧ Doomed r)
    (hcan : ∀ w' t', e'.workers w' = some t' → t'.id = m → w' ≠ w →
      ∃ l tr, AtCanary delay e' w' t' l tr)
    (hself : ∀ t', e'.workers w = some t' → t'.id = m → ∃ l tr, AtCanary delay e' w t' l tr) :
    HeldUp delay m e' := by
  refine .doomed hr fun w' t' ht' hm' => ?_
  by_cases hww : w' = w
  · subst hww
    exact hself t' ht' hm'
  · exact hcan w' t' ht' hm' hww

/-- An answer to a worker of `m` leaves its position. -/
theorem pos_serve {t : Task} {env : Env} {op : Op} {k : op.Ret → Code Exit} {l : List (Entry n)}
    {tr : List (Event engine)} (h : AtCanary delay e w t l tr) (hm : t.id = m)
    (hr : e.store.rows m = some r) (hd : Doomed r) (hc : t.code = .call op k) :
    ∃ r', (e.effect env op).store.rows m = some r' ∧ Row.pos r' = Row.pos r := by
  have hpos : pos (e.effect env op).store m = pos e.store m := by
    rcases pos_effect (e := e) env op m with hsame | ⟨_, _, _, _, rfl, -⟩
    · exact hsame
    · exact absurd hc (h.not_save hm hr hd)
  have hsome : pos (e.effect env op).store m = some (Row.pos r) := by
    rw [hpos]
    simp [pos, hr]
  obtain ⟨r', hr', heq⟩ := Option.map_eq_some_iff.mp hsome
  exact ⟨r', hr', heq⟩

/-- **Every step leaves `m` where it is**, and held up. -/
theorem HeldUp.step (h : HeldUp delay m e) (hfl : Followed delay e) (hr : e.store.rows m = some r)
    (hok : Waits m e a) (hs : Stepped delay e a e') : HeldUp delay m e' ∧ Still m e e' := by
  have hk := keeps_step hs
  obtain ⟨hquiet, hrestart⟩ := hok
  cases hs with
  | refused hq =>
    exact ⟨h, .of_same rfl fun _ h => h⟩
  | @apply p reported vp hres hq =>
    have hstill : Still m e { e with
        store := (e.store.createMigration vp).2
        blocked := if reported then e.blocked ++ [(e.store.createMigration vp).1] else e.blocked } :=
      .of_same rfl fun _ h => Store.rows_createMigration_of_some h
    refine ⟨h.of_workers ?_ hstill (fun _ _ ht _ => ht) fun hf _ _ => hf.of_log rfl hk, hstill⟩
    intro hno
    cases reported with
    | false => exact hno
    | true =>
      have hne := hquiet vp hq
      simp only [waiting, List.mem_append, if_true, List.mem_singleton, not_or] at hno ⊢
      exact ⟨⟨hno.1.1, hno.1.2, hne.symm⟩, hno.2⟩
  | @send i id hi hcap =>
    have hstill : Still m e { e with blocked := e.blocked.eraseIdx i, jobs := e.jobs ++ [id] } :=
      .of_same rfl fun _ h => h
    refine ⟨h.of_workers ?_ hstill (fun _ _ ht _ => ht) fun hf _ _ => hf.of_log rfl hk, hstill⟩
    intro hno
    have hmem := List.mem_of_getElem? hi
    simp only [waiting, List.mem_append, List.mem_singleton, not_or] at hno ⊢
    exact ⟨⟨hno.1.1, fun hb => hno.1.2 (List.mem_of_mem_eraseIdx hb)⟩, hno.2,
      fun heq => hno.1.2 (heq ▸ hmem)⟩
  | @resume id ids hres hcap =>
    have hstill : Still m e { e with resuming := ids, jobs := e.jobs ++ [id] } :=
      .of_same rfl fun _ h => h
    refine ⟨h.of_workers ?_ hstill (fun _ _ ht _ => ht) fun hf _ _ => hf.of_log rfl hk, hstill⟩
    intro hno
    simp only [waiting, hres, List.mem_append, List.mem_cons, List.not_mem_nil, or_false,
      not_or] at hno ⊢
    exact ⟨⟨hno.1.1.2, hno.1.2⟩, hno.2, hno.1.1.1⟩
  | @pickup w id ids hw hj =>
    have hstill : Still m e { e.setWorker w (some (taskAt delay id .start)) with jobs := ids } :=
      .of_same rfl fun _ h => h
    refine ⟨?_, hstill⟩
    by_cases hm : id = m
    · subst hm
      cases h with
      | idle hno => exact absurd (List.mem_append_right _ (by rw [hj]; exact List.mem_cons_self)) hno
      | doomed hd hcan =>
        refine .of_canary (w := w) hd (fun w' t' ht' hm' hww => ?_) fun t' ht' _ => ?_
        · obtain ⟨l, tr, hc⟩ := hcan w' t' ((setWorker_of_ne (e := e) _ hww).symm.trans ht') hm'
          exact ⟨l, tr, hc.follows.of_log rfl hk, hc.noSave, hc.point⟩
        · cases (setWorker_self (e := e) _).symm.trans ht'
          exact ⟨_, _, follows_taskAt _ _ _ (by rintro r pr ⟨⟩), noSave_nil, Or.inr ⟨rfl, by simp⟩⟩
    · refine h.of_workers (fun hno => ?_) hstill (fun w' t' ht' hm' => ?_)
        fun hf _ _ => hf.of_log rfl hk
      · simp only [waiting, hj, List.mem_append, List.mem_cons, not_or] at hno ⊢
        exact ⟨hno.1, hno.2.2⟩
      · rcases setWorker_cases (e := e) ht' with ⟨rfl, hx⟩ | ⟨-, ht'⟩
        · cases hx
          exact absurd hm' hm
        · exact ht'
  | @goto w env t pt hw hc =>
    have hstill : Still m e (e.setWorker w (some (taskAt delay t.id pt))) := .of_same rfl fun _ h => h
    refine ⟨?_, hstill⟩
    by_cases hm : t.id = m
    · cases h with
      | idle hno hstop =>
        obtain ⟨x, hx⟩ := hstop w t hw hm
        cases hx.symm.trans hc
      | doomed hd hcan =>
        refine .of_canary (w := w) hd (fun w' t' ht' hm' hww => ?_) fun t' ht' _ => ?_
        · obtain ⟨l, tr, hc⟩ := hcan w' t' ((setWorker_of_ne (e := e) _ hww).symm.trans ht') hm'
          exact ⟨l, tr, hc.follows.of_log rfl hk, hc.noSave, hc.point⟩
        · rw [setWorker_self] at ht'
          cases ht'
          obtain ⟨l, tr, hat⟩ := hcan w t hw hm
          exact ⟨_, _, follows_taskAt _ _ _ (hat.follows.goto hc), noSave_nil,
            Or.inl (hat.goto hc)⟩
    · refine h.of_workers (fun hno => hno) hstill (fun w' t' ht' hm' => ?_)
        fun hf _ _ => hf.of_log rfl hk
      rcases setWorker_cases ht' with ⟨rfl, hx⟩ | ⟨-, ht'⟩
      · cases hx
        exact absurd hm' hm
      · exact ht'
  | @stop w env t x hw hc =>
    have hstill : Still m e (e.setWorker w none) := .of_same rfl fun _ h => h
    refine ⟨h.of_workers (fun hno => hno) hstill (fun w' t' ht' hm' => ?_)
      fun hf _ _ => hf.of_log rfl hk, hstill⟩
    rcases setWorker_cases ht' with ⟨rfl, hx⟩ | ⟨-, ht'⟩
    · cases hx
    · exact ht'
  | @serve w env t op k hw hc =>
    by_cases hm : t.id = m
    · cases h with
      | idle hno hstop =>
        obtain ⟨x, hx⟩ := hstop w t hw hm
        cases hx.symm.trans hc
      | doomed hd hcan =>
        obtain ⟨r0, hr0, hd⟩ := hd
        cases hr.symm.trans hr0
        obtain ⟨l, tr, hat⟩ := hcan w t hw hm
        obtain ⟨r', hr', hpos⟩ : ∃ r', (e.effect env op).store.rows m = some r' ∧
            Row.pos r' = Row.pos r := pos_serve hat hm hr hd hc
        refine ⟨.of_canary (w := w) ⟨r', hr', hd.of_pos hpos⟩ (fun w' t' ht' hm' hww => ?_)
          fun t' ht' _ => ?_, fun r1 hr1 => ?_, [entry w t ⟨op, e.answer env op⟩],
          hist_serve t env op k hm, fun x hx => ?_⟩
        · obtain ⟨l', tr', hc'⟩ := hcan w' t' ((workers_serve_of_ne _ _ _ _ hww).symm.trans ht') hm'
          exact ⟨l', tr', hc'.follows.serve_of_ne hww hk, hc'.noSave, hc'.point⟩
        · rw [workers_serve] at ht'
          cases ht'
          exact ⟨_, _, hat.serve hw hm hr hd hc⟩
        · cases hr.symm.trans hr1
          exact ⟨r', hr', hpos⟩
        · rw [List.mem_singleton.mp hx]
          rintro ⟨hst, -⟩
          have hst : t.pt.state = some .contracting := hst
          rcases hat.point with hpt | ⟨hpt, -⟩ <;> rw [hpt] at hst <;> cases hst
    · obtain ⟨l, tr, hfw⟩ := hfl w t hw
      have hne : ∀ w' t', (e.serve w t env op k).workers w' = some t' → t'.id = m → w' ≠ w := by
        rintro w' t' ht' hm' rfl
        rw [workers_serve] at ht'
        cases ht'
        exact hm hm'
      have hstill : Still m e (e.serve w t env op k) :=
        .of_same (hist_serve_of_ne t env op k hm) fun r hr => (hfw.rows_effect_of_ne hc hm).trans hr
      refine ⟨h.of_workers (fun hno => ?_) hstill (fun w' t' ht' hm' => ?_)
        fun hf ht' hm' => hf.serve_of_ne (hne _ _ ht' hm') hk, hstill⟩
      · rw [waiting_serve]
        exact hno
      · exact (workers_serve_of_ne _ _ _ _ (hne w' t' ht' hm')).symm.trans ht'
  | @abort id =>
    have hstill : Still m e { e with store := e.store.updateState id .rolledBack true } :=
      .of_same rfl fun r hr => (Store.rows_modify_of_ne _ _ (Ne.symm hquiet)).trans hr
    exact ⟨h.of_workers (fun hno => hno) hstill (fun _ _ ht _ => ht) fun hf _ _ => hf.of_log rfl hk,
      hstill⟩
  | restart =>
    refine ⟨?_, .of_same rfl fun _ h => h⟩
    rcases hrestart rfl r hr with hterm | hd
    · refine .idle ?_ (by rintro w t ⟨⟩)
      simp only [waiting, Engine.restart, List.append_nil]
      rw [Store.mem_findResumable]
      rintro ⟨r', hr', hterm'⟩
      cases hr.symm.trans hr'
      rw [hterm] at hterm'
      cases hterm'
    · exact .doomed ⟨r, hr, hd⟩ (by rintro w t ⟨⟩)

theorem Still.trans {e'' : Engine n} (h : Still m e e') (h' : Still m e' e'') : Still m e e'' := by
  refine ⟨fun r hr => ?_, ?_⟩
  · obtain ⟨r', hr', hpos⟩ := h.stored r hr
    obtain ⟨r'', hr'', hpos'⟩ := h'.stored r' hr'
    exact ⟨r'', hr'', hpos'.trans hpos⟩
  · obtain ⟨new, hnew, hno⟩ := h.sent
    obtain ⟨new', hnew', hno'⟩ := h'.sent
    refine ⟨new ++ new', by rw [hnew', hnew, List.append_assoc], fun x hx => ?_⟩
    rcases List.mem_append.mp hx with hx | hx
    · exact hno x hx
    · exact hno' x hx

/-- **A paused migration waits for a human**, in every run without a request for it each of whose
restarts finds it terminal or doomed to breach again. -/
theorem pause_waits {e0 : Engine n} {as0 as : List (Act n)}
    (h0 : Runs delay (fun _ _ => True) (Engine.init n) as0 e0) (hf : Failed e0 m)
    (hr : e0.store.rows m = some r) (h : Runs delay (Waits m) e0 as e) : Still m e0 e := by
  have hinv : Followed delay e ∧ HeldUp delay m e ∧ Still m e0 e := by
    refine h.invariant (I := fun e => Followed delay e ∧ HeldUp delay m e ∧ Still m e0 e)
      ⟨followed_of_run h0, hf.heldUp, .of_same rfl fun _ h => h⟩ ?_
    rintro e a e' ⟨hfl, hheld, hstill⟩ ⟨hstep, hok⟩
    obtain ⟨r', hr', -⟩ := hstill.stored r hr
    have hs := step_inv hstep
    obtain ⟨hheld', hstill'⟩ := hheld.step hfl hr' hok hs
    exact ⟨hfl.step hs, hheld', hstill.trans hstill'⟩
  exact hinv.2.2

/-! ### A breach, and a cutover that is refused -/

/-- The error of a gate that has failed the run of a worker. -/
def failure (e : Engine n) (w : Fin n) : Option HandlerError :=
  match e.workers w with
  | none => none
  | some t =>
    match t.code with
    | .ret (.stop (.error (.handler _ err))) => if t.id = 0 ∧ waiting e = [] then some err else none
    | _ => none

theorem failed_of_failure {e : Engine 1} {err : HandlerError} (h : failure e 0 = some err)
    (hp : Paused err) : Failed e 0 := by
  unfold failure at h
  split at h
  · cases h
  next t hw =>
    split at h
    next cur err' hc =>
      split_ifs at h with hcond
      cases h
      obtain ⟨hid, hwait⟩ := hcond
      exact ⟨by simp [hwait], 0, t, cur, err, hw, hid, hc, hp, fun w' _ _ _ => Subsingleton.elim _ _⟩
    · cases h

/-- Nothing is requested, and a restart finds a migration that will breach. -/
def patient (e : Engine 1) : Act 1 → Bool
  | .apply .. | .abort _ => false
  | .restart => (e.store.rows 0).all fun r => r.state = .canary ∧ r.plan.plan.onFailure = .pause ∧
      r.plan.plan.canary.steps.any (breaches r.plan.plan)
  | _ => true

theorem waits_of_patient (e : Engine 1) (a : Act 1) (h : patient e a = true) : Waits 0 e a := by
  refine ⟨?_, ?_⟩
  · cases a with
    | apply => cases h
    | abort => cases h
    | _ => trivial
  · rintro rfl r hr
    simp only [patient, hr, Option.all_some] at h
    obtain ⟨hst, hpause, hany⟩ := of_decide_eq_true h
    obtain ⟨s, hs, hb⟩ := List.any_eq_true.mp hany
    exact Or.inr ⟨hst, hpause, s, hs, hb⟩

/-- A plan whose canary breaches at the first step, and pauses. -/
def pausingPlan : MigrationPlan := { breachingPlan with onFailure := .pause }

/-- The service of the migration is not ready. -/
def Env.unready : Env where
  ans := fun
    | .serviceCounts _ => some (1, 0)
    | op => healthyAns op

instance : DecidablePred Paused := fun err => by
  unfold Paused
  split <;> infer_instance

/-- A canary that has breached does so again after a restart. -/
theorem pause_waits_breach : ∃ (e0 e : Engine 1) (r : Row), e0.store.rows 0 = some r ∧
    Failed e0 0 ∧ (failure e 0).isSome ∧ Still 0 e0 e := by
  have hrun : ((runs (Engine.step 0) (fun _ _ => true) (Engine.init 1)
      (submit pausingPlan 0 ++ drive 0 33)).any fun e0 => (e0.store.rows 0).isSome &&
        ((failure e0 0).any fun err => Paused err) &&
          (runs (Engine.step 0) patient e0 (drive 0 1 ++ crash 0 ++ drive 0 9)).any fun e =>
            (failure e 0).isSome) = true := by
    decide +kernel
  obtain ⟨e0, he0, hP⟩ := exists_path_of_any_free hrun
  obtain ⟨hP, hrun'⟩ := Bool.and_eq_true_iff.mp hP
  obtain ⟨hrow, hfail⟩ := Bool.and_eq_true_iff.mp hP
  obtain ⟨r, hr⟩ := Option.isSome_iff_exists.mp hrow
  obtain ⟨err, herr, hp⟩ := (Option.any_eq_true _ _).mp hfail
  have hf := failed_of_failure herr (of_decide_eq_true hp)
  obtain ⟨e, he, hagain⟩ := exists_path_of_any waits_of_patient hrun'
  exact ⟨e0, e, r, hr, hf, hagain, pause_waits he0 hf hr he⟩

/-- Nothing is requested. -/
def quiet (_ : Engine 1) : Act 1 → Bool
  | .apply .. | .abort _ => false
  | _ => true

theorem unattended_of_quiet (e : Engine 1) (a : Act 1) (h : quiet e a = true) :
    Unattended m e a := by
  cases a with
  | apply => cases h
  | abort => cases h
  | _ => trivial

/-- **A restart resumes a paused migration**: its cutover had been refused, and it is contracted. -/
theorem restart_resumes_paused : ¬∀ (n : ℕ) (delay : ℤ) (m : Id) (e0 e : Engine n)
    (as0 as : List (Act n)) (r : Row), Runs delay (fun _ _ => True) (Engine.init n) as0 e0 →
      Failed e0 m → e0.store.rows m = some r → Runs delay (Unattended m) e0 as e → Still m e0 e := by
  intro hall
  have hrun : ((runs (Engine.step 0) (fun _ _ => true) (Engine.init 1)
      (submit { plainPlan with onFailure := .pause } 0 ++
        List.replicate 52 (.work 0 Env.unready))).any fun e0 =>
          ((e0.store.rows 0).any fun r => r.state = .cutover) &&
            ((failure e0 0).any fun err => Paused err) &&
              (runs (Engine.step 0) quiet e0 (crash 0 ++ drive 0 9)).any fun e =>
                (e.store.rows 0).any fun r => r.state = .contracting) = true := by
    decide +kernel
  obtain ⟨e0, he0, hP⟩ := exists_path_of_any_free hrun
  obtain ⟨hP, hrun'⟩ := Bool.and_eq_true_iff.mp hP
  obtain ⟨hrow, hfail⟩ := Bool.and_eq_true_iff.mp hP
  obtain ⟨r, hr, hst⟩ := (Option.any_eq_true _ _).mp hrow
  obtain ⟨err, herr, hp⟩ := (Option.any_eq_true _ _).mp hfail
  have hf := failed_of_failure herr (of_decide_eq_true hp)
  obtain ⟨e, he, hrow'⟩ := exists_path_of_any (unattended_of_quiet (m := 0)) hrun'
  obtain ⟨r', hr', hst'⟩ := (Option.any_eq_true _ _).mp hrow'
  obtain ⟨r'', hr'', hpos⟩ := (hall 1 0 0 e0 e _ _ r he0 hf hr he).stored r hr
  cases hr'.symm.trans hr''
  have hsame : r'.state = r.state := congrArg Pos.state hpos
  rw [of_decide_eq_true hst, of_decide_eq_true hst'] at hsame
  cases hsame

end MigrationSafety.Server.Pause
