import MigrationSafety.Lib.Histories
import MigrationSafety.Server.Follow

/-! # The canary at 100%

Between a migration and its Contract statements stands a canary at the whole traffic, if its plan is
`Full`: then `canary_pct = 100` is only written after a healthy observation at 100%, and Contract
statements are only sent after it has been written by the canary (`contract_after_full_canary`). This
needs nothing of the run: neither one driver nor the absence of aborts.

The final checkpoint of a canary says 100% whatever the last step was, so a plan whose steps stop at
5% is contracted without (`contract_without_full_canary`). -/

namespace MigrationSafety.Server.FullCanary

open MigrationSafety.Lib.Effects MigrationSafety.Lib.Paths MigrationSafety.Lib.Histories
open MigrationSafety.Plan.Validate
open MigrationSafety.StateMachine MigrationSafety.StateMachine.Signature
open MigrationSafety.StateMachine.Handlers
open MigrationSafety.StateMachine.Run MigrationSafety.StateMachine.Outcomes
open MigrationSafety.StateMachine.CanarySteps MigrationSafety.StateMachine.Checkpoints
open MigrationSafety.StateMachine.Trace (Completed)
open MigrationSafety.Server.Migrations MigrationSafety.Server.System MigrationSafety.Server.Steps
open MigrationSafety.Server.Follow MigrationSafety.Server.History

variable {n : ℕ} {delay : ℤ} {e e' : Engine n} {a : Act n} {w : Fin n} {m : Id}
  {p : MigrationPlan} {h new : List (Entry n)}

/-- **The plan's canary reaches 100%**: it cannot pass without that step, and it does not breach
there first, which would be persisted under the same key. -/
def Full (p : MigrationPlan) : Prop :=
  match p.canary.steps.find? (breaches p) with
  | some s => s = 100 → p.onFailure ≠ .rollback
  | none => 100 ∈ p.canary.steps

instance (p : MigrationPlan) : Decidable (Full p) := by
  unfold Full
  split <;> infer_instance

/-- The first step that breaches. -/
theorem find_breach {walked rest : List ℤ} {step : ℤ}
    (hs : walked ++ step :: rest = p.canary.steps) (hw : ∀ s ∈ walked, breaches p s = false)
    (hb : breaches p step = true) : p.canary.steps.find? (breaches p) = some step := by
  rw [← hs, List.find?_append, List.find?_eq_none.mpr (by simpa using hw), List.find?_cons, hb]
  rfl

/-- A canary of a full plan that has passed has been at 100%. -/
theorem Full.mem (hf : Full p) (hw : ∀ s ∈ p.canary.steps, breaches p s = false) :
    100 ∈ p.canary.steps := by
  have hnone : p.canary.steps.find? (breaches p) = none := List.find?_eq_none.mpr (by simpa using hw)
  unfold Full at hf
  rwa [hnone] at hf

/-- The states after the canary. -/
def Late (s : State) : Prop := s = .cutover ∨ s = .contracting ∨ s = .done

/-- The whole traffic has been observed, and it was healthy. -/
def Seen (m : Id) (p : MigrationPlan) (h : List (Entry n)) : Prop :=
  breaches p 100 = false ∧
    ∃ x ∈ h, ∃ b, x.event = ⟨.logCanaryObservation m 100 (observeCanary p 100) false, b⟩

/-- **That has been recorded**: the checkpoint of a canary that was healthy at 100%. -/
def Recorded (m : Id) (p : MigrationPlan) (h : List (Entry n)) : Prop :=
  Seen m p h ∧ ∃ x ∈ h, x.event = ⟨.saveCheckpoint m .canary (percent 100), true⟩

/-- The entry persists `canary_pct = 100`. -/
def PersistsFull (x : Entry n) : Prop :=
  ∃ c, Op.persists x.event.op = some c ∧ percentOf c = some 100

theorem Seen.append (hs : Seen m p h) (new : List (Entry n)) : Seen m p (h ++ new) :=
  ⟨hs.1, hs.2.imp fun _ hx => ⟨List.mem_append_left _ hx.1, hx.2⟩⟩

theorem Recorded.append (hr : Recorded m p h) (new : List (Entry n)) : Recorded m p (h ++ new) :=
  ⟨hr.1.append new, hr.2.imp fun _ hx => ⟨List.mem_append_left _ hx.1, hx.2⟩⟩

/-- What the canary has to do with the state, the runs and the history of `m`. -/
structure Passed (m : Id) (p : MigrationPlan) (e : Engine n) : Prop where
  stored : ∀ r, e.store.rows m = some r → Late r.state → Recorded m p (hist e m)
  worker : ∀ w t s, e.workers w = some t → t.id = m → t.pt.state = some s → Late s →
    Recorded m p (hist e m)
  loaded : ∀ x ∈ hist e m, ∀ i r, x.event = ⟨.load i, some r⟩ → Late r.state →
    Recorded m p (hist e m)
  saved : ∀ x ∈ hist e m, ∀ i src dst c b, x.event = ⟨.saveState i src dst c b, true⟩ → Late dst →
    Recorded m p (hist e m)
  contract : Preceded (fun l x => Sends .contracting x → Recorded m p l) (hist e m)
  percent : Preceded (fun l x => PersistsFull x → Seen m p l) (hist e m)

theorem passed_init (m : Id) (p : MigrationPlan) : Passed m p (Engine.init n) := by
  have hh : hist (Engine.init n) m = [] := rfl
  refine ⟨?_, ?_, ?_, ?_, ?_, ?_⟩
  · rintro r ⟨⟩
  · rintro w t s ⟨⟩
  · simp [hh]
  · simp [hh]
  · rw [hh]
    exact preceded_nil
  · rw [hh]
    exact preceded_nil

section Worker
variable {t : Task} {l : List (Entry n)} {tr : List (Event engine)}

/-- What a canary of the plan has walked through is in the history. -/
theorem recorded_of_walked {r : Record} {u : List (Event engine)} (hf : Full p) (hr : r.plan = p)
    (hid : r.id = m) (hw : Walked r r.plan.canary.steps u)
    (hu : ∀ ev ∈ u, ∃ x ∈ h, x.event = ev) : Recorded m p h := by
  subst hr hid
  have hmem := hf.mem hw.healthy
  obtain ⟨b, hb⟩ := hw.logged 100 hmem
  obtain ⟨x, hx, hev⟩ := hu _ hb
  exact ⟨⟨hw.healthy 100 hmem, x, hx, b, hev⟩, hu _ (hw.saved 100 hmem)⟩

/-- A worker that saves a late state is in one, or comes from the canary. -/
theorem Passed.save (hps : Passed m p e) (hf : Full p) (hw : e.workers w = some t) (hm : t.id = m)
    (hfl : Follows delay e w t l tr) (hp : ∀ r, e.store.rows m = some r → r.plan.plan = p)
    {i : Id} {src dst : State} {c : Checkpoint} {b : Bool}
    {k : (Op.saveState i src dst c b).Ret → Code Exit}
    (hc : t.code = .call (.saveState i src dst c b) k) (hd : Late dst) :
    Recorded m p (hist e m) := by
  obtain ⟨-, -, hcom⟩ := (hfl.stretch.ask hc).save_inv
  have hstate := hcom.pt_state
  obtain ⟨t0, u, rfl, hadv⟩ := completed_advance (p := p) hcom fun r hr => by
    obtain ⟨hid, hplan⟩ := hfl.of_plan hm hp hr
    exact ⟨hid.trans hm.symm, hplan⟩
  cases hadv with
  | observed ho =>
    obtain ⟨r, c', hid, hplan, hrun, -⟩ := ho
    have hend := canary_spec.runs hrun
    generalize hout : (Except.ok { checkpoint := c' } : Outcome) = out at hend
    cases hend with
    | passed hwalk =>
      refine recorded_of_walked hf hplan (hid.trans hm) hwalk fun ev hev => ?_
      exact hfl.mem_hist hm (List.mem_append_right _ hev)
    | failed => cases hout
    | breached => cases hout
  | committed => exact hps.worker w t _ hw hm hstate (Or.inl rfl)
  | contracted => exact hps.worker w t _ hw hm hstate (Or.inr (Or.inl rfl))
  | _ => rcases hd with hd | hd | hd <;> cases hd

/-- The next control point. -/
theorem Passed.goto (hps : Passed m p e) (hfl : Follows delay e w t l tr) (hm : t.id = m) {pt : Pt}
    (hc : t.code = .ret (.goto pt)) {s : State} (hst : pt.state = some s) (hs : Late s) :
    Recorded m p (hist e m) := by
  have hdone := hfl.stretch.done hc
  generalize hpt : t.pt = pt0 at hdone
  cases hdone with
  | @loaded r =>
    cases hst
    obtain ⟨x, hx, hev⟩ := hfl.mem_hist hm List.mem_cons_self
    exact hps.loaded x hx _ r hev hs
  | @saved _ tr1 tr2 src dst c htr ht =>
    cases hst
    obtain ⟨x, hx, hev⟩ := hfl.mem_hist hm (List.mem_append_right tr1 List.mem_cons_self)
    exact hps.saved x hx _ src _ c _ hev hs
  | enter => cases hst; rcases hs with hs | hs | hs <;> cases hs
  | again => cases hst; rcases hs with hs | hs | hs <;> cases hs

/-- What a write of the worker makes of the stored state. -/
theorem Passed.stored_effect (hps : Passed m p e) (hf : Full p) (hw : e.workers w = some t)
    (hm : t.id = m) (hfl : Follows delay e w t l tr)
    (hp : ∀ r, e.store.rows m = some r → r.plan.plan = p) {env : Env} {op : Op}
    {k : op.Ret → Code Exit} (hc : t.code = .call op k) {r : Row}
    (hr : (e.effect env op).store.rows m = some r) (hlate : Late r.state) :
    Recorded m p (hist e m) := by
  have hpos : pos (e.effect env op).store m = some (Row.pos r) := by simp [pos, hr]
  rcases pos_effect (e := e) env op m with hsame | ⟨src, dst, c, b, rfl, hmove⟩
  · rw [hsame] at hpos
    obtain ⟨r', hr', heq⟩ := Option.map_eq_some_iff.mp hpos
    exact hps.stored r' hr' (by rw [show r'.state = r.state from congrArg Pos.state heq]; exact hlate)
  · rw [hmove] at hpos
    obtain ⟨q, -, heq⟩ := Option.map_eq_some_iff.mp hpos
    obtain rfl : dst = r.state := congrArg Pos.state heq
    exact hps.save hf hw hm hfl hp hc hlate

/-- What a worker persists. -/
theorem Passed.persists (hf : Full p) (hm : t.id = m) (hfl : Follows delay e w t l tr)
    (hp : ∀ r, e.store.rows m = some r → r.plan.plan = p) {op : Op} {k : op.Ret → Code Exit}
    (hc : t.code = .call op k) {c : Checkpoint} (hpc : Op.persists op = some c)
    (hpct : percentOf c = some 100) : Seen m p (hist e m) := by
  have hv := hfl.view hc
  generalize hpt : t.pt = pt at hv
  cases hv with
  | @canary r u _ hask =>
    obtain ⟨hid, rfl⟩ := hfl.of_plan (i := t.id) (r := r) hm hp (by simp)
    cases hask with
    | other hk =>
      rcases hk with hk | hk <;> 
        (rw [persists_eq_none (marks_of_kind (by simp [hk])) (by simp [hk])] at hpc; cases hpc)
    | observe => cases hpc
    | breach => cases hpc
    | @save step b hb ho =>
      cases hpc
      obtain rfl : step = 100 := by simpa using hpct
      obtain ⟨x, hx, hev⟩ := hfl.mem_hist hm (List.mem_cons_of_mem _ (List.mem_cons_of_mem _ ho))
      exact ⟨hb, x, hx, b, hid ▸ hev⟩
  | @passed r u res dst b hdone =>
    obtain ⟨hid, rfl⟩ := hfl.of_plan (i := t.id) (r := r) hm hp (by simp)
    cases hpc
    cases hdone with
    | passed hwalk =>
      refine (recorded_of_walked hf rfl hid hwalk fun ev hev => ?_).1
      exact hfl.mem_hist hm (List.mem_cons_of_mem _ (List.mem_cons_of_mem _ hev))
    | @breached walked rest step why hs hw hb hfail =>
      obtain rfl : step = 100 := by simpa [percentOf, List.lookup_cons] using hpct
      unfold Full at hf
      rw [find_breach hs hw hb] at hf
      exact absurd hfail (hf rfl)
  | backfill hn =>
    cases hpc
    rw [hn] at hpct
    cases hpct
  | plain hmark hn =>
    rw [hn c hpc] at hpct
    cases hpct

/-- **What a worker of `m` does next.** -/
theorem Passed.serve (hps : Passed m p e) (hf : Full p) (hw : e.workers w = some t) (hm : t.id = m)
    (hfl : Follows delay e w t l tr) (hp : ∀ r, e.store.rows m = some r → r.plan.plan = p) {env : Env}
    {op : Op} {k : op.Ret → Code Exit} (hc : t.code = .call op k) :
    Passed m p (e.serve w t env op k) := by
  have hh : hist (e.serve w t env op k) m = _ := hist_serve t env op k hm
  have hload : ∀ r, ⟨op, e.answer env op⟩ = (⟨.load m, some r⟩ : Event engine) → Late r.state →
      Recorded m p (hist e m) := by
    rintro r heq hlate
    obtain ⟨rfl, hans⟩ := Event.mk.inj heq
    have hans := eq_of_heq hans
    simp only [Engine.answer] at hans
    split_ifs at hans
    obtain ⟨row, hrow, rfl⟩ := Store.load_eq_some.mp hans
    exact hps.stored row hrow hlate
  refine ⟨fun r hr hlate => ?_, fun w' t' s ht' hm' hs hlate => ?_, fun x hx i r hev hlate => ?_,
    fun x hx i src dst c b hev hlate => ?_, ?_, ?_⟩
  · rw [hh]
    exact (hps.stored_effect hf hw hm hfl hp hc hr hlate).append _
  · rw [hh]
    refine Recorded.append ?_ _
    rcases serve_cases ht' with ⟨rfl, rfl⟩ | ⟨-, ht'⟩
    · exact hps.worker w' t s hw hm hs hlate
    · exact hps.worker w' t' s ht' hm' hs hlate
  · rw [hh] at hx ⊢
    refine Recorded.append ?_ _
    rcases List.mem_append.mp hx with hx | hx
    · exact hps.loaded x hx i r hev hlate
    · rw [List.mem_singleton.mp hx] at hev
      obtain rfl : i = m := by
        obtain ⟨rfl, -⟩ := Event.mk.inj hev
        exact (hfl.stretch.ask hc).load_inv.trans hm
      exact hload r hev hlate
  · rw [hh] at hx ⊢
    refine Recorded.append ?_ _
    rcases List.mem_append.mp hx with hx | hx
    · exact hps.saved x hx i src dst c b hev hlate
    · rw [List.mem_singleton.mp hx] at hev
      obtain ⟨rfl, -⟩ := Event.mk.inj hev
      exact hps.save hf hw hm hfl hp hc hlate
  · rw [hh]
    refine preceded_snoc.mpr ⟨hps.contract, ?_⟩
    rintro ⟨hst, -⟩
    exact hps.worker w t _ hw hm hst (Or.inr (Or.inl rfl))
  · rw [hh]
    refine preceded_snoc.mpr ⟨hps.percent, ?_⟩
    rintro ⟨c, hpc, hpct⟩
    exact Passed.persists hf hm hfl hp hc hpc hpct

end Worker

/-! ### Runs -/

/-- The state of `m` is not touched, or set to one that is not late. -/
theorem Passed.of_same (h : Passed m p e) (hh : hist e' m = hist e m)
    (hs : ∀ r, e'.store.rows m = some r → Late r.state →
      ∃ r', e.store.rows m = some r' ∧ Late r'.state)
    (hw : ∀ w t s, e'.workers w = some t → t.id = m → t.pt.state = some s → Late s →
      Recorded m p (hist e m)) : Passed m p e' := by
  refine ⟨fun r hr hlate => ?_, fun w t s hwt hm hst hlate => ?_, ?_, ?_, ?_, ?_⟩
  · obtain ⟨r', hr', hlate'⟩ := hs r hr hlate
    exact hh ▸ h.stored r' hr' hlate'
  · exact hh ▸ hw w t s hwt hm hst hlate
  · exact hh ▸ h.loaded
  · exact hh ▸ h.saved
  · exact hh ▸ h.contract
  · exact hh ▸ h.percent

/-- **Every step keeps it.** -/
theorem Passed.step (h : Passed m p e) (hf : Full p) (hfl : Followed delay e)
    (hp : ∀ r, e.store.rows m = some r → r.plan.plan = p) (hs : Stepped delay e a e') :
    Passed m p e' := by
  cases hs with
  | @apply q reported vp hr hq =>
    refine h.of_same rfl (fun r hr hlate => ?_) h.worker
    rcases Store.rows_createMigration hr with hr | ⟨-, -, hst, -⟩
    · exact ⟨r, hr, hlate⟩
    · rw [hst] at hlate
      rcases hlate with hlate | hlate | hlate <;> cases hlate
  | @pickup w id ids hw hj =>
    refine h.of_same rfl (fun r hr hlate => ⟨r, hr, hlate⟩) fun w' t' s ht' hm' hst hlate => ?_
    rcases setWorker_cases (e := e) ht' with ⟨rfl, hx⟩ | ⟨-, ht'⟩
    · cases hx
      cases hst
    · exact h.worker w' t' s ht' hm' hst hlate
  | @goto w env t pt hw hc =>
    refine h.of_same rfl (fun r hr hlate => ⟨r, hr, hlate⟩) fun w' t' s ht' hm' hst hlate => ?_
    rcases setWorker_cases ht' with ⟨rfl, hx⟩ | ⟨-, ht'⟩
    · cases hx
      obtain ⟨l, tr, hfw⟩ := hfl w' t hw
      exact h.goto hfw hm' hc hst hlate
    · exact h.worker w' t' s ht' hm' hst hlate
  | @stop w env t x hw hc =>
    refine h.of_same rfl (fun r hr hlate => ⟨r, hr, hlate⟩) fun w' t' s ht' hm' hst hlate => ?_
    rcases setWorker_cases ht' with ⟨rfl, hx⟩ | ⟨-, ht'⟩
    · cases hx
    · exact h.worker w' t' s ht' hm' hst hlate
  | @serve w env t op k hw hc =>
    obtain ⟨l, tr, hfw⟩ := hfl w t hw
    by_cases hm : t.id = m
    · exact h.serve hf hw hm hfw hp hc
    · refine h.of_same (hist_serve_of_ne t env op k hm) (fun r hr hlate => ?_)
        fun w' t' s ht' hm' hst hlate => ?_
      · exact ⟨r, (hfw.rows_effect_of_ne hc hm).symm.trans hr, hlate⟩
      · rcases serve_cases ht' with ⟨rfl, rfl⟩ | ⟨-, ht'⟩
        · exact absurd hm' hm
        · exact h.worker w' t' s ht' hm' hst hlate
  | @abort id =>
    refine h.of_same rfl (fun r hr hlate => ?_) h.worker
    change (e.store.updateState id .rolledBack true).rows m = some r at hr
    rw [Store.updateState, Store.rows_modify] at hr
    split_ifs at hr
    · obtain ⟨r', hr', rfl⟩ := Option.map_eq_some_iff.mp hr
      rcases hlate with hlate | hlate | hlate <;> cases hlate
    · exact ⟨r, hr, hlate⟩
  | restart =>
    exact h.of_same rfl (fun r hr hlate => ⟨r, hr, hlate⟩) (by rintro w t s ⟨⟩)
  | _ => exact h.of_same rfl (fun r hr hlate => ⟨r, hr, hlate⟩) h.worker

theorem passed_of_run {ok : Engine n → Act n → Prop} {as : List (Act n)}
    (h : Runs delay ok (Engine.init n) as e) (hf : Full p)
    (hp : ∀ r, e.store.rows m = some r → r.plan.plan = p) : Passed m p e := by
  have hinv : Followed delay e ∧
      ((∀ r, e.store.rows m = some r → r.plan.plan = p) → Passed m p e) := by
    refine h.invariant (I := fun e => Followed delay e ∧
      ((∀ r, e.store.rows m = some r → r.plan.plan = p) → Passed m p e))
      ⟨followed_init, fun _ => passed_init m p⟩ fun e a e' hu ha => ?_
    have hs := step_inv ha.1
    refine ⟨hu.1.step hs, fun hp' => ?_⟩
    have hp : ∀ r, e.store.rows m = some r → r.plan.plan = p := by
      intro r hr
      obtain ⟨r', hr', heq⟩ := keeps_step hs m r hr
      rw [← heq, hp' r' hr']
    exact (hu.2 hp).step hf hu.1 hp hs
  exact hinv.2 hp

/-- **Contract only after a 100% canary.** -/
def AfterFullCanary (m : Id) (p : MigrationPlan) (h : List (Entry n)) : Prop :=
  Preceded (fun l x => Sends .contracting x → Recorded m p l) h ∧
    Preceded (fun l x => PersistsFull x → Seen m p l) h

/-- **The plans whose canary reaches 100% are contracted only after it**, in every run. -/
theorem contract_after_full_canary {as : List (Act n)} {r : Row}
    (h : Runs delay (fun _ _ => True) (Engine.init n) as e) (hr : e.store.rows m = some r)
    (hf : Full r.plan.plan) : AfterFullCanary m r.plan.plan (hist e m) := by
  have hp : ∀ r', e.store.rows m = some r' → r'.plan.plan = r.plan.plan := by
    intro r' hr'
    cases hr.symm.trans hr'
    rfl
  have hps := passed_of_run h hf hp
  exact ⟨hps.contract, hps.percent⟩

/-- The default steps end at 100%, and a migration with them is contracted. -/
theorem contract_after_full_canary_plain : ∃ (e : Engine 1) (r : Row), e.store.rows 0 = some r ∧
    (∃ x ∈ hist e 0, Sends .contracting x) ∧ AfterFullCanary 0 r.plan.plan (hist e 0) := by
  have hrun : ((runs (Engine.step 0) (fun _ _ => true) (Engine.init 1)
      (submit plainPlan 0 ++ drive 0 60)).any fun e =>
        ((hist e 0).any fun x => x.state = some .contracting && x.event.op.attempts ≠ none) &&
          (e.store.rows 0).any fun r => Full r.plan.plan) = true := by
    decide +kernel
  obtain ⟨e, he, hP⟩ := exists_path_of_any_free hrun
  obtain ⟨hsend, hrow⟩ := Bool.and_eq_true_iff.mp hP
  obtain ⟨r, hr, hf⟩ := (Option.any_eq_true _ _).mp hrow
  obtain ⟨x, hx, hsend⟩ := List.any_eq_true.mp hsend
  obtain ⟨hst, hop⟩ := Bool.and_eq_true_iff.mp hsend
  exact ⟨e, r, hr, ⟨x, hx, of_decide_eq_true hst, of_decide_eq_true hop⟩,
    contract_after_full_canary he hr (of_decide_eq_true hf)⟩

/-- A plan whose canary stops at 5%. -/
def partialPlan : MigrationPlan := { plainPlan with canary := { steps := [5] } }

/-- **A plan whose canary stops at 5% is accepted, and contracted after it.** -/
theorem contract_without_full_canary : ¬∀ (n : ℕ) (delay : ℤ) (m : Id) (as : List (Act n))
    (e : Engine n) (r : Row), Runs delay (Alone m) (Engine.init n) as e →
      e.store.rows m = some r → AfterFullCanary m r.plan.plan (hist e m) := by
  intro hall
  have hrun : ((runs (Engine.step 0) single (Engine.init 1)
      (submit partialPlan 0 ++ drive 0 50)).any fun e => (e.store.rows 0).isSome &&
        (((hist e 0).any fun x => x.state = some .contracting && x.event.op.attempts ≠ none) &&
          (hist e 0).all fun x => ((Gates.observedBy x.event).map Prod.fst) ≠ some 100)) = true := by
    decide +kernel
  obtain ⟨e, he, hP⟩ := exists_path_of_any (alone_of_single (m := 0)) hrun
  obtain ⟨hrow, hP⟩ := Bool.and_eq_true_iff.mp hP
  obtain ⟨hsend, hno⟩ := Bool.and_eq_true_iff.mp hP
  obtain ⟨r, hr⟩ := Option.isSome_iff_exists.mp hrow
  obtain ⟨x, hx, hsend⟩ := List.any_eq_true.mp hsend
  obtain ⟨hst, hop⟩ := Bool.and_eq_true_iff.mp hsend
  obtain ⟨l, l', hl⟩ := List.append_of_mem hx
  obtain ⟨⟨-, y, hy, b, hev⟩, -⟩ :=
    (hall 1 0 0 _ e r he hr).1 l x l' hl ⟨of_decide_eq_true hst, of_decide_eq_true hop⟩
  have hne := List.all_eq_true.mp hno y (hl ▸ List.mem_append_left _ hy)
  rw [hev] at hne
  exact absurd rfl (of_decide_eq_true hne)

end MigrationSafety.Server.FullCanary
