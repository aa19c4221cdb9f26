import Mathlib.Data.List.Chain
import MigrationSafety.Server.Follow

/-! # The audit log

A save and a checkpoint append an event, with the state the run takes the migration to be in; an
abort moves the state without one. So the events lead from each to the next and end in the stored
state (`log_explains`), as long as `m` has one driver and an abort finds it rolled back (`Logged`);
any other abort leaves a state no event leads to (`abort_unexplained`). -/

namespace MigrationSafety.Server.Audit

open MigrationSafety.Lib.Effects MigrationSafety.Lib.Paths MigrationSafety.Plan.Validate
open MigrationSafety.StateMachine.Signature MigrationSafety.StateMachine.Run
open MigrationSafety.StateMachine.CanarySteps MigrationSafety.StateMachine.Checkpoints
open MigrationSafety.StateMachine.Trace (NoSave)
open MigrationSafety.Server.Migrations MigrationSafety.Server.System MigrationSafety.Server.Steps
open MigrationSafety.Server.Follow MigrationSafety.Server.History

variable {n : ℕ} {delay : ℤ} {e e' : Engine n} {a : Act n} {w : Fin n} {m : Id} {r r' : Row}

/-- An event starts where the last one has ended. -/
def Continues (x y : Option State × State) : Prop := y.1 = some x.2

/-- **The audit log explains the state**: each event starts in the state the one before it has led
to, and the last one leads to the stored state. -/
structure Explained (r : Row) : Prop where
  chain : r.events.IsChain Continues
  last : r.events.getLast?.map Prod.snd = some r.state

/-- An event from the stored state to the next. -/
theorem Explained.snoc (h : Explained r) {dst : State} (he : r'.events = r.events ++ [(some r.state, dst)])
    (hs : r'.state = dst) : Explained r' := by
  refine ⟨?_, by simp [he, hs]⟩
  rw [he]
  refine h.chain.append (List.isChain_singleton _) fun x hx y hy => ?_
  obtain rfl : (some r.state, dst) = y := by simpa using hy
  have hlast := h.last
  rw [Option.mem_def.mp hx] at hlast
  exact hlast.symm

/-- No step hands `m` to a second worker, and an abort finds `m` rolled back. -/
def Logged (m : Id) (e : Engine n) : Act n → Prop
  | .pickup _ => e.jobs.head? = some m → ∀ w t, e.workers w = some t → t.id ≠ m
  | .abort id => id = m → ∀ r, e.store.rows m = some r → r.state = .rolledBack
  | _ => True

theorem Logged.orderly (h : Logged m e a) : Orderly delay m e a := by
  cases a with
  | pickup w => exact h
  | abort id =>
    intro hm p hp
    obtain ⟨r, hr, rfl⟩ := Option.map_eq_some_iff.mp hp
    exact Or.inl (h hm r hr)
  | _ => trivial

/-- The state a worker writes an event for is the stored one. -/
theorem explained_effect {t : Task} (hi : History.Inv delay m e) (hf : Followed delay e)
    (hw : e.workers w = some t) (hm : t.id = m) {env : Env} {op : Op} {k : op.Ret → Code Exit}
    (hc : t.code = .call op k) (h : ∀ r, e.store.rows m = some r → Explained r)
    (hr : (e.effect env op).store.rows m = some r') : Explained r' := by
  obtain ⟨l, tr, hp⟩ := hi.placed w t hw hm
  have hsync : NoSave tr → ∀ s, t.pt.state = some s → ∀ r, e.store.rows m = some r → r.state = s := by
    intro hno s hst r hr
    obtain ⟨p, hpos, rfl, -⟩ := hp.synced hno s hst
    obtain ⟨r0, hr0, rfl⟩ := Option.map_eq_some_iff.mp hpos
    cases hr.symm.trans hr0
    rfl
  cases op with
  | saveState i src dst c b =>
    obtain ⟨hid, -, hcom⟩ := (hp.stretch.ask hc).save_inv
    obtain rfl : i = m := hid.trans hm
    by_cases hwr : (env.fails && !env.landed) = true
    · exact h r' (by simpa [Engine.effect, Engine.write, hwr] using hr)
    · simp only [Engine.effect, Engine.write, hwr, Store.saveState, Store.rows_modify_self,
        Bool.false_eq_true, if_false] at hr
      obtain ⟨r, hr0, rfl⟩ := Option.map_eq_some_iff.mp hr
      have hev : (some src, dst) = (some r.state, dst) := by
        rw [hsync hcom.noSave src hcom.pt_state r hr0]
      exact (h r hr0).snoc (congrArg (r.events ++ [·]) hev) rfl
  | saveCheckpoint i st c =>
    obtain ⟨l', tr', hfw⟩ := hf w t hw
    obtain rfl : i = m := (hfw.checkpoint_id hc).trans hm
    by_cases hwr : (env.fails && !env.landed) = true
    · exact h r' (by simpa [Engine.effect, Engine.write, hwr] using hr)
    · simp only [Engine.effect, Engine.write, hwr, Store.saveCheckpoint, Store.rows_modify_self,
        Bool.false_eq_true, if_false] at hr
      obtain ⟨r, hr0, rfl⟩ := Option.map_eq_some_iff.mp hr
      have hno : NoSave tr := by
        cases hp.stretch.ask hc with
        | work hs _ => exact hs
      have hst : t.pt.state = some st := by
        have hv : t.code.Spec (View t.id t.pt) (fun _ _ => True) tr :=
          (body_view delay t.id t.pt).after hp.after
        rw [hc] at hv
        have hv := hv.1
        generalize t.pt = pt at hv
        cases hv with
        | canary hcan =>
          cases hcan with
          | other hk => rcases hk with hk | hk <;> cases hk
          | save => rfl
        | backfill => rfl
        | plain hmark => cases hmark
      obtain rfl := hsync hno st hst r hr0
      exact (h r hr0).snoc rfl rfl
  | _ => exact h r' hr

/-- **Every step keeps the log in step with the state.** -/
theorem explained_step (hi : History.Inv delay m e) (hf : Followed delay e) (hok : Logged m e a)
    (h : ∀ r, e.store.rows m = some r → Explained r) (hs : Stepped delay e a e') :
    ∀ r, e'.store.rows m = some r → Explained r := by
  intro r' hr'
  cases hs with
  | @apply q reported vp hr hq =>
    change (e.store.createMigration vp).2.rows m = some r' at hr'
    rcases Store.events_createMigration hr' with hr0 | ⟨hst, hev⟩
    · exact h r' hr0
    · exact ⟨by rw [hev]; exact List.isChain_singleton _, by simp [hev, hst]⟩
  | @serve w env t op k hw hc =>
    by_cases hm : t.id = m
    · exact explained_effect hi hf hw hm hc h hr'
    · obtain ⟨l, tr, hfw⟩ := hf w t hw
      exact h r' ((hfw.rows_effect_of_ne hc hm).symm.trans hr')
  | @abort id =>
    change (e.store.updateState id .rolledBack true).rows m = some r' at hr'
    rw [Store.updateState, Store.rows_modify] at hr'
    split_ifs at hr' with hm
    · obtain ⟨r, hr, rfl⟩ := Option.map_eq_some_iff.mp hr'
      have hst := hok hm.symm r hr
      refine ⟨(h r hr).chain, ?_⟩
      rw [← hst]
      exact (h r hr).last
    · exact h r' hr'
  | _ => exact h r' hr'

/-- **The audit log explains the state**, in every run in which `m` has one driver and no abort moves
it. -/
theorem log_explains {as : List (Act n)} (h : Runs delay (Logged m) (Engine.init n) as e)
    (hr : e.store.rows m = some r) : Explained r := by
  have hinv : History.Inv delay m e ∧ Followed delay e ∧
      ∀ r, e.store.rows m = some r → Explained r := by
    refine h.invariant (I := fun e => History.Inv delay m e ∧ Followed delay e ∧
      ∀ r, e.store.rows m = some r → Explained r) ⟨inv_init, followed_init, by rintro r ⟨⟩⟩ ?_
    rintro e a e' ⟨hi, hf, hex⟩ ⟨hstep, hok⟩
    have hs := step_inv hstep
    exact ⟨hi.step hok.orderly hs, hf.step hs, explained_step hi hf hok hex hs⟩
  exact hinv.2.2 r hr

theorem logged_of_single (e : Engine 1) (a : Act 1) (h : single e a = true) : Logged m e a := by
  cases a with
  | pickup w =>
    rintro - w' t hw -
    rw [Subsingleton.elim w' w, Option.isNone_iff_eq_none.mp h] at hw
    cases hw
  | abort id => cases h
  | _ => trivial

/-- A migration that has gone through all of its states. -/
theorem log_explains_plain : ∃ (e : Engine 1) (r : Row), e.store.rows 0 = some r ∧
    r.state = .done ∧ Explained r := by
  have hrun : ((runs (Engine.step 0) single (Engine.init 1)
      (submit plainPlan 0 ++ drive 0 65)).any fun e =>
        (e.store.rows 0).any fun r => r.state = .done) = true := by
    decide +kernel
  obtain ⟨e, he, hP⟩ := exists_path_of_any (logged_of_single (m := 0)) hrun
  obtain ⟨r, hr, hst⟩ := (Option.any_eq_true _ _).mp hP
  exact ⟨e, r, hr, of_decide_eq_true hst, log_explains he hr⟩

/-- No step hands `m` to a second worker. -/
def Undivided (m : Id) (e : Engine n) : Act n → Prop
  | .pickup _ => e.jobs.head? = some m → ∀ w t, e.workers w = some t → t.id ≠ m
  | _ => True

/-- No migration is picked up. -/
def idle (_ : Engine n) : Act n → Bool
  | .pickup _ => false
  | _ => true

theorem undivided_of_idle (e : Engine n) (a : Act n) (h : idle e a = true) : Undivided m e a := by
  cases a with
  | pickup w => cases h
  | _ => trivial

/-- **No event leads to the state an abort leaves.** -/
theorem abort_unexplained : ¬∀ (n : ℕ) (delay : ℤ) (m : Id) (as : List (Act n)) (e : Engine n)
    (r : Row), Runs delay (Undivided m) (Engine.init n) as e → e.store.rows m = some r →
      Explained r := by
  intro hall
  have hrun : ((runs (Engine.step 0) idle (Engine.init 1) [.apply plainPlan true, .abort 0]).any
      fun e => (e.store.rows 0).any fun r =>
        r.state = .rolledBack ∧ r.events = [(none, .pending)]) = true := by
    decide +kernel
  obtain ⟨e, he, hP⟩ := exists_path_of_any (undivided_of_idle (m := 0)) hrun
  obtain ⟨r, hr, hrow⟩ := (Option.any_eq_true _ _).mp hP
  obtain ⟨hst, hev⟩ := of_decide_eq_true hrow
  have hlast := (hall 1 0 0 _ e r he hr).last
  rw [hev, hst] at hlast
  cases hlast

end MigrationSafety.Server.Audit
