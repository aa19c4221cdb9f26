import MigrationSafety.Server.History
import MigrationSafety.StateMachine.Checkpoints

/-! # Following a run

In every run of the engine, whatever the requests, a worker is in a stretch of the program of its own
migration: its code is what the events since the last control point leave of it, these are its last
events in the log, and what it has loaded is its own migration, with the stored plan (`Followed`). -/

namespace MigrationSafety.Server.Follow

open MigrationSafety.Lib.Effects MigrationSafety.Lib.Paths MigrationSafety.Plan.Validate
open MigrationSafety.StateMachine.Signature MigrationSafety.StateMachine.Run
open MigrationSafety.StateMachine.Trace (Ask Done NoSave Op.isSave body_spec)
open MigrationSafety.StateMachine.Checkpoints (View body_view)
open MigrationSafety.Server.Migrations MigrationSafety.Server.System MigrationSafety.Server.Steps
open MigrationSafety.Server.History (hist)

variable {n : ℕ} {delay : ℤ} {e e' : Engine n} {a : Act n} {w w' : Fin n} {t : Task}
  {l : List (Entry n)} {tr : List (Event engine)}

/-- The worker is in a stretch of its own migration. -/
structure Follows (delay : ℤ) (e : Engine n) (w : Fin n) (t : Task) (l : List (Entry n))
    (tr : List (Event engine)) : Prop where
  after : After (body delay t.id t.pt) tr t.code
  last : e.log.filter (fun x => x.worker = w) = l ++ tr.map (entry w t)
  loaded : ∀ i r, ⟨.load i, some r⟩ ∈ tr →
    i = t.id ∧ r.id = t.id ∧ ∃ row, e.store.rows t.id = some row ∧ row.plan.plan = r.plan
  batch : ∀ r pr, t.pt = .batch r pr → r.id = t.id

/-- Every worker is. -/
def Followed (delay : ℤ) (e : Engine n) : Prop :=
  ∀ w t, e.workers w = some t → ∃ l tr, Follows delay e w t l tr

theorem followed_init : Followed delay (Engine.init n) := by
  rintro w t ⟨⟩

theorem Follows.stretch (h : Follows delay e w t l tr) : Stretch delay t tr :=
  (body_spec delay t.id t.pt).after h.after

/-- What the worker waits on persists and observes as it should. -/
theorem Follows.view {op : Op} {k : op.Ret → Code Exit} (h : Follows delay e w t l tr)
    (hc : t.code = .call op k) : View t.id t.pt tr op := by
  have hv : t.code.Spec (View t.id t.pt) (fun _ _ => True) tr :=
    (body_view delay t.id t.pt).after h.after
  rw [hc] at hv
  exact hv.1

/-- The events of the stretch are in the log. -/
theorem Follows.mem (h : Follows delay e w t l tr) {ev : Event engine} (hev : ev ∈ tr) :
    entry w t ev ∈ e.log := by
  have hmem : entry w t ev ∈ e.log.filter (fun x => x.worker = w) := by
    rw [h.last]
    exact List.mem_append_right _ (List.mem_map_of_mem hev)
  exact (List.mem_filter.mp hmem).1

/-- What the worker of `m` has loaded is `m` with its plan. -/
theorem Follows.of_plan {m : Id} {p : MigrationPlan} (hfl : Follows delay e w t l tr)
    (hm : t.id = m) (hp : ∀ r, e.store.rows m = some r → r.plan.plan = p) {i : Id} {r : Record}
    (hl : ⟨.load i, some r⟩ ∈ tr) : r.id = m ∧ r.plan = p := by
  obtain ⟨-, hid, row, hrow, hplan⟩ := hfl.loaded i r hl
  rw [hm] at hrow
  exact ⟨hid.trans hm, hplan.symm.trans (hp row hrow)⟩

theorem Follows.mem_hist {m : Id} (hfl : Follows delay e w t l tr) (hm : t.id = m) {ev : Event engine}
    (hev : ev ∈ tr) : ∃ x ∈ hist e m, x.event = ev :=
  ⟨entry w t ev, List.mem_filter.mpr ⟨hfl.mem hev, by simp [entry, hm]⟩, rfl⟩

/-- A step that neither logs anything nor drops a plan. -/
theorem Follows.of_log (h : Follows delay e w t l tr) (hl : e'.log = e.log)
    (hk : Store.Keeps e.store e'.store) : Follows delay e' w t l tr := by
  refine ⟨h.after, hl ▸ h.last, fun i r hm => ?_, h.batch⟩
  obtain ⟨hi, hid, row, hrow, hplan⟩ := h.loaded i r hm
  obtain ⟨row', hrow', heq⟩ := hk _ _ hrow
  exact ⟨hi, hid, row', hrow', heq ▸ hplan⟩

theorem follows_taskAt (e : Engine n) (w : Fin n) (id : Id) {pt : Pt}
    (h : ∀ r pr, pt = .batch r pr → r.id = id) :
    Follows delay e w (taskAt delay id pt) (e.log.filter fun x => x.worker = w) [] :=
  ⟨After.nil, (List.append_nil _).symm, by simp, h⟩

/-- A checkpoint is written for the worker's migration. -/
theorem Follows.checkpoint_id {i : Id} {s : State} {c : Checkpoint}
    {k : (Op.saveCheckpoint i s c).Ret → Code Exit} (hfl : Follows delay e w t l tr)
    (hc : t.code = .call (.saveCheckpoint i s c) k) : i = t.id := by
  have hv := hfl.view hc
  generalize hpt : t.pt = pt at hv
  cases hv with
  | @canary r u _ hask =>
    obtain ⟨-, hid, -⟩ := hfl.loaded t.id r (by simp)
    cases hask with
    | other hk => rcases hk with hk | hk <;> cases hk
    | save => exact hid
  | backfill hn => exact hfl.batch _ _ hpt
  | plain hm => cases hm

/-- A worker writes the row of its own migration only. -/
theorem Follows.rows_effect_of_ne {m : Id} {env : Env} {op : Op} {k : op.Ret → Code Exit}
    (hfl : Follows delay e w t l tr) (hc : t.code = .call op k) (hm : t.id ≠ m) :
    (e.effect env op).store.rows m = e.store.rows m := by
  cases op with
  | saveState i src dst c b =>
    obtain ⟨rfl, -⟩ := (hfl.stretch.ask hc).save_inv
    simp only [Engine.effect, Engine.write]
    split_ifs
    · rfl
    · exact Store.rows_modify_of_ne _ _ hm.symm
  | saveCheckpoint i s c =>
    obtain rfl := hfl.checkpoint_id hc
    simp only [Engine.effect, Engine.write]
    split_ifs
    · rfl
    · exact Store.rows_modify_of_ne _ _ hm.symm
  | _ => rfl

/-- The next control point. -/
theorem Follows.goto {pt : Pt} (h : Follows delay e w t l tr) (hc : t.code = .ret (.goto pt)) :
    ∀ r pr, pt = .batch r pr → r.id = t.id := by
  rintro r pr rfl
  have hdone := h.stretch.done hc
  generalize hpt : t.pt = pt0 at hdone
  cases hdone with
  | enter ht hl => exact (h.loaded _ r hl).2.1
  | again ht => exact h.batch _ _ hpt

/-- The answer to the worker itself. -/
theorem Follows.serve {env : Env} {op : Op} {k : op.Ret → Code Exit}
    (h : Follows delay e w t l tr) (hc : t.code = .call op k)
    (hk : Store.Keeps e.store (e.serve w t env op k).store) :
    Follows delay (e.serve w t env op k) w { t with code := k (e.answer env op) } l
      (tr ++ [⟨op, e.answer env op⟩]) := by
  refine ⟨(hc ▸ h.after).snoc _, ?_, fun i r hm => ?_, h.batch⟩
  · rw [log_serve, List.filter_append, h.last, List.map_append]
    simp [entry]
  · rcases List.mem_append.mp hm with hm | hm
    · obtain ⟨hi, hid, row, hrow, hplan⟩ := h.loaded i r hm
      obtain ⟨row', hrow', heq⟩ := hk _ _ hrow
      exact ⟨hi, hid, row', hrow', heq ▸ hplan⟩
    · obtain ⟨rfl, hans⟩ := Event.mk.inj (List.mem_singleton.mp hm)
      obtain rfl := (h.stretch.ask hc).load_inv
      have hans := (eq_of_heq hans).symm
      simp only [Engine.answer] at hans
      split_ifs at hans
      obtain ⟨row, hrow, rfl⟩ := Store.load_eq_some.mp hans
      obtain ⟨row', hrow', heq⟩ := hk _ _ hrow
      exact ⟨rfl, rfl, row', hrow', congrArg _ heq⟩

/-- The answer to another worker. -/
theorem Follows.serve_of_ne {w0 : Fin n} {t0 : Task} {env : Env} {op : Op} {k : op.Ret → Code Exit}
    (h : Follows delay e w t l tr) (hw : w ≠ w0)
    (hk : Store.Keeps e.store (e.serve w0 t0 env op k).store) :
    Follows delay (e.serve w0 t0 env op k) w t l tr := by
  have hne : ¬(entry w0 t0 ⟨op, e.answer env op⟩).worker = w := fun heq => hw heq.symm
  refine ⟨h.after, ?_, fun i r hm => ?_, h.batch⟩
  · rw [log_serve, List.filter_append, h.last]
    simp [hne]
  · obtain ⟨hi, hid, row, hrow, hplan⟩ := h.loaded i r hm
    obtain ⟨row', hrow', heq⟩ := hk _ _ hrow
    exact ⟨hi, hid, row', hrow', heq ▸ hplan⟩

/-- A worker the step is not about. -/
theorem Followed.of_log (h : Followed delay e) (hl : e'.log = e.log)
    (hk : Store.Keeps e.store e'.store) (hw : e.workers w = some t) :
    ∃ l tr, Follows delay e' w t l tr :=
  let ⟨l, tr, hf⟩ := h w t hw
  ⟨l, tr, hf.of_log hl hk⟩

/-- **Every step keeps following.** -/
theorem Followed.step (h : Followed delay e) (hs : Stepped delay e a e') : Followed delay e' := by
  have hk := keeps_step hs
  cases hs with
  | @pickup w id ids hw hj =>
    intro w' t' ht'
    rcases setWorker_cases (e := e) ht' with ⟨rfl, hx⟩ | ⟨-, ht'⟩
    · cases hx
      exact ⟨_, _, follows_taskAt _ _ _ (by rintro r pr ⟨⟩)⟩
    · exact h.of_log rfl hk ht'
  | @goto w env t pt hw hc =>
    intro w' t' ht'
    rcases setWorker_cases ht' with ⟨rfl, hx⟩ | ⟨-, ht'⟩
    · cases hx
      obtain ⟨l, tr, hf⟩ := h w' t hw
      exact ⟨_, _, follows_taskAt _ _ _ (hf.goto hc)⟩
    · exact h.of_log rfl hk ht'
  | @stop w env t x hw hc =>
    intro w' t' ht'
    rcases setWorker_cases ht' with ⟨rfl, hx⟩ | ⟨-, ht'⟩
    · cases hx
    · exact h.of_log rfl hk ht'
  | @serve w env t op k hw hc =>
    intro w' t' ht'
    rcases serve_cases ht' with ⟨rfl, rfl⟩ | ⟨hww, ht'⟩
    · obtain ⟨l, tr, hf⟩ := h w' t hw
      exact ⟨_, _, hf.serve hc hk⟩
    · obtain ⟨l, tr, hf⟩ := h w' t' ht'
      exact ⟨l, tr, hf.serve_of_ne hww hk⟩
  | restart => rintro w t ⟨⟩
  | _ => exact fun w t hw => h.of_log rfl hk hw

theorem followed_of_run {ok : Engine n → Act n → Prop} {as : List (Act n)}
    (h : Runs delay ok (Engine.init n) as e) : Followed delay e :=
  h.invariant followed_init fun _ _ _ hu ha => hu.step (step_inv ha.1)

end MigrationSafety.Server.Follow
