import MigrationSafety.Server.System
import MigrationSafety.StateMachine.Trace

/-! # What a step can do

`step_inv` inverts a step once; the rest of this module is what its cases leave of the store, of the
workers and of the log. The position of a migration (`pos`: its plan, state and terminal flag) is
moved only by a save, an abort and the creation of the migration (`pos_effect`).

`Tracked` ties every worker to the stretch of the run it is in: its code meets the specification of
the stretch after some events, and these are its last events in the log. -/

namespace MigrationSafety.Server.Steps

open MigrationSafety.Lib.Effects MigrationSafety.Lib.Paths
open MigrationSafety.Plan.Validate MigrationSafety.Safety.Throttle
open MigrationSafety.StateMachine.Signature MigrationSafety.StateMachine.Run
open MigrationSafety.StateMachine.Trace (Ask Done body_spec)
open MigrationSafety.Server.Migrations MigrationSafety.Server.System

variable {n : ℕ} {delay : ℤ} {e e' : Engine n} {a : Act n} {w w' : Fin n}

/-! ### Inversion -/

/-- The steps of the engine, by what made them possible. -/
inductive Stepped (delay : ℤ) (e : Engine n) : Act n → Engine n → Prop
  | refused {p : MigrationPlan} {reported : Bool} {err : ValidationError}
      (hp : check p = .error err) : Stepped delay e (.apply p reported) e
  | apply {p : MigrationPlan} {reported : Bool} {vp : ValidPlan} (hr : e.resuming = [])
      (hp : check p = .ok vp) : Stepped delay e (.apply p reported)
        { e with
          store := (e.store.createMigration vp).2
          blocked := if reported then e.blocked ++ [(e.store.createMigration vp).1] else e.blocked }
  | send {i : ℕ} {id : Id} (hi : e.blocked[i]? = some id) (hcap : e.jobs.length < 2 * n) :
      Stepped delay e (.send i)
        { e with blocked := e.blocked.eraseIdx i, jobs := e.jobs ++ [id] }
  | resume {id : Id} {ids : List Id} (hr : e.resuming = id :: ids)
      (hcap : e.jobs.length < 2 * n) :
      Stepped delay e .resume { e with resuming := ids, jobs := e.jobs ++ [id] }
  | pickup {w : Fin n} {id : Id} {ids : List Id} (hw : e.workers w = none)
      (hj : e.jobs = id :: ids) : Stepped delay e (.pickup w)
        { e.setWorker w (some (taskAt delay id .start)) with jobs := ids }
  | goto {w : Fin n} {env : Env} {t : Task} {pt : Pt} (hw : e.workers w = some t)
      (hc : t.code = .ret (.goto pt)) : Stepped delay e (.work w env)
        (e.setWorker w (some (taskAt delay t.id pt)))
  | stop {w : Fin n} {env : Env} {t : Task} {x : Except RunError Unit}
      (hw : e.workers w = some t) (hc : t.code = .ret (.stop x)) :
      Stepped delay e (.work w env) (e.setWorker w none)
  | serve {w : Fin n} {env : Env} {t : Task} {op : Op} {k : op.Ret → Code Exit}
      (hw : e.workers w = some t) (hc : t.code = .call op k) :
      Stepped delay e (.work w env) (e.serve w t env op k)
  | abort {id : Id} : Stepped delay e (.abort id)
      { e with store := e.store.updateState id .rolledBack true }
  | restart : Stepped delay e .restart e.restart

/-- **A step is one of these.** -/
theorem step_inv (h : e.step delay a = some e') : Stepped delay e a e' := by
  cases a with
  | apply p reported =>
    simp only [Engine.step] at h
    split_ifs at h with hr
    cases h
    unfold Engine.apply
    cases hp : check p with
    | error err => exact Stepped.refused hp
    | ok vp => exact Stepped.apply hr hp
  | send i =>
    simp only [Engine.step] at h
    split at h
    · cases h
    next id hi =>
      split_ifs at h with hcap
      cases h
      exact Stepped.send hi hcap
  | resume =>
    simp only [Engine.step] at h
    split at h
    · cases h
    next id ids hr =>
      split_ifs at h with hcap
      cases h
      exact Stepped.resume hr hcap
  | pickup w =>
    simp only [Engine.step] at h
    split at h
    next id ids hw hj =>
      cases h
      exact Stepped.pickup hw hj
    · cases h
  | work w env =>
    simp only [Engine.step, Engine.work] at h
    split at h
    · cases h
    next t hw =>
      split at h <;> cases h
      next pt hc => exact Stepped.goto hw hc
      next x hc => exact Stepped.stop hw hc
      next op k hc => exact Stepped.serve hw hc
  | abort id =>
    cases h
    exact Stepped.abort
  | restart =>
    cases h
    exact Stepped.restart

/-! ### Positions -/

/-- Where a migration is. -/
structure Pos where
  plan : ValidPlan
  state : State
  terminal : Bool

def Row.pos (r : Row) : Pos := ⟨r.plan, r.state, r.terminal⟩

def pos (s : Store) (i : Id) : Option Pos := (s.rows i).map Row.pos

/-- What a save makes of a position. -/
def Pos.moveTo (p : Pos) (dst : State) (terminal : Bool) : Pos :=
  { p with state := dst, terminal := terminal }

@[simp] theorem pos_saveCheckpoint (s : Store) (id i : Id) (state : State) (c : Checkpoint) :
    pos (s.saveCheckpoint id state c) i = pos s i := by
  unfold pos Store.saveCheckpoint
  rw [Store.rows_modify]
  split_ifs
  · rw [Option.map_map]; rfl
  · rfl

theorem pos_saveState (s : Store) (id i : Id) (src dst : State) (c : Checkpoint)
    (terminal : Bool) : pos (s.saveState id src dst c terminal) i =
      if i = id then (pos s i).map (·.moveTo dst terminal) else pos s i := by
  unfold pos Store.saveState
  rw [Store.rows_modify]
  split_ifs
  · rw [Option.map_map, Option.map_map]; rfl
  · rfl

theorem pos_updateState (s : Store) (id i : Id) (state : State) (terminal : Bool) :
    pos (s.updateState id state terminal) i =
      if i = id then (pos s i).map (·.moveTo state terminal) else pos s i := by
  unfold pos Store.updateState
  rw [Store.rows_modify]
  split_ifs
  · rw [Option.map_map, Option.map_map]; rfl
  · rfl

/-- Creating a migration leaves the others, and starts the new one in `Pending`. -/
theorem pos_createMigration (s : Store) (p : ValidPlan) (i : Id) :
    pos (s.createMigration p).2 i = pos s i ∨
      (pos s i = none ∧ pos (s.createMigration p).2 i = some ⟨p, .pending, false⟩) := by
  cases h : (s.createMigration p).2.rows i with
  | none =>
    left
    cases h' : s.rows i with
    | none => simp [pos, h, h']
    | some r => rw [Store.rows_createMigration_of_some h'] at h; cases h
  | some r =>
    rcases Store.rows_createMigration h with h' | ⟨hi, -, hst, hterm, hp⟩
    · left
      simp [pos, h, h']
    · right
      refine ⟨by simp [pos, hi, s.fresh], ?_⟩
      simp [pos, h, Row.pos, hst, hterm, hp]

/-- **Only a save moves a migration.** -/
theorem pos_effect (env : Env) (op : Op) (i : Id) :
    pos (e.effect env op).store i = pos e.store i ∨
      ∃ src dst checkpoint terminal, op = .saveState i src dst checkpoint terminal ∧
        pos (e.effect env op).store i = (pos e.store i).map (·.moveTo dst terminal) := by
  cases op with
  | saveState id src dst checkpoint terminal =>
    by_cases hi : i = id
    · subst hi
      by_cases hw : (env.fails && !env.landed) = true
      · left; simp [Engine.effect, Engine.write, hw]
      · right
        refine ⟨src, dst, checkpoint, terminal, rfl, ?_⟩
        simp [Engine.effect, Engine.write, hw, pos_saveState]
    · left
      by_cases hw : (env.fails && !env.landed) = true
      · simp [Engine.effect, Engine.write, hw]
      · simp [Engine.effect, Engine.write, hw, pos_saveState, hi]
  | saveCheckpoint id state checkpoint =>
    left
    by_cases hw : (env.fails && !env.landed) = true <;> simp [Engine.effect, Engine.write, hw]
  | _ => exact Or.inl rfl

/-- A save that reports success has moved the migration. -/
theorem pos_effect_saveState {env : Env} {i : Id} {src dst : State} {c : Checkpoint}
    {terminal : Bool} (h : e.answer env (.saveState i src dst c terminal) = true) :
    pos (e.effect env (.saveState i src dst c terminal)).store i =
      (pos e.store i).map (·.moveTo dst terminal) := by
  have hf : env.fails = false := by
    simp only [Engine.answer, Bool.and_eq_true, Bool.not_eq_true'] at h
    exact h.1
  simp [Engine.effect, Engine.write, hf, pos_saveState]

@[simp] theorem log_effect (env : Env) (op : Op) : (e.effect env op).log = e.log := by
  cases op <;> first | rfl | (simp only [Engine.effect, Engine.write]; split_ifs <;> rfl)

@[simp] theorem workers_effect (env : Env) (op : Op) : (e.effect env op).workers = e.workers := by
  cases op <;> first | rfl | (simp only [Engine.effect, Engine.write]; split_ifs <;> rfl)

/-- The position a load reports. -/
theorem load_answer {env : Env} {id : Id} {r : Record}
    (h : e.answer env (.load id) = some r) :
    ∃ p, pos e.store id = some p ∧ r.id = id ∧ r.plan = p.plan.plan ∧ r.state = p.state := by
  simp only [Engine.answer] at h
  split_ifs at h
  obtain ⟨row, hrow, rfl⟩ := Store.load_eq_some.mp h
  exact ⟨Row.pos row, by simp [pos, hrow], rfl, rfl, rfl⟩

/-- **No migration is lost, and none changes its plan.** -/
theorem keeps_step (hs : Stepped delay e a e') : Store.Keeps e.store e'.store := by
  cases hs with
  | apply hr hp => exact fun i r h => ⟨r, Store.rows_createMigration_of_some h, rfl⟩
  | @serve w env t op k hw hc =>
    change Store.Keeps e.store (e.effect env op).store
    cases op with
    | saveState id src dst checkpoint terminal =>
      simp only [Engine.effect, Engine.write]
      split_ifs
      · exact Store.Keeps.refl _
      · exact Store.keeps_modify _ _ _ fun _ => rfl
    | saveCheckpoint id state checkpoint =>
      simp only [Engine.effect, Engine.write]
      split_ifs
      · exact Store.Keeps.refl _
      · exact Store.keeps_modify _ _ _ fun _ => rfl
    | _ => exact Store.Keeps.refl _
  | abort => exact Store.keeps_modify _ _ _ fun _ => rfl
  | _ => exact Store.Keeps.refl _

/-! ### Workers -/

@[simp] theorem setWorker_self (t : Option Task) : (e.setWorker w t).workers w = t :=
  Function.update_self ..

theorem setWorker_of_ne (t : Option Task) (h : w' ≠ w) :
    (e.setWorker w t).workers w' = e.workers w' := Function.update_of_ne h ..

@[simp] theorem workers_serve (t : Task) (env : Env) (op : Op) (k : op.Ret → Code Exit) :
    (e.serve w t env op k).workers w = some { t with code := k (e.answer env op) } :=
  Function.update_self ..

theorem workers_serve_of_ne (t : Task) (env : Env) (op : Op) (k : op.Ret → Code Exit)
    (h : w' ≠ w) : (e.serve w t env op k).workers w' = e.workers w' := by
  rw [← workers_effect (e := e) env op]
  exact Function.update_of_ne h ..

/-- Whose task it is, after a worker has been set. -/
theorem setWorker_cases {x : Option Task} {t : Task} (h : (e.setWorker w x).workers w' = some t) :
    w' = w ∧ x = some t ∨ w' ≠ w ∧ e.workers w' = some t := by
  by_cases hw : w' = w
  · subst hw
    exact Or.inl ⟨rfl, (setWorker_self x).symm.trans h⟩
  · exact Or.inr ⟨hw, (setWorker_of_ne x hw).symm.trans h⟩

/-- A worker takes up a migration that no other is busy with. -/
theorem eq_of_setWorker {m : Id} {t t' : Task} (hfree : ∀ w t, e.workers w = some t → t.id ≠ m)
    (h : (e.setWorker w (some t)).workers w' = some t') (hm : t'.id = m) : w' = w ∧ t' = t := by
  rcases setWorker_cases h with ⟨rfl, ht⟩ | ⟨-, h⟩
  · exact ⟨rfl, (Option.some.inj ht).symm⟩
  · exact absurd hm (hfree w' t' h)

/-- Whose task it is, after a worker has got an answer. -/
theorem serve_cases {t u : Task} {env : Env} {op : Op} {k : op.Ret → Code Exit}
    (h : (e.serve w t env op k).workers w' = some u) :
    w' = w ∧ u = { t with code := k (e.answer env op) } ∨ w' ≠ w ∧ e.workers w' = some u := by
  by_cases hw : w' = w
  · subst hw
    exact Or.inl ⟨rfl, Option.some.inj (h.symm.trans (workers_serve t env op k))⟩
  · exact Or.inr ⟨hw, (workers_serve_of_ne t env op k hw).symm.trans h⟩

/-- The log entry of an event of a task. -/
def entry (w : Fin n) (t : Task) (ev : Event engine) : Entry n := ⟨w, t.id, t.pt.state, ev⟩

theorem log_serve (t : Task) (env : Env) (op : Op) (k : op.Ret → Code Exit) :
    (e.serve w t env op k).log = e.log ++ [entry w t ⟨op, e.answer env op⟩] := rfl

/-! ### Stretches -/

/-- After `tr`, the code of the task is within the specification of its stretch. -/
def Stretch (delay : ℤ) (t : Task) (tr : List (Event engine)) : Prop :=
  t.code.Spec (Ask delay t.id t.pt) (Done delay t.id t.pt) tr

/-- Every worker is in a stretch of its run, and its last events are those of the stretch. -/
def Tracked (delay : ℤ) (e : Engine n) : Prop :=
  ∀ w t, e.workers w = some t → ∃ tr, Stretch delay t tr ∧
    ∃ l, e.log.filter (fun x => x.worker = w) = l ++ tr.map (entry w t)

theorem stretch_taskAt (delay : ℤ) (id : Id) (pt : Pt) : Stretch delay (taskAt delay id pt) [] :=
  body_spec delay id pt

/-- The operation a task waits on is one it may ask for. -/
theorem Stretch.ask {t : Task} {tr : List (Event engine)} {op : Op} {k : op.Ret → Code Exit}
    (h : Stretch delay t tr) (hc : t.code = .call op k) : Ask delay t.id t.pt tr op := by
  unfold Stretch at h
  rw [hc] at h
  exact h.1

theorem Stretch.next {t : Task} {tr : List (Event engine)} {op : Op} {k : op.Ret → Code Exit}
    (h : Stretch delay t tr) (hc : t.code = .call op k) (r : op.Ret) :
    Stretch delay { t with code := k r } (tr ++ [⟨op, r⟩]) := by
  unfold Stretch at h
  rw [hc] at h
  exact h.2 r

theorem Stretch.done {t : Task} {tr : List (Event engine)} {x : Exit}
    (h : Stretch delay t tr) (hc : t.code = .ret x) : Done delay t.id t.pt tr x := by
  unfold Stretch at h
  rw [hc] at h
  exact h

theorem tracked_init : Tracked delay (Engine.init n) := by
  rintro w t ⟨⟩

/-- A worker set to a control point starts a new stretch. -/
theorem Tracked.setWorker (h : Tracked delay e) (id : Id) (pt : Pt) :
    Tracked delay (e.setWorker w (some (taskAt delay id pt))) := by
  intro w' t ht
  rcases setWorker_cases ht with ⟨rfl, hx⟩ | ⟨-, ht⟩
  · cases hx
    exact ⟨[], stretch_taskAt delay id pt, _, (List.append_nil _).symm⟩
  · exact h w' t ht

/-- **Every step keeps track.** -/
theorem Tracked.step (h : Tracked delay e) (hs : Stepped delay e a e') : Tracked delay e' := by
  cases hs with
  | refused hp => exact h
  | apply hr hp => exact h
  | send hi hcap => exact h
  | resume hr hcap => exact h
  | pickup hw hj => exact h.setWorker _ _
  | goto hw hc => exact h.setWorker _ _
  | @stop w env t x hw hc =>
    intro w' t' ht'
    rcases setWorker_cases ht' with ⟨rfl, hx⟩ | ⟨-, ht'⟩
    · cases hx
    · exact h w' t' ht'
  | @serve w env t op k hw hc =>
    intro w' t' ht'
    rcases serve_cases ht' with ⟨rfl, rfl⟩ | ⟨hww, ht'⟩
    · obtain ⟨tr, htr, l, hl⟩ := h w' t hw
      refine ⟨_, htr.next hc _, l, ?_⟩
      rw [log_serve, List.filter_append, hl, List.map_append]
      simp [entry]
    · obtain ⟨tr, htr, l, hl⟩ := h w' t' ht'
      refine ⟨tr, htr, l, ?_⟩
      have : ¬(entry w t ⟨op, e.answer env op⟩).worker = w' := fun heq => hww heq.symm
      rw [log_serve, List.filter_append, hl]
      simp [this]
  | abort => exact h
  | restart =>
    rintro w t ⟨⟩

end MigrationSafety.Server.Steps
