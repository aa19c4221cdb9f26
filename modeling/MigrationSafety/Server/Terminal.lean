import MigrationSafety.Server.Steps

/-! # Terminal states

A run keeps its own state and saves over whatever is stored, so a migration that has been aborted or
finished can be moved again by a run that is still at work on it. It is not, if every step that makes
the migration terminal is taken while no other run of it has work left (`Undisturbed`): then a
terminal migration stays where it is, and nothing is executed on its behalf any more
(`terminal_absorbing`). -/

namespace MigrationSafety.Server.Terminal

open MigrationSafety.Lib.Effects MigrationSafety.Lib.Paths
open MigrationSafety.Plan.Validate MigrationSafety.Safety.Throttle
open MigrationSafety.StateMachine.Signature MigrationSafety.StateMachine.Run
open MigrationSafety.StateMachine.Trace (Ask Done NoSave Op.isSave first_save)
open MigrationSafety.Server.Migrations MigrationSafety.Server.System MigrationSafety.Server.Steps

variable {n : ℕ} {delay : ℤ} {e e' : Engine n} {a : Act n} {w w' : Fin n} {m : Id}

/-! ### Runs with nothing left to do -/

/-- The run is over, or about to find a terminal state. -/
def Exit.final : Exit → Bool
  | .stop _ => true
  | .goto (.loop s) => isTerminal s
  | .goto _ => false

/-- The run only pauses from here on. -/
def Quiet (c : Code Exit) : Prop := c.All (fun op => Op.kind op = .clock) fun x => Exit.final x = true

/-- A worker on `m` has not loaded its record yet, or has nothing left to do. -/
def Idle (delay : ℤ) (m : Id) (e : Engine n) (w : Fin n) : Prop :=
  ∀ t, e.workers w = some t → t.id = m → t = taskAt delay m .start ∨ Quiet t.code

theorem quiet_body {s : State} (h : isTerminal s = true) :
    Quiet (body delay m (.loop s)) := by
  simp only [body, h, if_true]
  rfl

/-- After a terminal state has been saved, a run only pauses. -/
theorem quiet_of_saved {t : Task} {tr : List (Event engine)} {src dst : State} {c : Checkpoint}
    {b : Bool} (htr : NoSave tr) (hd : isTerminal dst = true)
    (h : Stretch delay t (tr ++ [⟨.saveState t.id src dst c (isTerminal dst), b⟩])) :
    Quiet t.code := by
  obtain ⟨id, pt, code⟩ := t
  have hsave : ∀ u, ¬NoSave (tr ++ [⟨.saveState id src dst c (isTerminal dst), b⟩] ++ u) := by
    intro u hu
    have := hu ⟨.saveState id src dst c (isTerminal dst), b⟩ (by simp)
    cases this
  refine Prog.Spec.all h ?_ ?_
  · rintro u op hop
    generalize htr' : tr ++ [_] ++ u = tr' at hop
    cases hop with
    | load hs => exact absurd (htr' ▸ hs) (hsave u)
    | work hs _ => exact absurd (htr' ▸ hs) (hsave u)
    | save hc => exact absurd (htr' ▸ hc.noSave) (hsave u)
    | bake => rfl
  · rintro u x hx
    generalize htr' : tr ++ [_] ++ u = tr' at hx
    cases hx with
    | stop => rfl
    | loaded => exact absurd (htr' ▸ by simp [NoSave, Op.isSave]) (hsave u)
    | saved htr2 hu =>
      -- the two lists have the same first save
      rw [List.append_assoc, List.singleton_append] at htr'
      obtain ⟨-, hev, -⟩ := first_save htr htr2 rfl rfl htr'
      cases hev
      exact hd
    | enter hs _ => exact absurd (htr' ▸ hs) (hsave u)
    | again hs => exact absurd (htr' ▸ hs) (hsave u)

/-! ### Undisturbed steps -/

/-- A step that makes `m` terminal is taken while no other run of `m` has work left. -/
def Undisturbed (delay : ℤ) (m : Id) (e : Engine n) : Act n → Prop
  | .abort id => id = m → ∀ w, Idle delay m e w
  | .work w _ => ∀ t src dst checkpoint k, e.workers w = some t →
      t.code = .call (.saveState m src dst checkpoint true) k → ∀ w', w' ≠ w → Idle delay m e w'
  | _ => True

/-- The terminal flag is that of the state, and a terminal migration has only idle workers. -/
structure Inv (delay : ℤ) (m : Id) (e : Engine n) : Prop where
  tracked : Tracked delay e
  flag : ∀ p, pos e.store m = some p → p.terminal = isTerminal p.state
  idle : ∀ p, pos e.store m = some p → p.terminal = true → ∀ w, Idle delay m e w

theorem inv_init : Inv delay m (Engine.init n) := by
  refine ⟨tracked_init, ?_, ?_⟩ <;> rintro p ⟨⟩

/-- Steps that leave the position of `m`. -/
theorem Inv.of_pos (h : Inv delay m e) (ht : Tracked delay e')
    (hp : pos e'.store m = pos e.store m)
    (hi : ∀ p, pos e.store m = some p → p.terminal = true → ∀ w, Idle delay m e' w) :
    Inv delay m e' :=
  ⟨ht, fun p hp' => h.flag p (hp ▸ hp'), fun p hp' => hi p (hp ▸ hp')⟩

/-! ### A terminal migration -/

section Idle

/-- A worker that has just started and one that is quiet ask for a record or for a pause. -/
theorem Idle.kind {t : Task} {op : Op} {k : op.Ret → Code Exit} (h : Idle delay m e w)
    (hw : e.workers w = some t) (hm : t.id = m) (hc : t.code = .call op k) :
    op = .load m ∨ op.kind = .clock := by
  rcases h t hw hm with rfl | hq
  · cases hc
    exact Or.inl rfl
  · unfold Quiet at hq
    rw [hc] at hq
    exact Or.inr hq.1

/-- An answer leaves an idle worker of a terminal migration idle. -/
theorem Idle.answer {t : Task} {env : Env} {op : Op} {k : op.Ret → Code Exit} {p : Pos}
    (h : Idle delay m e w) (hw : e.workers w = some t) (hm : t.id = m)
    (hc : t.code = .call op k) (hp : pos e.store m = some p) (hp' : isTerminal p.state = true) :
    Quiet (k (e.answer env op)) := by
  rcases h t hw hm with rfl | hq
  · cases hc
    cases hr : e.answer env (.load m) with
    | none => rfl
    | some r =>
      obtain ⟨p', hpos, -, -, hst⟩ := load_answer hr
      rw [hp] at hpos
      cases hpos
      show isTerminal r.state = true
      rw [hst, hp']
  · unfold Quiet at hq
    rw [hc] at hq
    exact hq.2 _

/-- The next control point of an idle worker is the end of its run. -/
theorem Idle.goto {t : Task} {pt : Pt} (h : Idle delay m e w) (hw : e.workers w = some t)
    (hm : t.id = m) (hc : t.code = .ret (.goto pt)) : Quiet (body delay m pt) := by
  rcases h t hw hm with rfl | hq
  · cases hc
  · unfold Quiet at hq
    rw [hc] at hq
    cases pt with
    | loop s => exact quiet_body hq
    | start => cases hq
    | batch r pr => cases hq

end Idle

/-! ### Every undisturbed step -/

theorem Inv.goto {t : Task} {pt : Pt} (h : Inv delay m e) (env : Env)
    (hw : e.workers w = some t) (hc : t.code = .ret (.goto pt)) :
    Inv delay m (e.setWorker w (some (taskAt delay t.id pt))) := by
  have ht : Stepped delay e (.work w env) _ := .goto hw hc
  refine h.of_pos (h.tracked.step ht) rfl fun p hp hterm w' t' ht' hm => ?_
  rcases setWorker_cases ht' with ⟨rfl, hx⟩ | ⟨-, ht'⟩
  · cases hx
    have hm' : t.id = m := hm
    right
    rw [hm']
    exact (h.idle p hp hterm w').goto hw hm' hc
  · exact h.idle p hp hterm w' t' ht' hm

/-- An answer that does not move `m`. -/
theorem Inv.serve_of_pos {t : Task} {env : Env} {op : Op} {k : op.Ret → Code Exit}
    (h : Inv delay m e) (hw : e.workers w = some t) (hc : t.code = .call op k)
    (hp : pos (e.effect env op).store m = pos e.store m) :
    Inv delay m (e.serve w t env op k) := by
  refine h.of_pos (h.tracked.step (.serve hw hc)) hp fun p hp hterm w' t' ht' hm => ?_
  rcases serve_cases ht' with ⟨rfl, rfl⟩ | ⟨-, ht'⟩
  · exact Or.inr ((h.idle p hp hterm w').answer hw hm hc hp (h.flag p hp ▸ hterm))
  · exact h.idle p hp hterm w' t' ht' hm

/-- A save of `m` by one of its runs. -/
theorem Inv.serve_save {t : Task} {env : Env} {src dst : State} {c : Checkpoint} {terminal : Bool}
    {k : Bool → Code Exit} (h : Inv delay m e) (hw : e.workers w = some t)
    (hc : t.code = .call (.saveState m src dst c terminal) k)
    (hu : Undisturbed delay m e (.work w env))
    (hp : pos (e.effect env (.saveState m src dst c terminal)).store m =
      (pos e.store m).map (·.moveTo dst terminal)) :
    Inv delay m (e.serve w t env (.saveState m src dst c terminal) k) := by
  obtain ⟨tr, htr, -⟩ := h.tracked w t hw
  obtain ⟨rfl, rfl, hdone⟩ := (htr.ask hc).save_inv
  refine ⟨h.tracked.step (.serve hw hc), fun p' hp' => ?_, fun p' hp' hterm w' t' ht' hm => ?_⟩
  · obtain ⟨p, -, rfl⟩ := Option.map_eq_some_iff.mp (hp ▸ hp')
    rfl
  · obtain ⟨p, -, rfl⟩ := Option.map_eq_some_iff.mp (hp ▸ hp')
    have hd : isTerminal dst = true := hterm
    rcases serve_cases ht' with ⟨rfl, rfl⟩ | ⟨hww, ht'⟩
    · exact Or.inr (quiet_of_saved hdone.noSave hd (htr.next hc _))
    · exact hu t src dst c k hw (by rw [hc, hd]) w' hww t' ht' hm

/-- **An undisturbed step keeps the invariant.** -/
theorem Inv.step (h : Inv delay m e) (hu : Undisturbed delay m e a) (hs : Stepped delay e a e') :
    Inv delay m e' := by
  cases hs with
  | refused hp => exact h
  | @apply p reported vp hr hp =>
    rcases pos_createMigration e.store vp m with hpos | ⟨-, hpos⟩
    · exact h.of_pos h.tracked hpos h.idle
    · refine ⟨h.tracked, fun p' hp' => ?_, fun p' hp' hterm => ?_⟩
      · cases hpos.symm.trans hp'
        rfl
      · cases hpos.symm.trans hp'
        cases hterm
  | send hi hcap => exact ⟨h.tracked, h.flag, h.idle⟩
  | resume hr hcap => exact ⟨h.tracked, h.flag, h.idle⟩
  | @pickup w id ids hw hj =>
    refine ⟨h.tracked.step (.pickup hw hj), h.flag, fun p hp hterm w' t' ht' hm => ?_⟩
    rcases setWorker_cases (e := e) ht' with ⟨rfl, hx⟩ | ⟨-, ht'⟩
    · cases hx
      have hm' : id = m := hm
      exact Or.inl (by rw [hm'])
    · exact h.idle p hp hterm w' t' ht' hm
  | @goto w env t pt hw hc => exact h.goto env hw hc
  | @stop w env t x hw hc =>
    have ht : Stepped delay e (.work w env) _ := .stop hw hc
    refine h.of_pos (h.tracked.step ht) rfl fun p hp hterm w' t' ht' hm => ?_
    rcases setWorker_cases ht' with ⟨rfl, hx⟩ | ⟨-, ht'⟩
    · cases hx
    · exact h.idle p hp hterm w' t' ht' hm
  | @serve w env t op k hw hc =>
    rcases pos_effect (e := e) env op m with hp | ⟨src, dst, c, terminal, rfl, hp⟩
    · exact h.serve_of_pos hw hc hp
    · exact h.serve_save hw hc hu hp
  | @abort id =>
    have hpos := pos_updateState e.store id m .rolledBack true
    by_cases hm : m = id
    · rw [if_pos hm] at hpos
      refine ⟨h.tracked, fun p' hp' => ?_, fun p' hp' hterm => hu hm.symm⟩
      obtain ⟨p, -, rfl⟩ := Option.map_eq_some_iff.mp (hpos.symm.trans hp')
      rfl
    · rw [if_neg hm] at hpos
      exact h.of_pos h.tracked hpos h.idle
  | restart =>
    refine ⟨h.tracked.step .restart, h.flag, ?_⟩
    rintro p hp hterm w t ⟨⟩

/-! ### Absorption -/

/-- From `e` on, `m` stays terminal, only an abort moves it, and nothing is executed for it. -/
structure Absorbed (m : Id) (as : List (Act n)) (e e' : Engine n) : Prop where
  position : ∀ r, e.store.rows m = some r → ∃ r', e'.store.rows m = some r' ∧ r'.terminal = true ∧
    (r'.state = r.state ∨ (Act.abort m ∈ as ∧ r'.state = .rolledBack))
  silent : ∃ new, e'.log = e.log ++ new ∧ ∀ x ∈ new, x.id = m → x.event.op.executes = false

theorem pos_eq_some {s : Store} {i : Id} {p : Pos} (h : pos s i = some p) :
    ∃ r, s.rows i = some r ∧ r.state = p.state ∧ r.terminal = p.terminal := by
  obtain ⟨r, hr, rfl⟩ := Option.map_eq_some_iff.mp h
  exact ⟨r, hr, rfl, rfl⟩

/-- One step at a terminal migration. -/
theorem position_step {p : Pos} (h : Inv delay m e) (hp : pos e.store m = some p)
    (ht : p.terminal = true) (hs : Stepped delay e a e') :
    ∃ p', pos e'.store m = some p' ∧ p'.terminal = true ∧
      (p'.state = p.state ∨ (a = .abort m ∧ p'.state = .rolledBack)) := by
  cases hs with
  | @apply q reported vp hr hq =>
    rcases pos_createMigration e.store vp m with hpos | ⟨hnone, -⟩
    · exact ⟨p, hpos.trans hp, ht, Or.inl rfl⟩
    · rw [hp] at hnone
      cases hnone
  | @serve w env t op k hw hc =>
    rcases pos_effect (e := e) env op m with hpos | ⟨src, dst, c, terminal, rfl, -⟩
    · exact ⟨p, hpos.trans hp, ht, Or.inl rfl⟩
    · -- a run of `m` would have to save, but all of them are idle
      obtain ⟨tr, htr, -⟩ := h.tracked w t hw
      obtain ⟨hm, -, -⟩ := (htr.ask hc).save_inv
      rcases (h.idle p hp ht w).kind hw hm.symm hc with hop | hop <;> cases hop
  | @abort id =>
    have hpos := pos_updateState e.store id m .rolledBack true
    by_cases hm : m = id
    · rw [if_pos hm, hp] at hpos
      exact ⟨_, hpos, rfl, Or.inr ⟨by rw [hm], rfl⟩⟩
    · rw [if_neg hm] at hpos
      exact ⟨p, hpos.trans hp, ht, Or.inl rfl⟩
  | _ => exact ⟨p, hp, ht, Or.inl rfl⟩

theorem silent_step {p : Pos} (h : Inv delay m e) (hp : pos e.store m = some p)
    (ht : p.terminal = true) (hs : Stepped delay e a e') :
    ∃ new, e'.log = e.log ++ new ∧ ∀ x ∈ new, x.id = m → x.event.op.executes = false := by
  cases hs with
  | @serve w env t op k hw hc =>
    refine ⟨_, log_serve t env op k, fun x hx hm => ?_⟩
    rw [List.mem_singleton] at hx
    subst hx
    rcases (h.idle p hp ht w).kind hw hm hc with rfl | hop
    · rfl
    · have hk : Op.kind op = .clock := hop
      exact @executes_of_kind op (by rw [hk]; decide) (by rw [hk]; decide)
  | _ => exact ⟨[], (List.append_nil _).symm, by simp⟩

/-- The invariant along a run, and what the run leaves of a terminal migration. -/
theorem absorbed_of_run {as : List (Act n)} {p : Pos} (h : Inv delay m e)
    (hp : pos e.store m = some p) (ht : p.terminal = true)
    (hr : Runs delay (Undisturbed delay m) e as e') :
    Inv delay m e' ∧ (∃ p', pos e'.store m = some p' ∧ p'.terminal = true ∧
      (p'.state = p.state ∨ (Act.abort m ∈ as ∧ p'.state = .rolledBack))) ∧
      ∃ new, e'.log = e.log ++ new ∧ ∀ x ∈ new, x.id = m → x.event.op.executes = false := by
  induction hr with
  | nil => exact ⟨h, ⟨p, hp, ht, Or.inl rfl⟩, [], (List.append_nil _).symm, by simp⟩
  | @snoc u v as a hpath ha ih =>
    obtain ⟨hi, ⟨p', hp', ht', hst⟩, new, hnew, hsil⟩ := ih
    have hs := step_inv ha.1
    obtain ⟨p'', hp'', ht'', hst'⟩ := position_step hi hp' ht' hs
    obtain ⟨new', hnew', hsil'⟩ := silent_step hi hp' ht' hs
    refine ⟨hi.step ha.2 hs, ⟨p'', hp'', ht'', ?_⟩, new ++ new', ?_, ?_⟩
    · rcases hst' with h1 | ⟨rfl, h1⟩
      · rcases hst with h2 | ⟨hab, h2⟩
        · exact Or.inl (h1.trans h2)
        · exact Or.inr ⟨by simp [hab], h1.trans h2⟩
      · exact Or.inr ⟨by simp, h1⟩
    · rw [hnew', hnew, List.append_assoc]
    · intro x hx
      rcases List.mem_append.mp hx with hx | hx
      · exact hsil x hx
      · exact hsil' x hx

/-- **Terminal states are absorbing**, in every run whose steps make `m` terminal only while no other
run of `m` has work left. -/
theorem terminal_absorbing {as as' : List (Act n)} {r : Row}
    (h : Runs delay (Undisturbed delay m) (Engine.init n) as e) (hr : e.store.rows m = some r)
    (ht : r.terminal = true) (h' : Runs delay (Undisturbed delay m) e as' e') :
    Absorbed m as' e e' := by
  have hi : Inv delay m e := h.invariant inv_init fun u a v hu ha => hu.step ha.2 (step_inv ha.1)
  have hp : pos e.store m = some (Row.pos r) := by simp [pos, hr]
  obtain ⟨-, ⟨p', hp', ht', hst⟩, hlog⟩ := absorbed_of_run hi hp ht h'
  refine ⟨fun r0 hr0 => ?_, hlog⟩
  cases hr.symm.trans hr0
  obtain ⟨r', hr', hs', htm'⟩ := pos_eq_some hp'
  exact ⟨r', hr', htm'.trans ht', by rw [hs']; exact hst⟩

/-- The only worker is not at work when a migration is aborted. -/
def restful (e : Engine 1) : Act 1 → Bool
  | .abort _ => (e.workers 0).isNone
  | _ => true

theorem undisturbed_of_restful (e : Engine 1) (a : Act 1) (h : restful e a = true) :
    Undisturbed delay m e a := by
  cases a with
  | abort id =>
    rintro - w t hw -
    rw [Subsingleton.elim w 0, Option.isNone_iff_eq_none.mp h] at hw
    cases hw
  | work w env => exact fun t src dst c k _ _ w' hw' => absurd (Subsingleton.elim w' w) hw'
  | _ => trivial

/-- A migration runs to `Done`, is submitted again, and is aborted. -/
theorem terminal_absorbing_done : ∃ (e e' : Engine 1) (r : Row),
    e.store.rows 0 = some r ∧ r.state = .done ∧
      Absorbed 0 (submit plainPlan 0 ++ drive 0 3 ++ [.abort 0]) e e' := by
  have hrun : ((runs (Engine.step 0) restful (Engine.init 1)
      (submit plainPlan 0 ++ drive 0 65)).any fun e =>
        ((e.store.rows 0).any fun r => r.state = .done ∧ r.terminal) &&
          (runs (Engine.step 0) restful e
            (submit plainPlan 0 ++ drive 0 3 ++ [.abort 0])).isSome) = true := by
    decide +kernel
  obtain ⟨e, he, hP⟩ := exists_path_of_any (@undisturbed_of_restful 0 0) hrun
  obtain ⟨hrow, hnext⟩ := Bool.and_eq_true_iff.mp hP
  obtain ⟨e', he'⟩ := Option.isSome_iff_exists.mp hnext
  obtain ⟨r, hr, hst⟩ := (Option.any_eq_true _ _).mp hrow
  obtain ⟨hdone, hterm⟩ := of_decide_eq_true hst
  exact ⟨e, e', r, hr, hdone,
    terminal_absorbing he hr hterm (path_of_runs undisturbed_of_restful he')⟩

/-- **An aborted migration is moved on** by the run that is at work on it. -/
theorem aborted_not_absorbing : ¬∀ (n : ℕ) (delay : ℤ) (m : Id) (as as' : List (Act n))
    (e e' : Engine n) (r : Row), Runs delay (fun _ _ => True) (Engine.init n) as e →
      e.store.rows m = some r → r.terminal = true → Runs delay (fun _ _ => True) e as' e' →
      Absorbed m as' e e' := by
  intro hall
  have hrun : ((runs (Engine.step 0) (fun _ _ => true) (Engine.init 1)
      (submit plainPlan 0 ++ drive 0 4 ++ [.abort 0])).any fun e =>
        ((e.store.rows 0).any fun r => r.terminal) &&
          (runs (Engine.step 0) (fun _ _ => true) e (drive 0 1)).any fun e' =>
            (e'.store.rows 0).any fun r => r.state = .expanding ∧ r.terminal = false) = true := by
    decide +kernel
  obtain ⟨e, he, hP⟩ := exists_path_of_any_free hrun
  obtain ⟨hrow, hnext⟩ := Bool.and_eq_true_iff.mp hP
  obtain ⟨e', he', hP'⟩ := exists_path_of_any_free hnext
  obtain ⟨r, hr, hterm⟩ := (Option.any_eq_true _ _).mp hrow
  obtain ⟨r', hr', hst'⟩ := (Option.any_eq_true _ _).mp hP'
  obtain ⟨r'', hr'', hterm'', -⟩ := (hall 1 0 0 _ _ e e' r he hr hterm he').position r hr
  rw [hr'] at hr''
  cases hr''
  rw [(of_decide_eq_true hst').2] at hterm''
  cases hterm''

end MigrationSafety.Server.Terminal
