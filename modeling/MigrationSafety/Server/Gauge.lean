import MigrationSafety.Server.Steps

/-! # The state gauge

The engine together with the gauge `migrate_state_info` of its process. A `Run` sets the label of the
state it finds when it has loaded the record, and moves the label with each state it saves; nothing
else writes to the gauge. So an abort leaves it behind, and the next `Run` sets a second label.

`truthful_step` says for each step whether the gauge still shows the stored states after it, and
`truthful_iff` for runs. -/

namespace MigrationSafety.Server.Gauge

open MigrationSafety.Lib.Effects MigrationSafety.Lib.Paths MigrationSafety.Plan.Validate
open MigrationSafety.StateMachine.Signature MigrationSafety.StateMachine.Run
open MigrationSafety.StateMachine.Trace (Ask)
open MigrationSafety.Server.Migrations MigrationSafety.Server.System MigrationSafety.Server.Steps

variable {n : ℕ} {delay : ℤ}

/-! ### The gauge -/

/-- The values by migration, plan and state; a label that has not been set counts as 0. -/
abbrev StateInfo := Id → String → State → ℕ

/-- `SetState`: the previous label is cleared first. -/
def setState (g : StateInfo) (migrationID : Id) (planID : String) (prev : Option State) (cur : State) :
    StateInfo := fun i p s =>
  if i = migrationID ∧ p = planID then
    if s = cur then 1 else if prev = some s then 0 else g i p s
  else g i p s

/-- Exactly this label is 1. -/
def Shows (g : StateInfo) (m : Id) (planID : String) (state : State) : Prop :=
  ∀ p s, g m p s = 1 ↔ p = planID ∧ s = state

section
variable {g : StateInfo} {m id : Id} {planID : String} {prev : Option State} {state src dst : State}

theorem setState_of_ne (h : m ≠ id) : setState g id planID prev dst m = g m := by
  unfold setState
  simp [h]

theorem shows_setState_of_ne (h : m ≠ id) :
    Shows (setState g id planID prev dst) m = Shows g m := by
  unfold Shows
  rw [setState_of_ne h]

/-- The label of a state is set where there is none, or only this one. -/
theorem shows_of_first (h : (∀ p s, g m p s ≠ 1) ∨ Shows g m planID state) :
    Shows (setState g m planID none state) m planID state := by
  intro p s
  unfold setState
  by_cases hp : p = planID
  · by_cases hs : s = state
    · simp [hp, hs]
    · rcases h with h | h
      · simp [hp, hs, h]
      · simp [hp, hs, h planID s]
  · rcases h with h | h
    · simp [hp, h]
    · simp [hp, h p s]

/-- **The label moves along** if and only if it was that of the previous state, or is the new one
already. -/
theorem shows_moved_iff (h : Shows g m planID state) :
    Shows (setState g m planID (some src) dst) m planID dst ↔ state = dst ∨ state = src := by
  have hset : ∀ p s, setState g m planID (some src) dst m p s = 1 ↔
      p = planID ∧ (s = dst ∨ src ≠ s ∧ s = state) := by
    intro p s
    unfold setState
    by_cases hp : p = planID
    · by_cases hs : s = dst
      · simp [hp, hs]
      · by_cases hsrc : src = s <;> simp [hp, hs, hsrc, h planID s]
    · simp [hp, h p s]
  constructor
  · intro hshows
    by_contra hne
    have hboth := (hset planID state).mpr ⟨rfl, Or.inr ⟨fun heq => hne (Or.inr heq.symm), rfl⟩⟩
    exact hne (Or.inl ((hshows planID state).mp hboth).2)
  · rintro hor p s
    rw [hset]
    refine and_congr_right fun _ => ⟨?_, Or.inl⟩
    rintro (heq | ⟨hsrc, rfl⟩)
    · exact heq
    · exact hor.resolve_right fun heq => hsrc heq.symm

theorem Shows.unique (h : Shows g m planID state) (h' : Shows g m planID dst) : state = dst :=
  ((h' planID state).mp ((h planID state).mpr ⟨rfl, rfl⟩)).2

end

/-! ### The engine and its gauge -/

structure Watched (n : ℕ) where
  engine : Engine n
  stateInfo : StateInfo
  /-- The migrations whose record a `Run` of this process has loaded. -/
  ran : List Id

namespace Watched

def init (n : ℕ) : Watched n where
  engine := Engine.init n
  stateInfo := fun _ _ _ => 0
  ran := []

/-- The plan of a migration never changes, so the one in the store is that of the record. -/
def planID (x : Watched n) (id : Id) : String := (pos x.engine.store id).elim "" fun p => p.plan.plan.id

/-- What `Run` does to the gauge when it gets an answer. -/
def tell (x : Watched n) (t : Task) (env : Env) : Op → StateInfo
  | .load id =>
    match t.pt, x.engine.answer env (.load id) with
    | .start, some r => setState x.stateInfo t.id r.plan.id none r.state
    | _, _ => x.stateInfo
  | .saveState id src dst checkpoint terminal =>
    if x.engine.answer env (.saveState id src dst checkpoint terminal) then
      setState x.stateInfo id (x.planID id) (some src) dst
    else x.stateInfo
  | _ => x.stateInfo

/-- The migrations that have been run. -/
def tally (x : Watched n) (t : Task) (env : Env) : Op → List Id
  | .load id =>
    match t.pt, x.engine.answer env (.load id) with
    | .start, some _ => t.id :: x.ran
    | _, _ => x.ran
  | _ => x.ran

/-- The gauge and the migrations that have been run, after a step. -/
def observe (x : Watched n) : Act n → StateInfo × List Id
  | .restart => (fun _ _ _ => 0, [])
  | .work w env =>
    match x.engine.workers w with
    | none => (x.stateInfo, x.ran)
    | some t =>
      match t.code with
      | .ret _ => (x.stateInfo, x.ran)
      | .call op _ => (x.tell t env op, x.tally t env op)
  | _ => (x.stateInfo, x.ran)

/-- A step of the engine, with the gauge. -/
def step (delay : ℤ) (x : Watched n) (a : Act n) : Option (Watched n) :=
  (x.engine.step delay a).map fun e => ⟨e, (x.observe a).1, (x.observe a).2⟩

/-- **The gauge is one-hot and truthful**: of each migration that has been run, the label of the stored
state is 1, and no other. -/
def Truthful (x : Watched n) : Prop :=
  ∀ m ∈ x.ran, ∃ p, pos x.engine.store m = some p ∧ Shows x.stateInfo m p.plan.plan.id p.state

/-- The gauge can follow the step: no migration that has been run is aborted, unless it is `RolledBack`;
and where a save takes effect, it reports so and finds the state it comes from, unless the migration
is in the new state already. -/
def Followed (x : Watched n) : Act n → Prop
  | .abort id => id ∈ x.ran → ∀ p, pos x.engine.store id = some p → p.state = .rolledBack
  | .work w env => ∀ t i src dst checkpoint terminal k, x.engine.workers w = some t →
      t.code = .call (.saveState i src dst checkpoint terminal) k →
        ∀ p, pos x.engine.store i = some p → p.state = dst ∨
          (env.fails = false ∧ p.state = src) ∨ (env.fails = true ∧ env.landed = false)
  | _ => True

end Watched

open Watched

/-! ### Every step -/

/-- What holds in every run, whether the gauge is truthful or not. -/
structure Watch (delay : ℤ) (x : Watched n) : Prop where
  tracked : Tracked delay x.engine
  /-- A worker has yet to load its record, is about to stop, or is at work on a migration that has been
  run. -/
  started : ∀ w t, x.engine.workers w = some t →
    t = taskAt delay t.id .start ∨ (∃ b, t.code = .ret (.stop b)) ∨ t.id ∈ x.ran
  unset : ∀ m ∉ x.ran, ∀ p s, x.stateInfo m p s ≠ 1

section
variable {x y : Watched n} {a : Act n} {w : Fin n} {env : Env} {t : Task} {op : Op}
  {k : op.Ret → Code Exit}

theorem step_eq (h : x.step delay a = some y) :
    ∃ e, Stepped delay x.engine a e ∧ y = ⟨e, (x.observe a).1, (x.observe a).2⟩ := by
  obtain ⟨e, he, rfl⟩ := Option.map_eq_some_iff.mp h
  exact ⟨e, step_inv he, rfl⟩

theorem observe_serve (hw : x.engine.workers w = some t) (hc : t.code = .call op k) :
    x.observe (.work w env) = (x.tell t env op, x.tally t env op) := by
  simp only [observe, hw, hc]

theorem observe_ret {b : Exit} (hw : x.engine.workers w = some t) (hc : t.code = .ret b) :
    x.observe (.work w env) = (x.stateInfo, x.ran) := by
  simp only [observe, hw, hc]

theorem watch_init : Watch delay (Watched.init n) := by
  refine ⟨tracked_init, ?_, fun _ _ _ _ => zero_ne_one⟩
  rintro w t ⟨⟩

/-- What the answer to an operation tells the gauge. -/
theorem tell_cases (x : Watched n) (t : Task) (env : Env) (op : Op) :
    (x.tell t env op = x.stateInfo ∧ x.tally t env op = x.ran) ∨
    (∃ id r, op = .load id ∧ t.pt = .start ∧ x.engine.answer env (.load id) = some r ∧
      x.tell t env op = setState x.stateInfo t.id r.plan.id none r.state ∧
      x.tally t env op = t.id :: x.ran) ∨
    ∃ id src dst checkpoint terminal, op = .saveState id src dst checkpoint terminal ∧
      x.engine.answer env (.saveState id src dst checkpoint terminal) = true ∧
      x.tell t env op = setState x.stateInfo id (x.planID id) (some src) dst ∧
      x.tally t env op = x.ran := by
  cases op with
  | load id =>
    cases hpt : t.pt with
    | start =>
      cases hr : x.engine.answer env (.load id) with
      | none => exact Or.inl ⟨by simp only [Watched.tell, hpt, hr], by simp only [Watched.tally, hpt, hr]⟩
      | some r =>
        exact Or.inr (Or.inl ⟨id, r, rfl, rfl, hr, by simp only [Watched.tell, hpt, hr], by simp only [Watched.tally, hpt, hr]⟩)
    | loop cur => exact Or.inl ⟨by simp only [Watched.tell, hpt], by simp only [Watched.tally, hpt]⟩
    | batch r pr => exact Or.inl ⟨by simp only [Watched.tell, hpt], by simp only [Watched.tally, hpt]⟩
  | saveState id src dst checkpoint terminal =>
    by_cases hans : x.engine.answer env (.saveState id src dst checkpoint terminal) = true
    · exact Or.inr (Or.inr ⟨id, src, dst, checkpoint, terminal, rfl, hans, if_pos hans, rfl⟩)
    · exact Or.inl ⟨if_neg hans, rfl⟩
  | _ => exact Or.inl ⟨rfl, rfl⟩

theorem ran_subset (x : Watched n) (t : Task) (env : Env) (op : Op) : x.ran ⊆ x.tally t env op := by
  rcases tell_cases x t env op with ⟨-, h⟩ | ⟨_, _, -, -, -, -, h⟩ | ⟨_, _, _, _, _, -, -, -, h⟩
  · rw [h]
    exact List.Subset.refl _
  · rw [h]
    exact List.subset_cons_self _ _
  · rw [h]
    exact List.Subset.refl _

/-- A worker loads the record of its own migration. -/
theorem Watch.load_id (h : Watch delay x) (hw : x.engine.workers w = some t) {id : Id}
    {k : Option Record → Code Exit} (hc : t.code = .call (.load id) k) : id = t.id := by
  obtain ⟨tr, htr, -⟩ := h.tracked w t hw
  cases htr.ask hc with
  | load _ => rfl
  | work _ hk => exact absurd rfl hk

/-- A worker saves its own migration, after it has loaded the record. -/
theorem Watch.save_id (h : Watch delay x) (hw : x.engine.workers w = some t) {id : Id} {src dst : State}
    {checkpoint : Checkpoint} {terminal : Bool} {k : Bool → Code Exit}
    (hc : t.code = .call (.saveState id src dst checkpoint terminal) k) : id = t.id ∧ id ∈ x.ran := by
  obtain ⟨tr, htr, -⟩ := h.tracked w t hw
  obtain ⟨rfl, -, -⟩ := (htr.ask hc).save_inv
  refine ⟨rfl, ?_⟩
  rcases h.started w t hw with hstart | ⟨b, hb⟩ | hran
  · rw [hstart] at hc
    cases hc
  · rw [hb] at hc
    cases hc
  · exact hran

/-- The worker goes on after an answer. -/
theorem Watch.started_serve (h : Watch delay x) (hw : x.engine.workers w = some t)
    (hc : t.code = .call op k) : (∃ b, k (x.engine.answer env op) = .ret (.stop b)) ∨
      t.id ∈ x.tally t env op := by
  rcases h.started w t hw with hstart | ⟨b, hb⟩ | hran
  · have hpt : t.pt = .start := by rw [hstart]; rfl
    rw [hstart] at hc
    cases hc
    cases hr : x.engine.answer env (.load t.id) with
    | none => exact Or.inl ⟨_, rfl⟩
    | some r =>
      right
      simp only [Watched.tally, hpt, hr]
      exact List.mem_cons_self
  · rw [hb] at hc
    cases hc
  · exact Or.inr (ran_subset x t env op hran)

theorem Watch.serve (h : Watch delay x) (hw : x.engine.workers w = some t) (hc : t.code = .call op k) :
    Watch delay ⟨x.engine.serve w t env op k, x.tell t env op, x.tally t env op⟩ where
  tracked := h.tracked.step (.serve hw hc)
  started := by
    intro w' t' ht'
    rcases serve_cases ht' with ⟨rfl, rfl⟩ | ⟨-, ht'⟩
    · exact Or.inr (h.started_serve hw hc)
    · rcases h.started w' t' ht' with hstart | hb | hran
      · exact Or.inl hstart
      · exact Or.inr (Or.inl hb)
      · exact Or.inr (Or.inr (ran_subset x t env op hran))
  unset := by
    intro m hm p s
    have hran : m ∉ x.ran := fun hin => hm (ran_subset x t env op hin)
    change x.tell t env op m p s ≠ 1
    rcases tell_cases x t env op with ⟨htell, -⟩ | ⟨id, r, rfl, -, -, htell, htally⟩ |
      ⟨id, src, dst, checkpoint, terminal, rfl, -, htell, -⟩
    · rw [htell]
      exact h.unset m hran p s
    · have hne : m ≠ t.id := fun heq => hm (by rw [htally, heq]; exact List.mem_cons_self)
      rw [htell, setState_of_ne hne]
      exact h.unset m hran p s
    · have hne : m ≠ id := fun heq => hran (heq ▸ (h.save_id hw hc).2)
      rw [htell, setState_of_ne hne]
      exact h.unset m hran p s

/-- **Every step keeps watch.** -/
theorem Watch.step (h : Watch delay x) (hs : x.step delay a = some y) : Watch delay y := by
  obtain ⟨e, he, rfl⟩ := step_eq hs
  cases he with
  | refused hp => exact h
  | apply hr hp => exact ⟨h.tracked, h.started, h.unset⟩
  | send hi hcap => exact ⟨h.tracked, h.started, h.unset⟩
  | resume hr hcap => exact ⟨h.tracked, h.started, h.unset⟩
  | @pickup w id ids hw hj =>
    refine ⟨h.tracked.step (.pickup hw hj), fun w' t' ht' => ?_, h.unset⟩
    rcases setWorker_cases (e := x.engine) ht' with ⟨rfl, hx⟩ | ⟨-, ht'⟩
    · cases hx
      exact Or.inl rfl
    · exact h.started w' t' ht'
  | @goto w env t pt hw hc =>
    rw [observe_ret hw hc]
    have hstep : Stepped delay x.engine (.work w env) _ := .goto hw hc
    refine ⟨h.tracked.step hstep, fun w' t' ht' => ?_, h.unset⟩
    rcases setWorker_cases (e := x.engine) ht' with ⟨rfl, hx⟩ | ⟨-, ht'⟩
    · cases hx
      right
      right
      rcases h.started w' t hw with hstart | ⟨b, hb⟩ | hran
      · rw [hstart] at hc
        cases hc
      · rw [hb] at hc
        cases hc
      · exact hran
    · exact h.started w' t' ht'
  | @stop w env t b hw hc =>
    rw [observe_ret hw hc]
    have hstep : Stepped delay x.engine (.work w env) _ := .stop hw hc
    refine ⟨h.tracked.step hstep, fun w' t' ht' => ?_, h.unset⟩
    rcases setWorker_cases (e := x.engine) ht' with ⟨rfl, hx⟩ | ⟨-, ht'⟩
    · cases hx
    · exact h.started w' t' ht'
  | @serve w env t op k hw hc =>
    rw [observe_serve hw hc]
    exact h.serve hw hc
  | abort => exact ⟨h.tracked, h.started, h.unset⟩
  | restart =>
    refine ⟨h.tracked.step .restart, ?_, fun _ _ _ _ => zero_ne_one⟩
    rintro w t ⟨⟩

/-! ### Whether the gauge stays truthful -/

/-- A step that moves neither a migration nor a label. -/
theorem Watched.Truthful.of_same (ht : Truthful x) (hran : y.ran = x.ran) (hg : y.stateInfo = x.stateInfo)
    (hpos : ∀ m p, pos x.engine.store m = some p → pos y.engine.store m = some p) : Truthful y := by
  intro m hm
  rw [hran] at hm
  obtain ⟨p, hp, hshows⟩ := ht m hm
  exact ⟨p, hpos m p hp, hg ▸ hshows⟩

/-- An answer to anything but a save. -/
theorem truthful_serve (h : Watch delay x) (ht : Truthful x) (hw : x.engine.workers w = some t)
    (hc : t.code = .call op k)
    (hop : ∀ i src dst checkpoint terminal, op ≠ .saveState i src dst checkpoint terminal) :
    Truthful ⟨x.engine.serve w t env op k, x.tell t env op, x.tally t env op⟩ := by
  have hpos : ∀ m, pos (x.engine.serve w t env op k).store m = pos x.engine.store m := fun m => by
    rcases pos_effect (e := x.engine) env op m with hp | ⟨_, _, _, _, heq, -⟩
    · exact hp
    · exact absurd heq (hop _ _ _ _ _)
  rcases tell_cases x t env op with ⟨htell, htally⟩ | ⟨id, r, rfl, -, hr, htell, htally⟩ |
    ⟨id, src, dst, checkpoint, terminal, heq, -⟩
  · exact ht.of_same htally htell fun m p hp => (hpos m).trans hp
  · obtain rfl := h.load_id hw hc
    obtain ⟨p, hp, -, hplan, hstate⟩ := load_answer hr
    intro m hm
    change m ∈ x.tally t env (.load t.id) at hm
    change ∃ p, pos (x.engine.serve w t env (.load t.id) k).store m = some p ∧
      Shows (x.tell t env (.load t.id)) m p.plan.plan.id p.state
    rw [htell, hpos, hplan, hstate]
    rw [htally] at hm
    by_cases hid : m = t.id
    · subst hid
      refine ⟨p, hp, shows_of_first ?_⟩
      by_cases hran : t.id ∈ x.ran
      · obtain ⟨p', hp', hshows⟩ := ht _ hran
        cases hp.symm.trans hp'
        exact Or.inr hshows
      · exact Or.inl (h.unset _ hran)
    · rw [shows_setState_of_ne hid]
      exact ht m ((List.mem_cons.mp hm).resolve_left hid)
  · exact absurd heq (hop _ _ _ _ _)

/-- The other migrations are not concerned by a save. -/
theorem truthful_save_iff (ht : Truthful x) {i : Id} {p : Pos} {e : Engine n} {g : StateInfo}
    (hi : i ∈ x.ran) (hp : pos e.store i = some p)
    (hpos : ∀ m, m ≠ i → pos e.store m = pos x.engine.store m) (hg : ∀ m, m ≠ i → Shows g m = Shows x.stateInfo m) :
    Truthful ⟨e, g, x.ran⟩ ↔ Shows g i p.plan.plan.id p.state := by
  constructor
  · intro hy
    obtain ⟨p', hp', hshows⟩ := hy i hi
    cases hp.symm.trans hp'
    exact hshows
  · intro hshows m hm
    by_cases hmi : m = i
    · subst hmi
      exact ⟨p, hp, hshows⟩
    · obtain ⟨p', hp', hshows'⟩ := ht m hm
      refine ⟨p', (hpos m hmi).trans hp', ?_⟩
      change Shows g m _ _
      rwa [hg m hmi]

/-- A save leaves the other migrations. -/
theorem pos_save_of_ne {e : Engine n} {i m : Id} {src dst : State} {checkpoint : Checkpoint}
    {terminal : Bool} (hm : m ≠ i) :
    pos (e.effect env (.saveState i src dst checkpoint terminal)).store m = pos e.store m := by
  rcases pos_effect (e := e) env (.saveState i src dst checkpoint terminal) m with hp | ⟨_, _, _, _, heq, -⟩
  · exact hp
  · cases heq
    exact absurd rfl hm

/-- **A save.** -/
theorem truthful_save (h : Watch delay x) (ht : Truthful x) {i : Id} {src dst : State}
    {checkpoint : Checkpoint} {terminal : Bool} {k : Bool → Code Exit} (hw : x.engine.workers w = some t)
    (hc : t.code = .call (.saveState i src dst checkpoint terminal) k) :
    Truthful ⟨x.engine.serve w t env (.saveState i src dst checkpoint terminal) k,
        x.tell t env (.saveState i src dst checkpoint terminal), x.ran⟩ ↔
      ∀ p, pos x.engine.store i = some p → p.state = dst ∨
        (env.fails = false ∧ p.state = src) ∨ (env.fails = true ∧ env.landed = false) := by
  have hi := (h.save_id hw hc).2
  obtain ⟨p, hp, hshows⟩ := ht i hi
  have hrow : (x.engine.store.rows i).isSome = true := by
    obtain ⟨r, hr, -⟩ := Option.map_eq_some_iff.mp hp
    rw [hr]
    rfl
  set e := x.engine.serve w t env (.saveState i src dst checkpoint terminal) k with he
  have hpos : ∀ m, m ≠ i → pos e.store m = pos x.engine.store m := fun m => pos_save_of_ne
  have hmoved : ¬(env.fails && !env.landed) = true → pos e.store i = some (p.moveTo dst terminal) := by
    intro hlands
    change pos (x.engine.effect env _).store i = _
    simp [Engine.effect, Engine.write, hlands, pos_saveState, hp]
  have hall : (∀ q, pos x.engine.store i = some q → q.state = dst ∨
      (env.fails = false ∧ q.state = src) ∨ (env.fails = true ∧ env.landed = false)) ↔ (p.state = dst ∨
        (env.fails = false ∧ p.state = src) ∨ (env.fails = true ∧ env.landed = false)) := by
    simp [hp]
  rw [hall]
  cases hfails : env.fails with
  | false =>
    have htell : x.tell t env (.saveState i src dst checkpoint terminal) =
        setState x.stateInfo i p.plan.plan.id (some src) dst := by
      refine (if_pos (by simp [Engine.answer, hfails, hrow])).trans ?_
      simp [planID, hp]
    rw [htell, truthful_save_iff ht hi (hmoved (by simp [hfails])) hpos fun m hm => shows_setState_of_ne hm]
    refine (shows_moved_iff hshows).trans ?_
    simp
  | true =>
    have htell : x.tell t env (.saveState i src dst checkpoint terminal) = x.stateInfo :=
      if_neg (by simp [Engine.answer, hfails])
    rw [htell]
    cases hlanded : env.landed with
    | false =>
      have hsame : pos e.store i = some p := by
        change pos (x.engine.effect env _).store i = _
        simp [Engine.effect, Engine.write, hfails, hlanded, hp]
      rw [truthful_save_iff ht hi hsame hpos fun m _ => rfl]
      simp [hshows]
    | true =>
      rw [truthful_save_iff ht hi (hmoved (by simp [hlanded])) hpos fun m _ => rfl]
      have hiff : Shows x.stateInfo i p.plan.plan.id dst ↔ p.state = dst :=
        ⟨fun h' => hshows.unique h', fun heq => heq ▸ hshows⟩
      refine hiff.trans ?_
      simp

/-- A worker that waits for nothing saves nothing. -/
theorem followed_of_ret {b : Exit} (hw : x.engine.workers w = some t) (hc : t.code = .ret b) :
    Followed x (.work w env) := by
  intro t' i src dst checkpoint terminal k hw' hc'
  cases hw.symm.trans hw'
  cases hc.symm.trans hc'

/-- **An abort.** -/
theorem truthful_abort (ht : Truthful x) {id : Id} :
    Truthful ⟨{ x.engine with store := x.engine.store.updateState id .rolledBack true }, x.stateInfo, x.ran⟩ ↔
      Followed x (.abort id) := by
  have hpos : ∀ m, m ≠ id →
      pos (x.engine.store.updateState id .rolledBack true) m = pos x.engine.store m := fun m hm => by
    rw [pos_updateState, if_neg hm]
  by_cases hran : id ∈ x.ran
  · obtain ⟨p, hp, hshows⟩ := ht id hran
    have hp' : pos (x.engine.store.updateState id .rolledBack true) id = some (p.moveTo .rolledBack true) := by
      rw [pos_updateState, if_pos rfl, hp]
      rfl
    rw [truthful_save_iff ht hran hp' hpos fun _ _ => rfl]
    simp only [Followed, hran, forall_const, hp, Option.some.injEq, forall_eq']
    exact ⟨fun h' => hshows.unique h', fun heq => heq ▸ hshows⟩
  · refine iff_of_true (fun m hm => ?_) fun hin => absurd hin hran
    obtain ⟨p, hp, hshows⟩ := ht m hm
    exact ⟨p, (hpos m fun heq => hran (heq ▸ hm)).trans hp, hshows⟩

/-- **One step**: the gauge stays truthful if and only if it can follow. -/
theorem truthful_step (h : Watch delay x) (ht : Truthful x) (hs : x.step delay a = some y) :
    Truthful y ↔ Followed x a := by
  obtain ⟨e, he, rfl⟩ := step_eq hs
  cases he with
  | refused hp => exact iff_of_true ht trivial
  | @apply p reported vp hr hp =>
    refine iff_of_true (ht.of_same rfl rfl fun m q hq => ?_) trivial
    rcases pos_createMigration x.engine.store vp m with hsame | ⟨hnone, -⟩
    · exact hsame.trans hq
    · rw [hnone] at hq
      cases hq
  | send hi hcap => exact iff_of_true ht trivial
  | resume hr hcap => exact iff_of_true ht trivial
  | pickup hw hj => exact iff_of_true (ht.of_same rfl rfl fun _ _ hq => hq) trivial
  | @goto w env t pt hw hc =>
    rw [observe_ret hw hc]
    exact iff_of_true (ht.of_same rfl rfl fun _ _ hq => hq) (followed_of_ret hw hc)
  | @stop w env t b hw hc =>
    rw [observe_ret hw hc]
    exact iff_of_true (ht.of_same rfl rfl fun _ _ hq => hq) (followed_of_ret hw hc)
  | @serve w env t op k hw hc =>
    rw [observe_serve hw hc]
    by_cases hop : ∃ i src dst checkpoint terminal, op = .saveState i src dst checkpoint terminal
    · obtain ⟨i, src, dst, checkpoint, terminal, rfl⟩ := hop
      refine (truthful_save h ht hw hc).trans ⟨fun hp t' i' src' dst' checkpoint' terminal' k' hw' hc' => ?_,
        fun hf => hf t i src dst checkpoint terminal k hw hc⟩
      cases hw.symm.trans hw'
      cases hc.symm.trans hc'
      exact hp
    · refine iff_of_true (truthful_serve h ht hw hc fun i src dst checkpoint terminal heq =>
        hop ⟨i, src, dst, checkpoint, terminal, heq⟩) ?_
      intro t' i src dst checkpoint terminal k' hw' hc'
      cases hw.symm.trans hw'
      cases hc.symm.trans hc'
      exact absurd ⟨i, src, dst, checkpoint, terminal, rfl⟩ hop
  | @abort id => exact truthful_abort ht
  | restart => exact iff_of_true (fun m hm => by cases hm) trivial

/-- **When the gauge is one-hot and truthful all along a run**: when it can follow every step. -/
theorem truthful_iff {as : List (Act n)} :
    Path (fun x a y => x.step delay a = some y ∧ Truthful y) (Watched.init n) as y ↔
      Path (fun x a y => x.step delay a = some y ∧ Followed x a) (Watched.init n) as y := by
  have hinit : Watch delay (Watched.init n) ∧ Truthful (Watched.init n) := ⟨watch_init, fun m hm => by cases hm⟩
  constructor
  · intro h
    induction h with
    | nil => exact Path.nil
    | snoc h ha ih =>
      obtain ⟨hwatch, ht⟩ := h.invariant (I := fun x => Watch delay x ∧ Truthful x) hinit
        fun u a v hu hs => ⟨hu.1.step hs.1, hs.2⟩
      exact ih.snoc ⟨ha.1, (truthful_step hwatch ht ha.1).mp ha.2⟩
  · intro h
    induction h with
    | nil => exact Path.nil
    | snoc h ha ih =>
      obtain ⟨hwatch, ht⟩ := h.invariant (I := fun x => Watch delay x ∧ Truthful x) hinit
        fun u a v hu hs => ⟨hu.1.step hs.1, (truthful_step hu.1 hu.2 hs.1).mpr hs.2⟩
      exact ih.snoc ⟨ha.1, (truthful_step hwatch ht ha.1).mpr ha.2⟩

end

/-! ### An abort -/

/-- A run of the first migration whose second load fails, an abort and another run. -/
def abortedThenRun (w : Fin n) : List (Act n) :=
  submit plainPlan w ++ drive w 3 ++ [.work w { ans := healthyAns, fails := true }] ++ drive w 1 ++
    [.abort 0] ++ submit plainPlan w ++ drive w 3

/-- **Two labels are 1**, with nothing under way. -/
theorem two_labels : ∃ x : Watched 1,
    Path (Guarded (Watched.step 0) fun _ _ => True) (Watched.init 1) (abortedThenRun 0) x ∧
      x.engine.workers 0 = none ∧ 0 ∈ x.ran ∧ x.stateInfo 0 "plain" .pending = 1 ∧
      x.stateInfo 0 "plain" .rolledBack = 1 ∧ ¬Truthful x := by
  have hrun : ((runs (Watched.step 0) (fun _ _ => true) (Watched.init 1) (abortedThenRun 0)).any fun x =>
      (x.engine.workers 0).isNone ∧ 0 ∈ x.ran ∧ x.stateInfo 0 "plain" .pending = 1 ∧
        x.stateInfo 0 "plain" .rolledBack = 1) = true := by
    decide +kernel
  obtain ⟨x, hx, hP⟩ := exists_path_of_any_free hrun
  obtain ⟨hnone, hran, hpending, hrolled⟩ := of_decide_eq_true hP
  refine ⟨x, hx, Option.isNone_iff_eq_none.mp hnone, hran, hpending, hrolled, fun ht => ?_⟩
  obtain ⟨p, -, hshows⟩ := ht 0 hran
  have h1 := ((hshows _ _).mp hpending).2
  have h2 := ((hshows _ _).mp hrolled).2
  rw [← h1] at h2
  cases h2

end MigrationSafety.Server.Gauge
