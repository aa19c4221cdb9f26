import MigrationSafety.Server.Steps
import MigrationSafety.Server.Tables

/-! # Deletions

The service is the engine over its tables, with the deletion of migrations: `DELETE /migrations` loads
the ids it is given one by one, refuses if one of them is not terminal, and then deletes them all.
Other steps may come between two loads and before the deletion.

The tables represent the store after every step, the terminal flag is that of the state, and no run
stops for want of a handler or a transition (`Inv.step`). So the resumable migrations are exactly those
that have work left, and any of them can be run (`resumable_exact`). -/

namespace MigrationSafety.Server.Deletions

open MigrationSafety.Lib.Effects MigrationSafety.Lib.Paths
open MigrationSafety.Plan.Validate MigrationSafety.Safety.Throttle
open MigrationSafety.StateMachine.Signature MigrationSafety.StateMachine.Handlers
open MigrationSafety.StateMachine.Run
open MigrationSafety.Server.Migrations MigrationSafety.Server.System MigrationSafety.Server.Steps

variable {n : ℕ} {delay : ℤ}

/-- A request to delete: the ids it has yet to look at, and those it is going to delete. -/
structure Deletion where
  ids : List Id
  uids : List Id := []

structure Service (n : ℕ) where
  engine : Engine n
  tables : Tables
  deletions : List Deletion

inductive Act (n : ℕ)
  | engine (a : System.Act n)
  /-- `DELETE /migrations`. -/
  | delete (ids : List Id)
  /-- The `i`-th deletion loads its next migration. -/
  | check (i : ℕ) (fails : Bool)
  /-- The `i`-th deletion, all of it checked, deletes; `landed` says that it has taken effect. -/
  | commit (i : ℕ) (landed : Bool)

/-- What becomes of a deletion once `id` has been loaded; `none` if it answers with an error. -/
def Deletion.check (s : Store) (fails : Bool) (id : Id) (ids uids : List Id) : Option Deletion :=
  if fails then none
  else
    match s.load id with
    | none => some ⟨ids, uids⟩
    | some rec => if rec.terminal then some ⟨ids, uids ++ [id]⟩ else none

namespace Service

def init (n : ℕ) : Service n := ⟨Engine.init n, Tables.empty, []⟩

/-- What an operation writes to the tables. -/
def written (t : Tables) (now : ℕ) : Op → Tables
  | .saveState id src dst checkpoint terminal =>
    (t.saveState now id src.text dst.text checkpoint terminal).getD t
  | .saveCheckpoint id state checkpoint =>
    (t.saveCheckpoint now id state.text checkpoint).getD t
  | _ => t

/-- The tables after a step of the engine. -/
def tablesAfter (s : Service n) : System.Act n → Tables
  | .apply p _ =>
    match Plan.Validate.check p with
    | .error _ => s.tables
    | .ok vp =>
      let now := s.engine.store.clock
      ((s.tables.createMigration now s.engine.store.nextId vp.plan State.pending.text).map
        Prod.snd).getD s.tables
  | .work w env =>
    match (s.engine.workers w).map Task.code with
    | some (.call op _) =>
      if env.fails && !env.landed then s.tables else written s.tables s.engine.store.clock op
    | _ => s.tables
  | .abort id => s.tables.updateState s.engine.store.clock id State.rolledBack.text true
  | _ => s.tables

/-- A restart drops the requests. -/
def deletionsAfter (s : Service n) : System.Act n → List Deletion
  | .restart => []
  | _ => s.deletions

/-- The deletion of these migrations, all of them or none. -/
def deleteMany (s : Service n) (ids : List Id) : Service n :=
  { s with
    engine := { s.engine with store := s.engine.store.deleteMany ids }
    tables := s.tables.deleteMany ids }

/-- **One step of the service.** -/
def step (delay : ℤ) (s : Service n) : Act n → Option (Service n)
  | .engine a => (s.engine.step delay a).map fun e => ⟨e, s.tablesAfter a, s.deletionsAfter a⟩
  | .delete ids =>
    if s.engine.resuming = [] then
      if ids = [] then some s else some { s with deletions := s.deletions ++ [{ ids := ids }] }
    else none
  | .check i fails =>
    match s.deletions[i]? with
    | some ⟨id :: ids, uids⟩ =>
      match Deletion.check s.engine.store fails id ids uids with
      | none => some { s with deletions := s.deletions.eraseIdx i }
      | some d => some { s with deletions := s.deletions.set i d }
    | _ => none
  | .commit i landed =>
    match s.deletions[i]? with
    | some ⟨[], uids⟩ =>
      let s' := { s with deletions := s.deletions.eraseIdx i }
      some (if landed then s'.deleteMany uids else s')
    | _ => none

end Service

/-! ### Runs find a handler and a transition -/

/-- The run does not stop for want of a handler or a transition. -/
def Exit.guided : Exit → Prop
  | .stop (.error (.noHandler _)) => False
  | .stop (.error (.noTransition _)) => False
  | _ => True

/-- Wherever the program ends, it is not for want of a handler or a transition. -/
def Guided (c : Code Exit) : Prop := c.All (fun _ => True) Exit.guided

theorem target_isSome {cur : State} (h : isTerminal cur = false) (res : Result) :
    ∃ dst, Result.target cur res = some dst := by
  unfold Result.target
  cases res.next with
  | none => exact next_isSome h
  | some dst => exact ⟨dst, rfl⟩

theorem handlers_isSome {cur : State} (h : isTerminal cur = false) :
    ∃ hd, handlers delay cur = some hd := by
  cases cur <;> first | exact ⟨_, rfl⟩ | cases h

theorem guided_finish {id : Id} {cur : State} (h : isTerminal cur = false) (out : Outcome) :
    Guided (finish delay id cur out) := by
  cases out with
  | error e => trivial
  | ok res =>
    obtain ⟨dst, hd⟩ := target_isSome h res
    simp only [finish, hd, save, Guided, Prog.perform_bind, all_call, true_and]
    intro ok
    cases ok with
    | false => trivial
    | true =>
      by_cases hdelay : 0 < delay
      · simp only [if_true, afterSave, if_pos hdelay, Prog.perform_bind, all_call, true_and]
        intro b
        cases b <;> trivial
      · simp only [if_true, afterSave, if_neg hdelay]
        trivial

/-- Any program before it. -/
theorem guided_bind {α : Type} {p : Code α} {f : α → Code Exit} (hf : ∀ a, Guided (f a)) :
    Guided (p >>= f) := by
  have hp : p.All (fun _ => True) fun _ => True := by
    induction p with
    | ret a => trivial
    | call op k ih => exact ⟨trivial, ih⟩
  exact hp.bind fun a _ => hf a

theorem guided_dispatch {id : Id} {cur : State} (h : isTerminal cur = false)
    (hd : Record → Code Outcome) (r : Record) : Guided (dispatch delay id cur hd r) := by
  unfold dispatch
  split_ifs
  · refine guided_bind fun x => ?_
    cases x with
    | error err => exact guided_finish h _
    | ok pr => trivial
  · exact guided_bind fun out => guided_finish h out

/-- **Every state has a handler or ends the run, and every result leads on.** -/
theorem guided_body (delay : ℤ) (id : Id) (pt : Pt) : Guided (body delay id pt) := by
  cases pt with
  | start => exact ⟨trivial, fun r => by cases r <;> trivial⟩
  | batch r pr =>
    refine guided_bind fun x => ?_
    cases x with
    | again pr' => trivial
    | stop out => exact guided_finish rfl out
  | loop cur =>
    cases ht : isTerminal cur with
    | true =>
      simp only [body, ht, if_true]
      trivial
    | false =>
      obtain ⟨hd, hc⟩ : ∃ hd, handlers delay cur = some hd := handlers_isSome ht
      simp only [body, ht, Bool.false_eq_true, if_false, StateMachine.Run.pass, hc]
      refine ⟨trivial, fun b => ?_⟩
      cases b with
      | true => trivial
      | false =>
        refine ⟨trivial, fun r => ?_⟩
        cases r with
        | none => trivial
        | some r => exact guided_dispatch ht hd r

/-! ### The invariant -/

theorem pos_deleteMany (s : Store) (ids : List Id) (i : Id) :
    pos (s.deleteMany ids) i = if i ∈ ids then none else pos s i := by
  unfold pos Store.deleteMany
  by_cases hi : i ∈ ids <;> simp [hi]

/-- The tables are those of the store, the terminal flag is that of the state, and no run is going to
stop for want of a handler or a transition. -/
structure Inv (delay : ℤ) (s : Service n) : Prop where
  represents : Represents s.tables s.engine.store
  tracked : Tracked delay s.engine
  flag : ∀ i p, pos s.engine.store i = some p → p.terminal = isTerminal p.state
  guided : ∀ w t, s.engine.workers w = some t → Guided t.code

theorem inv_init : Inv delay (Service.init n) :=
  ⟨represents_empty, tracked_init, by rintro i p ⟨⟩, by rintro w t ⟨⟩⟩

section Step
variable {e e' : Engine n} {a : System.Act n} {s s' : Service n}

/-- The flag of a row is written with its state. -/
theorem flag_step (ht : Tracked delay e)
    (h : ∀ i p, pos e.store i = some p → p.terminal = isTerminal p.state)
    (hs : Stepped delay e a e') :
    ∀ i p, pos e'.store i = some p → p.terminal = isTerminal p.state := by
  intro i p hp
  cases hs with
  | @apply q reported vp hr hq =>
    rcases pos_createMigration e.store vp i with hpos | ⟨-, hpos⟩
    · exact h i p (hpos ▸ hp)
    · cases hpos.symm.trans hp
      rfl
  | @serve w env t op k hw hc =>
    rcases pos_effect (e := e) env op i with hpos | ⟨src, dst, c, b, rfl, hpos⟩
    · exact h i p (hpos ▸ hp)
    · obtain ⟨tr, hstretch, -⟩ := ht w t hw
      obtain ⟨-, rfl, -⟩ := (hstretch.ask hc).save_inv
      obtain ⟨p0, -, rfl⟩ := Option.map_eq_some_iff.mp (hpos.symm.trans hp)
      rfl
  | @abort id =>
    have hpos := pos_updateState e.store id i .rolledBack true
    change pos (e.store.updateState id .rolledBack true) i = some p at hp
    rw [hpos] at hp
    split_ifs at hp with hi
    · obtain ⟨p0, -, rfl⟩ := Option.map_eq_some_iff.mp hp
      rfl
    · exact h i p hp
  | _ => exact h i p hp

/-- The work of a run keeps to what its program may do. -/
theorem guided_step (h : ∀ w t, e.workers w = some t → Guided t.code) (hs : Stepped delay e a e') :
    ∀ w t, e'.workers w = some t → Guided t.code := by
  have hset : ∀ (w : Fin n) (t : Option Task), (∀ t', t = some t' → Guided t'.code) →
      ∀ w' t', (e.setWorker w t).workers w' = some t' → Guided t'.code := by
    intro w t ht w' t' hw'
    rcases setWorker_cases hw' with ⟨-, hx⟩ | ⟨-, hw'⟩
    · exact ht t' hx
    · exact h w' t' hw'
  cases hs with
  | @pickup w id ids hw hj =>
    exact hset w _ fun t' ht' => by cases ht'; exact guided_body delay id .start
  | @goto w env t pt hw hc =>
    exact hset w _ fun t' ht' => by cases ht'; exact guided_body delay t.id pt
  | @stop w env t x hw hc => exact hset w _ fun t' ht' => by cases ht'
  | @serve w env t op k hw hc =>
    intro w' t' hw'
    rcases serve_cases hw' with ⟨rfl, rfl⟩ | ⟨-, hw'⟩
    · have hg := h w' t hw
      unfold Guided at hg
      rw [hc] at hg
      exact hg.2 _
    · exact h w' t' hw'
  | restart => rintro w t ⟨⟩
  | _ => exact h

/-- The store after an operation, with the tables written along with it. -/
theorem represents_effect {t : Tables} (h : Represents t e.store) (env : Env) (op : Op) :
    Represents (if env.fails && !env.landed then t else Service.written t e.store.clock op)
      (e.effect env op).store := by
  by_cases hw : (env.fails && !env.landed) = true
  · rw [if_pos hw]
    cases op <;> simpa only [Engine.effect, Engine.write, hw, if_true] using h
  · rw [if_neg hw]
    cases op with
    | saveState id src dst c terminal =>
      simpa only [Engine.effect, Engine.write, if_neg hw, Service.written] using
        (h.saveState src dst c terminal).2
    | saveCheckpoint id st c =>
      simpa only [Engine.effect, Engine.write, if_neg hw, Service.written] using
        (h.saveCheckpoint st c).2
    | _ => exact h

/-- The tables follow the store. -/
theorem represents_step (h : Represents s.tables s.engine.store)
    (hs : Stepped delay s.engine a e') : Represents (s.tablesAfter a) e'.store := by
  cases hs with
  | @refused p reported err hp =>
    simp only [Service.tablesAfter, hp]
    exact h
  | @apply p reported vp hr hp =>
    obtain ⟨t', ht', hrep⟩ := h.createMigration vp
    simp only [Service.tablesAfter, hp, ht', Option.map_some, Option.getD_some]
    exact hrep
  | @goto w env t pt hw hc =>
    simp only [Service.tablesAfter, hw, hc, Option.map_some]
    exact h
  | @stop w env t x hw hc =>
    simp only [Service.tablesAfter, hw, hc, Option.map_some]
    exact h
  | @serve w env t op k hw hc =>
    simp only [Service.tablesAfter, hw, hc, Option.map_some]
    exact represents_effect h env op
  | @abort id => exact h.updateState .rolledBack true
  | _ => exact h

/-- A deletion takes whole migrations. -/
theorem Inv.deleteMany (h : Inv delay s) (ids : List Id) : Inv delay (s.deleteMany ids) where
  represents := h.represents.deleteMany ids
  tracked := h.tracked
  flag := by
    intro i p hp
    change pos (s.engine.store.deleteMany ids) i = some p at hp
    rw [pos_deleteMany] at hp
    split_ifs at hp
    exact h.flag i p hp
  guided := h.guided

/-- Only the list of deletions has changed. -/
theorem Inv.with_deletions (h : Inv delay s) (ds : List Deletion) :
    Inv delay { s with deletions := ds } :=
  ⟨h.represents, h.tracked, h.flag, h.guided⟩

/-- **Every step of the service keeps the invariant.** -/
theorem Inv.step (h : Inv delay s) {a : Act n} (hs : s.step delay a = some s') : Inv delay s' := by
  cases a with
  | engine a =>
    obtain ⟨e', he, rfl⟩ := Option.map_eq_some_iff.mp hs
    have hst := step_inv he
    exact ⟨represents_step h.represents hst, h.tracked.step hst,
      flag_step h.tracked h.flag hst, guided_step h.guided hst⟩
  | delete ids =>
    simp only [Service.step] at hs
    split_ifs at hs <;> cases hs
    · exact h
    · exact h.with_deletions _
  | check i fails =>
    simp only [Service.step] at hs
    split at hs
    next id ids uids hi =>
      split at hs <;> cases hs <;> exact h.with_deletions _
    · cases hs
  | commit i landed =>
    simp only [Service.step] at hs
    split at hs
    next uids hi =>
      cases hs
      split_ifs
      · exact (h.with_deletions _).deleteMany uids
      · exact h.with_deletions _
    · cases hs

end Step

/-! ### The resumable migrations -/

/-- What the tables and the runs promise to a restart. -/
structure Exact (s : Service n) : Prop where
  /-- Each migration has one state. -/
  one_state : ∀ m ∈ s.tables.migration,
    (s.tables.migrationState.map StateRow.migrationId).count m.id = 1
  declared : ∀ st ∈ s.tables.migrationState, ∃ x : State, st.state = x.text
  terminal : ∀ st ∈ s.tables.migrationState,
    (st.terminal = true ↔ st.state = "Done" ∨ st.state = "RolledBack")
  /-- `FindResumable` returns no migration twice, … -/
  nodup : s.tables.findResumable.Nodup
  /-- … those that have work left, and nothing else. -/
  resumable : ∀ i, i ∈ s.tables.findResumable ↔ ∃ m ∈ s.tables.migration, m.id = i ∧
    ∃ st ∈ s.tables.migrationState, st.migrationId = i ∧ ¬(st.state = "Done" ∨ st.state = "RolledBack")
  /-- No run fails with `no handler` or `no transition`. -/
  runs : ∀ w t err, s.engine.workers w = some t → t.code = .ret (.stop (.error err)) →
    (∀ x, err ≠ .noHandler x) ∧ ∀ x, err ≠ .noTransition x

theorem isTerminal_iff_text (x : State) :
    isTerminal x = true ↔ x.text = "Done" ∨ x.text = "RolledBack" := by
  cases x <;> decide

section Exact
variable {s : Service n}

/-- The state row of a migration, read off its position. -/
theorem Inv.stateRow_terminal (h : Inv delay s) {st : StateRow} (hst : st ∈ s.tables.migrationState) :
    st.terminal = true ↔ st.state = "Done" ∨ st.state = "RolledBack" := by
  obtain ⟨i, r, hr, rfl⟩ := h.represents.mem_state.mp hst
  have hflag := h.flag i (Row.pos r) (by simp [pos, hr])
  have hterm : (Store.stateRow i r).terminal = isTerminal r.state := hflag
  rw [hterm]
  exact isTerminal_iff_text r.state

theorem Inv.exact (h : Inv delay s) : Exact s where
  one_state _ hm := h.represents.one_state hm
  declared := by
    intro st hst
    obtain ⟨i, r, -, rfl⟩ := h.represents.mem_state.mp hst
    exact ⟨r.state, rfl⟩
  terminal _ hst := h.stateRow_terminal hst
  nodup := h.represents.nodup_findResumable
  resumable := by
    intro i
    rw [h.represents.mem_findResumable]
    constructor
    · rintro ⟨st, hst, rfl, hterm⟩
      obtain ⟨j, r, hr, rfl⟩ := h.represents.mem_state.mp hst
      refine ⟨Store.migrationRow j r, h.represents.mem_migration.mpr ⟨j, r, hr, rfl⟩, rfl, _, hst,
        rfl, fun hend => ?_⟩
      rw [(h.stateRow_terminal hst).mpr hend] at hterm
      cases hterm
    · rintro ⟨m, -, -, st, hst, hid, hend⟩
      refine ⟨st, hst, hid, ?_⟩
      rw [← Bool.not_eq_true]
      exact fun hterm => hend ((h.stateRow_terminal hst).mp hterm)
  runs := by
    intro w t err hw hc
    have hg := h.guided w t hw
    unfold Guided at hg
    rw [hc] at hg
    constructor <;> rintro x rfl <;> exact hg

/-- **The resumable set is exact, and every resumable migration can run**, whatever is applied, run,
aborted, deleted and restarted. -/
theorem resumable_exact {as : List (Act n)}
    (h : Path (Guarded (Service.step delay) fun _ _ => True) (Service.init n) as s) : Exact s := by
  have hinv : Inv delay s := by
    refine h.invariant inv_init ?_
    rintro s a s' hi ⟨hs, -⟩
    exact hi.step hs
  exact hinv.exact

end Exact

/-- Two migrations, the first of which is aborted and deleted. -/
theorem resumable_exact_deleted : ∃ s : Service 1,
    (s.tables.migration.map MigrationRow.id = [1] ∧ s.tables.findResumable = [1]) ∧ Exact s := by
  have hrun : ((runs (Service.step 0) (fun _ _ => true) (Service.init 1)
      [.engine (.apply plainPlan true), .engine (.apply { plainPlan with version := 2 } true),
       .engine (.abort 0), .delete [0], .check 0 false, .commit 0 true]).any fun s =>
        s.tables.migration.map MigrationRow.id = [1] ∧ s.tables.findResumable = [1]) = true := by
    decide +kernel
  obtain ⟨s, hs, hP⟩ := exists_path_of_any_free hrun
  exact ⟨s, of_decide_eq_true hP, resumable_exact hs⟩

end MigrationSafety.Server.Deletions
