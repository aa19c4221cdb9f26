import Mathlib.Algebra.Order.BigOperators.Group.Finset
import MigrationSafety.Server.Deletions

/-! # Concurrent submissions

`n` calls of `CreateMigration` for one plan, each a transaction of its own under `READ COMMITTED`: a
statement sees what has been committed and what its own transaction has written. The insertion of a
key that another transaction has inserted and not yet committed waits for that transaction; where the
key has been committed, it violates the constraint and the call fails.

A call that finds nothing inserts a migration, so two calls that find nothing cannot both succeed with
the same id: the calls are idempotent if and only if none of them finds nothing while another one that
has found nothing is still at work (`submit_idempotent`). -/

namespace MigrationSafety.Server.Submit

open MigrationSafety.Lib.Paths MigrationSafety.Plan.Validate
open MigrationSafety.StateMachine.Signature
open MigrationSafety.Server.Migrations MigrationSafety.Server.System MigrationSafety.Server.Steps
open MigrationSafety.Server.Deletions

variable {n : ℕ}

/-- Why a call has failed. -/
inductive SubmitError
  | insertMigration
  | insertState
  | insertEvent
deriving DecidableEq

/-- Where a call is. -/
inductive Call
  | start
  /-- The migration is there. -/
  | found (id : Id)
  /-- It is not; the call has drawn an id for it. -/
  | missing (id : Id)
  /-- The row of `migration`, that of `migration_state` and the event have been inserted. -/
  | inserted (id : Id)
  | stated (id : Id)
  | logged (id : Id)
  | returned (id : Id)
  | failed (err : SubmitError)
deriving DecidableEq

/-- The id of a call that has found nothing and is still at work. -/
def Call.opened : Call → Option Id
  | missing id | inserted id | stated id | logged id => some id
  | _ => none

/-- The call is over. -/
def Call.over : Call → Bool
  | returned _ | failed _ => true
  | _ => false

/-- The calls: the plan they submit and the state it starts in, and when each of them began. -/
structure Request (n : ℕ) where
  plan : MigrationPlan
  initialState : String
  now : Fin n → ℕ

/-- What has been committed, and the calls. `uuids` is the next id to be drawn. -/
structure Submission (n : ℕ) where
  tables : Tables
  calls : Fin n → Call
  uuids : ℕ

/-- One table after the other. -/
def Tables.append (t d : Tables) : Tables :=
  ⟨t.migration ++ d.migration, t.migrationState ++ d.migrationState,
    t.migrationEvent ++ d.migrationEvent⟩

namespace Request
variable (q : Request n) (i : Fin n) (id : Id)

def migrationRow : MigrationRow := ⟨id, q.plan.id, q.plan.version, q.plan⟩

def stateRow : StateRow := { migrationId := id, state := q.initialState, updatedAt := q.now i }

def eventRow : EventRow := ⟨id, none, q.initialState⟩

/-- The rows a call has written and not committed. -/
def writes : Call → Tables
  | .inserted id => ⟨[q.migrationRow id], [], []⟩
  | .stated id => ⟨[q.migrationRow id], [q.stateRow i id], []⟩
  | .logged id => ⟨[q.migrationRow id], [q.stateRow i id], [q.eventRow id]⟩
  | _ => Tables.empty

end Request

namespace Submission

/-- What the next statement of a call sees. -/
def view (q : Request n) (e : Submission n) (i : Fin n) : Tables :=
  Tables.append e.tables (q.writes i (e.calls i))

/-- Another transaction has inserted the key. -/
def blocked (q : Request n) (e : Submission n) (i : Fin n) (id : Id) : Prop :=
  ∃ j, j ≠ i ∧ ((q.writes j (e.calls j)).insertMigration id q.plan).isNone = true

instance (q : Request n) (e : Submission n) (i : Fin n) (id : Id) : Decidable (e.blocked q i id) :=
  inferInstanceAs (Decidable (∃ _, _))

def setCall (e : Submission n) (i : Fin n) (c : Call) : Submission n :=
  { e with calls := Function.update e.calls i c }

/-- What a transaction commits. -/
def commit (q : Request n) (e : Submission n) (i : Fin n) (id : Id) : Submission n :=
  { e.setCall i (.returned id) with tables := e.view q i }

/-- **The next statement of a call**; none if it is over, or waits for another transaction. -/
def step (q : Request n) (e : Submission n) (i : Fin n) : Option (Submission n) :=
  match e.calls i with
  | .start =>
    match e.tables.selectId q.plan with
    | some id => some (e.setCall i (.found id))
    | none => some { e.setCall i (.missing e.uuids) with uuids := e.uuids + 1 }
  | .found id => some (e.setCall i (.returned id))
  | .missing id =>
    match (e.view q i).insertMigration id q.plan with
    | none => some (e.setCall i (.failed .insertMigration))
    | some _ => if e.blocked q i id then none else some (e.setCall i (.inserted id))
  | .inserted id =>
    match (e.view q i).insertState (q.now i) id q.initialState with
    | none => some (e.setCall i (.failed .insertState))
    | some _ => some (e.setCall i (.stated id))
  | .stated id =>
    match (e.view q i).insertEvent id none q.initialState with
    | none => some (e.setCall i (.failed .insertEvent))
    | some _ => some (e.setCall i (.logged id))
  | .logged id => some (e.commit q i id)
  | .returned _ | .failed _ => none

/-- The calls begin on the tables of a service. -/
def of {m : ℕ} (s : Service m) : Submission n := ⟨s.tables, fun _ => .start, s.engine.store.nextId⟩

end Submission

/-- The runs of the calls all of whose steps meet `ok`. -/
abbrev Runs (q : Request n) (ok : Submission n → Fin n → Prop) (e : Submission n) (as : List (Fin n))
    (e' : Submission n) : Prop :=
  Path (Guarded (Submission.step q) ok) e as e'

/-- Every call is over. -/
def Complete (e : Submission n) : Prop := ∀ i, (e.calls i).over = true

/-- There is one migration for the plan, with one state and one event of its creation. -/
structure One (p : MigrationPlan) (t : Tables) (id : Id) : Prop where
  migration : (t.migration.filter fun m => m.planId = p.id ∧ m.version = p.version).map
    MigrationRow.id = [id]
  state : (t.migrationState.map StateRow.migrationId).count id = 1
  event : (t.migrationEvent.filter fun ev => ev.migrationId = id ∧ ev.fromState = none).length = 1

/-- **The calls have been idempotent**: all of them have succeeded with the one migration. -/
structure Idempotent (q : Request n) (e : Submission n) : Prop where
  succeeds : ∀ i, ∃ id, e.calls i = .returned id
  same : ∀ i j id id', e.calls i = .returned id → e.calls j = .returned id' → id = id'
  one : ∀ i id, e.calls i = .returned id → One q.plan e.tables id

/-- A call that finds nothing is the only one at work that has. -/
def Alone (q : Request n) (e : Submission n) (i : Fin n) : Prop :=
  e.calls i = .start → e.tables.selectId q.plan = none → ∀ j, (e.calls j).opened = none

instance (q : Request n) (e : Submission n) (i : Fin n) : Decidable (Alone q e i) :=
  inferInstanceAs (Decidable (_ → _ → _))

variable {q : Request n} {e e' : Submission n} {i j : Fin n} {id x : Id} {as : List (Fin n)}

/-! ### Steps -/

/-- The statements of the calls, by what made them possible. -/
inductive Stepped (q : Request n) (e : Submission n) (i : Fin n) : Submission n → Prop
  | found {id : Id} (hc : e.calls i = .start) (hs : e.tables.selectId q.plan = some id) :
      Stepped q e i (e.setCall i (.found id))
  | missing (hc : e.calls i = .start) (hs : e.tables.selectId q.plan = none) :
      Stepped q e i { e.setCall i (.missing e.uuids) with uuids := e.uuids + 1 }
  | existing {id : Id} (hc : e.calls i = .found id) : Stepped q e i (e.setCall i (.returned id))
  | inserted {id : Id} (hc : e.calls i = .missing id) : Stepped q e i (e.setCall i (.inserted id))
  | stated {id : Id} (hc : e.calls i = .inserted id) : Stepped q e i (e.setCall i (.stated id))
  | logged {id : Id} (hc : e.calls i = .stated id) : Stepped q e i (e.setCall i (.logged id))
  | commit {id : Id} (hc : e.calls i = .logged id) : Stepped q e i (e.commit q i id)
  | noMigration {id : Id} (hc : e.calls i = .missing id)
      (hf : (e.view q i).insertMigration id q.plan = none) :
      Stepped q e i (e.setCall i (.failed .insertMigration))
  | noState {id : Id} (hc : e.calls i = .inserted id)
      (hf : (e.view q i).insertState (q.now i) id q.initialState = none) :
      Stepped q e i (e.setCall i (.failed .insertState))
  | noEvent {id : Id} (hc : e.calls i = .stated id)
      (hf : (e.view q i).insertEvent id none q.initialState = none) :
      Stepped q e i (e.setCall i (.failed .insertEvent))

theorem step_inv (h : e.step q i = some e') : Stepped q e i e' := by
  unfold Submission.step at h
  split at h
  next hc =>
    split at h <;> cases h
    next id hs => exact .found hc hs
    next hs => exact .missing hc hs
  next id hc =>
    cases h
    exact .existing hc
  next id hc =>
    split at h
    next hf =>
      cases h
      exact .noMigration hc hf
    next t ht =>
      split_ifs at h
      cases h
      exact .inserted hc
  next id hc =>
    split at h <;> cases h
    next hf => exact .noState hc hf
    next t ht => exact .stated hc
  next id hc =>
    split at h <;> cases h
    next hf => exact .noEvent hc hf
    next t ht => exact .logged hc
  next id hc =>
    cases h
    exact .commit hc
  next => cases h
  next => cases h

@[simp] theorem setCall_self (c : Call) : (e.setCall i c).calls i = c := Function.update_self ..

theorem setCall_of_ne (c : Call) (h : j ≠ i) : (e.setCall i c).calls j = e.calls j :=
  Function.update_of_ne h ..

/-- The other calls stay where they are. -/
theorem Stepped.calls_of_ne (h : Stepped q e i e') (hj : j ≠ i) : e'.calls j = e.calls j := by
  cases h <;> exact setCall_of_ne _ hj

/-! ### Every call comes to its end -/

/-- How far a call is. -/
def Call.done : Call → ℕ
  | start => 0
  | missing _ => 1
  | inserted _ => 2
  | stated _ => 3
  | found _ | logged _ => 4
  | returned _ | failed _ => 5

theorem Call.done_le (c : Call) : c.done ≤ 5 := by cases c <;> simp [Call.done]

theorem Stepped.done_lt (h : Stepped q e i e') : (e.calls i).done < (e'.calls i).done := by
  cases h <;> simp [Submission.commit, Call.done, *]

/-- **No run is longer than five statements for each call.** -/
theorem length_le {ok : Submission n → Fin n → Prop} {e₀ : Submission n}
    (h : Runs q ok e₀ as e) : as.length ≤ 5 * n := by
  have hsum : as.length ≤ ∑ i, (e.calls i).done := by
    induction h with
    | nil => exact Nat.zero_le _
    | @snoc t u as i h ha ih =>
      have hs := step_inv ha.1
      have hlt : ∑ j, (t.calls j).done < ∑ j, (u.calls j).done := by
        refine Finset.sum_lt_sum (fun j _ => ?_) ⟨i, Finset.mem_univ i, hs.done_lt⟩
        by_cases hj : j = i
        · exact hj ▸ hs.done_lt.le
        · rw [hs.calls_of_ne hj]
      rw [List.length_append, List.length_singleton]
      omega
  calc as.length ≤ ∑ i, (e.calls i).done := hsum
    _ ≤ ∑ _i : Fin n, 5 := Finset.sum_le_sum fun i _ => (e.calls i).done_le
    _ = 5 * n := by simp [mul_comm]

/-- A call that waits for none has a next statement. -/
theorem step_isSome (h : (e.calls i).over = false)
    (hw : ∀ id, e.calls i = .missing id → ¬e.blocked q i id) : (e.step q i).isSome := by
  unfold Submission.step
  cases hc : e.calls i with
  | start => cases hs : e.tables.selectId q.plan <;> simp
  | missing id =>
    cases hs : (e.view q i).insertMigration id q.plan <;> simp [hs, hw id hc]
  | inserted id => cases hs : (e.view q i).insertState (q.now i) id q.initialState <;> simp [hs]
  | stated id => cases hs : (e.view q i).insertEvent id none q.initialState <;> simp [hs]
  | found id => rfl
  | logged id => rfl
  | returned id => rw [hc] at h; cases h
  | failed err => rw [hc] at h; cases h

/-- **As long as a call is not over, some call can go on**: one that is waited for does not wait. -/
theorem progress (h : ¬Complete e) : ∃ i, (e.step q i).isSome := by
  obtain ⟨i, hi⟩ : ∃ i, (e.calls i).over = false := by
    simpa [Complete] using h
  by_cases hw : ∀ id, e.calls i = .missing id → ¬e.blocked q i id
  · exact ⟨i, step_isSome hi hw⟩
  · push Not at hw
    obtain ⟨id, -, j, -, hj⟩ := hw
    refine ⟨j, step_isSome ?_ fun id' hc => ?_⟩
    · cases hc : e.calls j <;> first | rfl | (rw [hc] at hj; cases hj)
    · rw [hc] at hj
      cases hj

/-! ### Two calls that have found nothing -/

/-- A call that has drawn the id `x`: it is at work with it, has returned it, or has failed. -/
def Holds (x : Id) (c : Call) : Prop := c.opened = some x ∨ c = .returned x ∨ ∃ err, c = .failed err

theorem Stepped.holds (h : Stepped q e i e') (hx : Holds x (e.calls j)) : Holds x (e'.calls j) := by
  by_cases hj : j = i
  · subst hj
    cases h <;> simp_all [Holds, Call.opened, Submission.commit]
  · rwa [h.calls_of_ne hj]

/-- Ids are drawn in order. -/
def Drawn (e : Submission n) : Prop := ∀ j x, (e.calls j).opened = some x → x < e.uuids

theorem Stepped.drawn (h : Stepped q e i e') (hd : Drawn e) : Drawn e' := by
  intro j x hx
  have huuids : e.uuids ≤ e'.uuids := by
    cases h <;> first | exact le_rfl | exact Nat.le_succ _
  by_cases hj : j = i
  · subst hj
    have hi := hd j x
    cases h <;> simp_all [Call.opened, Submission.commit, Submission.setCall]
  · rw [h.calls_of_ne hj] at hx
    exact (hd j x hx).trans_le huuids

/-- Two calls have drawn different ids. -/
def Clash (e : Submission n) : Prop :=
  ∃ i j x y, x ≠ y ∧ Holds x (e.calls i) ∧ Holds y (e.calls j)

theorem Stepped.clash (h : Stepped q e i e') (hc : Clash e) : Clash e' := by
  obtain ⟨j, k, x, y, hne, hx, hy⟩ := hc
  exact ⟨j, k, x, y, hne, h.holds hx, h.holds hy⟩

/-- A call that finds nothing while another one is at work clashes with it. -/
theorem clash_of_not_alone (hd : Drawn e) (hs : Stepped q e i e') (hn : ¬Alone q e i) :
    Clash e' := by
  unfold Alone at hn
  push Not at hn
  obtain ⟨hc, hnone, j, hj⟩ := hn
  obtain ⟨y, hy⟩ := Option.ne_none_iff_exists'.mp hj
  have hij : j ≠ i := by
    rintro rfl
    rw [hc] at hy
    cases hy
  refine ⟨i, j, e.uuids, y, (hd j y hy).ne', ?_, hs.holds (Or.inl hy)⟩
  cases hs with
  | missing hc' hs' => exact Or.inl (by simp [Submission.setCall, Call.opened])
  | found hc' hs' =>
    rw [hnone] at hs'
    cases hs'
  | _ => simp_all

theorem Clash.not_idempotent (h : Clash e) : ¬Idempotent q e := by
  obtain ⟨i, j, x, y, hne, hx, hy⟩ := h
  intro hid
  have hret : ∀ k z, Holds z (e.calls k) → e.calls k = .returned z := by
    intro k z hz
    obtain ⟨id, hk⟩ := hid.succeeds k
    rcases hz with hz | hz | ⟨err, hz⟩
    · rw [hk] at hz
      cases hz
    · exact hz
    · cases hk.symm.trans hz
  exact hne (hid.same i j x y (hret i x hx) (hret j y hy))

/-! ### One at a time -/

/-- No row has this id. -/
structure Unused (t : Tables) (id : Id) : Prop where
  migration : ∀ m ∈ t.migration, m.id ≠ id
  state : ∀ st ∈ t.migrationState, st.migrationId ≠ id
  event : ∀ ev ∈ t.migrationEvent, ev.migrationId ≠ id

section Rows
variable {t : Tables}

theorem append_empty (t : Tables) : Tables.append t Tables.empty = t := by
  simp [Tables.append, Tables.empty]

theorem selectId_eq_none {p : MigrationPlan} : t.selectId p = none ↔
    ∀ m ∈ t.migration, ¬(m.planId = p.id ∧ m.version = p.version) := by
  simp [Tables.selectId]

/-- An unused id, and a key that is not there, can be inserted. -/
theorem insertMigration_isSome {p : MigrationPlan} (hs : t.selectId p = none) (hu : Unused t x) :
    t.insertMigration x p ≠ none := by
  have hfree : (t.migration.any fun m => m.id = x ∨ (m.planId = p.id ∧ m.version = p.version)) =
      false := by
    rw [List.any_eq_false]
    intro m hm
    have hkey := selectId_eq_none.mp hs m hm
    simpa [hu.migration m hm] using hkey
  rw [Tables.insertMigration, hfree]
  exact Option.some_ne_none _

/-- The row of the call's own migration is there to be referred to. -/
theorem references_append (d : Tables) (m : MigrationRow) (hm : m ∈ d.migration) :
    (Tables.append t d).references m.id = true := by
  simp only [Tables.references, Tables.append, List.any_append, Bool.or_eq_true, List.any_eq_true]
  exact Or.inr ⟨m, hm, decide_eq_true rfl⟩

theorem insertState_isSome (now : ℕ) (state : String) (m : MigrationRow) (hu : Unused t m.id) :
    (Tables.append t ⟨[m], [], []⟩).insertState now m.id state ≠ none := by
  have href := references_append (t := t) ⟨[m], [], []⟩ m (List.mem_singleton_self m)
  have hfree : (t.migrationState.any fun st => st.migrationId = m.id) = false := by
    rw [List.any_eq_false]
    intro st hst
    simpa using hu.state st hst
  have hview : ((Tables.append t ⟨[m], [], []⟩).migrationState.any fun st =>
      st.migrationId = m.id) = false := by
    rw [← hfree, Tables.append, List.append_nil]
  rw [Tables.insertState, href, hview]
  exact Option.some_ne_none _

theorem insertEvent_isSome (src : Option String) (dst : String) (m : MigrationRow)
    (sts : List StateRow) : (Tables.append t ⟨[m], sts, []⟩).insertEvent m.id src dst ≠ none := by
  rw [Tables.insertEvent, references_append _ m (List.mem_singleton_self m)]
  exact Option.some_ne_none _

/-- After the commit, there is one migration for the plan. -/
theorem one_append (q : Request n) (i : Fin n) (hs : t.selectId q.plan = none) (hu : Unused t x) :
    (Tables.append t (q.writes i (.logged x))).selectId q.plan = some x ∧
      One q.plan (Tables.append t (q.writes i (.logged x))) x := by
  have hkey := selectId_eq_none.mp hs
  have hnone : (t.migration.filter fun m => m.planId = q.plan.id ∧ m.version = q.plan.version) =
      [] := by
    rw [List.filter_eq_nil_iff]
    intro m hm
    simpa using hkey m hm
  have hfind : (t.migration.find? fun m => m.planId = q.plan.id ∧ m.version = q.plan.version) =
      none := by
    rw [List.find?_eq_none]
    intro m hm
    simpa using hkey m hm
  have hstate : (t.migrationState.map StateRow.migrationId).count x = 0 := by
    rw [List.count_eq_zero, List.mem_map]
    rintro ⟨st, hst, rfl⟩
    exact hu.state st hst rfl
  have hevent : (t.migrationEvent.filter fun ev => ev.migrationId = x ∧ ev.fromState = none) =
      [] := by
    rw [List.filter_eq_nil_iff]
    intro ev hev
    simpa using fun h => absurd h (hu.event ev hev)
  refine ⟨?_, ?_, ?_, ?_⟩
  · rw [Tables.selectId, Tables.append, List.find?_append, hfind]
    simp [Request.writes, Request.migrationRow]
  · rw [Tables.append, List.filter_append, hnone]
    simp [Request.writes, Request.migrationRow]
  · rw [Tables.append, List.map_append, List.count_append, hstate]
    simp [Request.writes, Request.stateRow]
  · rw [Tables.append, List.filter_append, hevent]
    simp [Request.writes, Request.eventRow]

end Rows

/-- **What holds while the calls come one at a time.** -/
structure Inv (q : Request n) (e : Submission n) : Prop where
  unused : ∀ id, e.uuids ≤ id → Unused e.tables id
  one : ∀ id, e.tables.selectId q.plan = some id → One q.plan e.tables id
  /-- One call at most has found nothing and is at work, … -/
  alone : ∀ i j x y, (e.calls i).opened = some x → (e.calls j).opened = some y → i = j
  /-- … with an id of its own, and the plan is not there yet. -/
  absent : ∀ i x, (e.calls i).opened = some x →
    e.tables.selectId q.plan = none ∧ Unused e.tables x ∧ x < e.uuids
  settled : ∀ i id, e.calls i = .found id ∨ e.calls i = .returned id →
    e.tables.selectId q.plan = some id
  succeeds : ∀ i err, e.calls i ≠ .failed err

section Inv
variable (h : Inv q e)
include h

/-- A call goes on to a point from which nothing has been found out or settled. -/
theorem Inv.move {c : Call} (hopen : ∀ y, c.opened = some y → (e.calls i).opened = some y)
    (hset : ∀ id, c = .found id ∨ c = .returned id → e.tables.selectId q.plan = some id)
    (hfail : ∀ err, c ≠ .failed err) : Inv q (e.setCall i c) := by
  have hop : ∀ j y, ((e.setCall i c).calls j).opened = some y → (e.calls j).opened = some y := by
    intro j y hy
    by_cases hj : j = i
    · subst hj
      rw [setCall_self] at hy
      exact hopen y hy
    · rwa [setCall_of_ne _ hj] at hy
  refine ⟨h.unused, h.one, fun j k x y hx hy => h.alone j k x y (hop j x hx) (hop k y hy),
    fun j x hx => h.absent j x (hop j x hx), fun j id hj' => ?_, fun j err hj' => ?_⟩
  · by_cases hj : j = i
    · subst hj
      rw [setCall_self] at hj'
      exact hset id hj'
    · rw [setCall_of_ne _ hj] at hj'
      exact h.settled j id hj'
  · by_cases hj : j = i
    · subst hj
      rw [setCall_self] at hj'
      exact hfail err hj'
    · rw [setCall_of_ne _ hj] at hj'
      exact h.succeeds j err hj'

/-- A call that is at work goes on. -/
theorem Inv.advance {c : Call} (hx : (e.calls i).opened = some x) (hc : c.opened = some x) :
    Inv q (e.setCall i c) := by
  refine h.move (fun y hy => ?_) (fun id hid => ?_) fun err herr => ?_
  · rw [hx, ← hc, hy]
  · rcases hid with rfl | rfl <;> cases hc
  · subst herr
    cases hc

/-- A call finds nothing, alone. -/
theorem Inv.draw (hok : Alone q e i) (hc : e.calls i = .start)
    (hs : e.tables.selectId q.plan = none) :
    Inv q { e.setCall i (.missing e.uuids) with uuids := e.uuids + 1 } := by
  have hnone := hok hc hs
  have hcalls : ∀ j y, ((e.setCall i (.missing e.uuids)).calls j).opened = some y →
      j = i ∧ y = e.uuids := by
    intro j y hy
    by_cases hj : j = i
    · subst hj
      rw [setCall_self] at hy
      cases hy
      exact ⟨rfl, rfl⟩
    · rw [setCall_of_ne _ hj, hnone j] at hy
      cases hy
  refine ⟨fun id hid => h.unused id (Nat.le_of_succ_le hid), h.one,
    fun j k x y hx hy => (hcalls j x hx).1.trans (hcalls k y hy).1.symm, fun j x hx => ?_,
    fun j id hj' => ?_, fun j err hj' => ?_⟩
  · obtain ⟨-, rfl⟩ := hcalls j x hx
    exact ⟨hs, h.unused _ le_rfl, Nat.lt_succ_self _⟩
  · by_cases hj : j = i
    · subst hj
      rw [show ({ e.setCall j (.missing e.uuids) with uuids := e.uuids + 1 } :
        Submission n).calls j = .missing e.uuids from setCall_self _] at hj'
      rcases hj' with hj' | hj' <;> cases hj'
    · exact h.settled j id ((setCall_of_ne (e := e) _ hj) ▸ hj')
  · by_cases hj : j = i
    · subst hj
      cases (setCall_self (e := e) _).symm.trans hj'
    · exact h.succeeds j err ((setCall_of_ne (e := e) _ hj).symm.trans hj')

/-- A call commits its migration. -/
theorem Inv.commit (hc : e.calls i = .logged x) : Inv q (e.commit q i x) := by
  have hx : (e.calls i).opened = some x := by rw [hc]; rfl
  obtain ⟨hs, hu, hlt⟩ := h.absent i x hx
  have hview : (e.commit q i x).tables = Tables.append e.tables (q.writes i (.logged x)) := by
    rw [← hc]
    rfl
  obtain ⟨hsel, hone⟩ := one_append q i hs hu
  have hcalls : ∀ j, j ≠ i → (e.commit q i x).calls j = e.calls j := fun j hj => setCall_of_ne _ hj
  have hself : (e.commit q i x).calls i = .returned x := setCall_self (e := e) _
  have hopen : ∀ j y, ((e.commit q i x).calls j).opened ≠ some y := by
    intro j y hy
    by_cases hj : j = i
    · subst hj
      rw [hself] at hy
      cases hy
    · rw [hcalls j hj] at hy
      exact hj (h.alone j i y x hy hx)
  refine ⟨fun id hid => ?_, fun id hid => ?_, fun j k y z hy => absurd hy (hopen j y),
    fun j y hy => absurd hy (hopen j y), fun j id hj' => ?_, fun j err hj' => ?_⟩
  · have hne : x ≠ id := (hlt.trans_le hid).ne
    have hold := h.unused id hid
    rw [hview]
    refine ⟨fun m hm => ?_, fun st hst => ?_, fun ev hev => ?_⟩
    · rcases List.mem_append.mp hm with hm | hm
      · exact hold.migration m hm
      · rw [List.mem_singleton.mp hm]
        exact hne
    · rcases List.mem_append.mp hst with hst | hst
      · exact hold.state st hst
      · rw [List.mem_singleton.mp hst]
        exact hne
    · rcases List.mem_append.mp hev with hev | hev
      · exact hold.event ev hev
      · rw [List.mem_singleton.mp hev]
        exact hne
  · rw [hview, hsel] at hid
    cases hid
    rw [hview]
    exact hone
  · rw [hview, hsel]
    by_cases hj : j = i
    · subst hj
      rw [hself] at hj'
      rcases hj' with hj' | hj' <;> cases hj'
      rfl
    · -- a call that has settled would have found the plan before
      rw [hcalls j hj] at hj'
      rw [h.settled j id hj'] at hs
      cases hs
  · by_cases hj : j = i
    · subst hj
      rw [hself] at hj'
      cases hj'
    · rw [hcalls j hj] at hj'
      exact h.succeeds j err hj'

/-- **Every call that comes alone keeps the invariant.** -/
theorem Inv.step (hok : Alone q e i) (hs : Stepped q e i e') : Inv q e' := by
  have hview : ∀ c, e.calls i = c → e.view q i = Tables.append e.tables (q.writes i c) := by
    rintro c rfl
    rfl
  cases hs with
  | found hc hs =>
    refine h.move (by simp [Call.opened]) (fun id' hid => ?_) (by simp)
    rcases hid with hid | hid <;> cases hid
    exact hs
  | missing hc hs => exact h.draw hok hc hs
  | existing hc =>
    refine h.move (by simp [Call.opened]) (fun id' hid => ?_) (by simp)
    rcases hid with hid | hid <;> cases hid
    exact h.settled i _ (Or.inl hc)
  | inserted hc => exact h.advance (by rw [hc]; rfl) rfl
  | stated hc => exact h.advance (by rw [hc]; rfl) rfl
  | logged hc => exact h.advance (by rw [hc]; rfl) rfl
  | commit hc => exact h.commit hc
  | @noMigration id hc hf =>
    obtain ⟨hs, hu, -⟩ := h.absent i id (by rw [hc]; rfl)
    have hnil : q.writes i (.missing id) = Tables.empty := rfl
    rw [hview _ hc, hnil, append_empty] at hf
    exact absurd hf (insertMigration_isSome hs hu)
  | @noState id hc hf =>
    obtain ⟨-, hu, -⟩ := h.absent i id (by rw [hc]; rfl)
    rw [hview _ hc] at hf
    exact absurd hf (insertState_isSome _ _ (q.migrationRow id) hu)
  | @noEvent id hc hf =>
    rw [hview _ hc] at hf
    exact absurd hf (insertEvent_isSome _ _ (q.migrationRow id) _)

/-- When all of them are over, the calls have been idempotent. -/
theorem Inv.idempotent (hdone : Complete e) : Idempotent q e where
  succeeds := by
    intro i
    have hi := hdone i
    cases hc : e.calls i with
    | returned id => exact ⟨id, rfl⟩
    | failed err => exact absurd hc (h.succeeds i err)
    | _ => rw [hc] at hi; cases hi
  same := by
    intro i j id id' hi hj
    have hs := h.settled i id (Or.inr hi)
    rw [h.settled j id' (Or.inr hj)] at hs
    cases hs
    rfl
  one := fun i id hi => h.one id (h.settled i id (Or.inr hi))

end Inv

/-! ### The tables the calls begin on -/

/-- A migration has one event of its creation, and the plan and version of a migration are its own. -/
structure Keyed (s : Store) : Prop where
  created : ∀ i r, s.rows i = some r → (r.events.filter fun ev => ev.1 = none).length = 1
  unique : ∀ i j r r', s.rows i = some r → s.rows j = some r' →
    r.plan.plan.id = r'.plan.plan.id → r.plan.plan.version = r'.plan.plan.version → i = j

section Keyed
variable {s s' : Store}

/-- An update that writes events with the state they start from. -/
theorem Keyed.modify (h : Keyed s) (id : Id) {f : Row → Row} (hplan : ∀ r, (f r).plan = r.plan)
    (hev : ∀ r, ((f r).events.filter fun ev => ev.1 = none) = r.events.filter fun ev => ev.1 = none) :
    Keyed (s.modify id f) := by
  have hrow : ∀ i r, (s.modify id f).rows i = some r → ∃ r0, s.rows i = some r0 ∧
      r.plan = r0.plan ∧ (r.events.filter fun ev => ev.1 = none) =
        r0.events.filter fun ev => ev.1 = none := by
    intro i r hr
    rw [Store.rows_modify] at hr
    split_ifs at hr with hi
    · obtain ⟨r0, hr0, rfl⟩ := Option.map_eq_some_iff.mp hr
      exact ⟨r0, hr0, hplan r0, hev r0⟩
    · exact ⟨r, hr, rfl, rfl⟩
  constructor
  · intro i r hr
    obtain ⟨r0, hr0, -, hsame⟩ := hrow i r hr
    rw [hsame]
    exact h.created i r0 hr0
  · intro i j r r' hr hr' hid hv
    obtain ⟨r0, hr0, hp, -⟩ := hrow i r hr
    obtain ⟨r0', hr0', hp', -⟩ := hrow j r' hr'
    rw [hp, hp'] at hid hv
    exact h.unique i j r0 r0' hr0 hr0' hid hv

/-- A new migration has a key that was not there. -/
theorem Keyed.createMigration (h : Keyed s) (p : ValidPlan) : Keyed (s.createMigration p).2 := by
  unfold Store.createMigration
  cases hf : s.find p.plan with
  | some id => exact h
  | none =>
    have hnone : ∀ i r, s.rows i = some r →
        ¬(r.plan.plan.id = p.plan.id ∧ r.plan.plan.version = p.plan.version) := by
      intro i r hr
      have hi := List.find?_eq_none.mp hf i (List.mem_range.mpr (Store.lt_nextId hr))
      simpa [hr] using hi
    have hrow : ∀ i r, (s.insert p).rows i = some r → s.rows i = some r ∨
        (i = s.nextId ∧ r.plan = p ∧ r.events = [(none, .pending)]) := by
      intro i r hr
      by_cases hi : i = s.nextId
      · subst hi
        rw [Store.rows_insert_self] at hr
        cases hr
        exact Or.inr ⟨rfl, rfl, rfl⟩
      · rw [Store.rows_insert_of_ne s p hi] at hr
        exact Or.inl hr
    constructor
    · intro i r hr
      rcases hrow i r hr with hr | ⟨-, -, hev⟩
      · exact h.created i r hr
      · simp [hev]
    · intro i j r r' hr hr' hid hv
      rcases hrow i r hr with hr | ⟨rfl, rfl, -⟩ <;> rcases hrow j r' hr' with hr' | ⟨rfl, hp, -⟩
      · exact h.unique i j r r' hr hr' hid hv
      · rw [hp] at hid hv
        exact absurd ⟨hid, hv⟩ (hnone i r hr)
      · exact absurd ⟨hid.symm, hv.symm⟩ (hnone j r' hr')
      · rfl

theorem Keyed.deleteMany (h : Keyed s) (ids : List Id) : Keyed (s.deleteMany ids) := by
  have hrow : ∀ i r, (s.deleteMany ids).rows i = some r → s.rows i = some r := by
    intro i r hr
    change (if i ∈ ids then none else s.rows i) = some r at hr
    split_ifs at hr
    exact hr
  exact ⟨fun i r hr => h.created i r (hrow i r hr),
    fun i j r r' hr hr' => h.unique i j r r' (hrow i r hr) (hrow j r' hr')⟩

theorem Keyed.write {m : ℕ} {e : Engine m} {env : Env} (h : Keyed e.store) (hs : Keyed s) :
    Keyed (e.write env s).store := by
  unfold Engine.write
  split_ifs
  · exact h
  · exact hs

theorem keyed_step {m : ℕ} {delay : ℤ} {e e' : Engine m} {a : System.Act m} (h : Keyed e.store)
    (hs : Steps.Stepped delay e a e') : Keyed e'.store := by
  cases hs with
  | apply hr hp => exact h.createMigration _
  | @serve w env t op k hw hc =>
    change Keyed (e.effect env op).store
    cases op with
    | saveState id src dst c terminal =>
      exact h.write (h.modify id (fun _ => rfl) fun r => by simp [List.filter_append])
    | saveCheckpoint id st c =>
      exact h.write (h.modify id (fun _ => rfl) fun r => by simp [List.filter_append])
    | _ => exact h
  | abort => exact h.modify _ (fun _ => rfl) fun _ => rfl
  | _ => exact h

/-- The stores of a service. -/
theorem keyed_of_run {m : ℕ} {delay : ℤ} {s : Service m} {as : List (Deletions.Act m)}
    (h : Path (Guarded (Service.step delay) fun _ _ => True) (Service.init m) as s) :
    Keyed s.engine.store := by
  refine h.invariant (I := fun s => Keyed s.engine.store) ⟨by rintro i r ⟨⟩, by rintro i j r r' ⟨⟩⟩ ?_
  rintro s a s' hk ⟨hs, -⟩
  cases a with
  | engine a =>
    obtain ⟨e', he, rfl⟩ := Option.map_eq_some_iff.mp hs
    exact keyed_step hk (Steps.step_inv he)
  | delete ids =>
    simp only [Service.step] at hs
    split_ifs at hs <;> cases hs <;> exact hk
  | check i fails =>
    simp only [Service.step] at hs
    split at hs
    · split at hs <;> cases hs <;> exact hk
    · cases hs
  | commit i landed =>
    simp only [Service.step] at hs
    split at hs
    · cases hs
      split_ifs
      · exact hk.deleteMany _
      · exact hk
    · cases hs

section Represents
variable {t : Tables} (h : Represents t s)
include h

/-- The events of a migration, counted in the table. -/
theorem created_of_represents {i : Id} {r : Row} (hr : s.rows i = some r) :
    (t.migrationEvent.filter fun ev => ev.migrationId = i ∧ ev.fromState = none).length =
      (r.events.filter fun ev => ev.1 = none).length := by
  have hev := h.event i
  have htexts : s.eventTexts i = r.events.map fun ev => (ev.1.map State.text, ev.2.text) := by
    simp [Store.eventTexts, hr]
  have hsplit : (t.migrationEvent.filter fun ev => ev.migrationId = i ∧ ev.fromState = none) =
      (t.migrationEvent.filter fun ev => ev.migrationId = i).filter fun ev => ev.fromState = none := by
    rw [List.filter_filter]
    refine List.filter_congr fun ev _ => ?_
    rw [← Bool.decide_and, decide_eq_decide, and_comm]
  have hlen : ∀ l : List EventRow, (l.filter fun ev => ev.fromState = none).length =
      ((l.map fun ev => (ev.fromState, ev.toState)).filter fun ev => ev.1 = none).length := by
    intro l
    rw [List.filter_map, List.length_map]
    rfl
  rw [hsplit, hlen, hev, htexts, List.filter_map, List.length_map]
  refine congrArg _ (List.filter_congr fun ev _ => ?_)
  simp

theorem unused_of_represents {i : Id} (hi : s.nextId ≤ i) : Unused t i where
  migration := by
    intro m hm
    obtain ⟨j, r, hr, rfl⟩ := h.mem_migration.mp hm
    exact (Store.lt_nextId hr |>.trans_le hi).ne
  state := by
    intro st hst
    obtain ⟨j, r, hr, rfl⟩ := h.mem_state.mp hst
    exact (Store.lt_nextId hr |>.trans_le hi).ne
  event := by
    rintro ev hev rfl
    have hnil := h.event ev.migrationId
    have htexts : s.eventTexts ev.migrationId = [] := by
      simp [Store.eventTexts, s.fresh _ hi]
    rw [htexts, List.map_eq_nil_iff, List.filter_eq_nil_iff] at hnil
    exact hnil ev hev (decide_eq_true rfl)

/-- A plan that is there is there once. -/
theorem one_of_represents (hk : Keyed s) {p : MigrationPlan} {i : Id} (hs : t.selectId p = some i) :
    One p t i := by
  obtain ⟨m, hm, hid⟩ := Option.map_eq_some_iff.mp hs
  have hmem := List.mem_of_find?_eq_some hm
  have hfound := List.find?_some hm
  have hkey : m.planId = p.id ∧ m.version = p.version := by simpa using hfound
  obtain ⟨j, r, hr, rfl⟩ := h.mem_migration.mp hmem
  obtain rfl : j = i := hid
  refine ⟨?_, h.one_state hmem, ?_⟩
  · have hids : (t.migration.map MigrationRow.id).Nodup := by
      rw [h.migration, Store.map_key_listed fun _ _ => rfl]
      exact List.nodup_range.filter _
    refine List.perm_singleton.mp ((List.perm_ext_iff_of_nodup
      (hids.sublist (List.filter_sublist.map _)) (List.nodup_singleton _)).mpr fun k => ?_)
    rw [List.mem_map, List.mem_singleton]
    constructor
    · rintro ⟨m, hm, rfl⟩
      obtain ⟨hm, hkey'⟩ := List.mem_filter.mp hm
      obtain ⟨k, r', hr', rfl⟩ := h.mem_migration.mp hm
      obtain ⟨hid', hv'⟩ := of_decide_eq_true hkey'
      exact hk.unique k j r' r hr' hr (hid'.trans hkey.1.symm) (hv'.trans hkey.2.symm)
    · rintro rfl
      exact ⟨_, List.mem_filter.mpr ⟨hmem, decide_eq_true hkey⟩, rfl⟩
  · rw [created_of_represents h hr]
    exact hk.created j r hr

end Represents

end Keyed

/-! ### Idempotent submissions -/

section Idempotent
variable {m : ℕ} {delay : ℤ} {s : Service m} {as₀ : List (Deletions.Act m)}

theorem inv_of_run (q : Request n)
    (h₀ : Path (Guarded (Service.step delay) fun _ _ => True) (Service.init m) as₀ s) :
    Inv q (Submission.of (n := n) s) := by
  have hinv : Deletions.Inv delay s := by
    refine h₀.invariant Deletions.inv_init ?_
    rintro s a s' hi ⟨hs, -⟩
    exact hi.step hs
  have hrep := hinv.represents
  refine ⟨fun id hid => unused_of_represents hrep hid,
    fun id hid => one_of_represents hrep (keyed_of_run h₀) hid, ?_, ?_, ?_, ?_⟩
  · rintro i j x y ⟨⟩
  · rintro i x ⟨⟩
  · rintro i id (⟨⟨⟩⟩ | ⟨⟨⟩⟩)
  · rintro i err ⟨⟩

/-- Either every call came alone, or two calls have drawn different ids. -/
theorem alone_or_clash {e₀ : Submission n} (hd : Drawn e₀) (h : Runs q (fun _ _ => True) e₀ as e) :
    Runs q (Alone q) e₀ as e ∨ Clash e := by
  have hdrawn : ∀ {bs f}, Runs q (fun _ _ => True) e₀ bs f → Drawn f := fun hf =>
    hf.invariant hd fun _ _ _ hd ha => (step_inv ha.1).drawn hd
  induction h with
  | nil => exact Or.inl Path.nil
  | @snoc t u as i h ha ih =>
    rcases ih with hrun | hc
    · by_cases hok : Alone q t i
      · exact Or.inl (hrun.snoc ⟨ha.1, hok⟩)
      · exact Or.inr (clash_of_not_alone (hdrawn h) (step_inv ha.1) hok)
    · exact Or.inr ((step_inv ha.1).clash hc)

/-- **Submissions are idempotent if and only if none finds nothing while another one that has found
nothing is at work**: whatever the service has done before, and however the calls are interleaved. -/
theorem submit_idempotent
    (h₀ : Path (Guarded (Service.step delay) fun _ _ => True) (Service.init m) as₀ s)
    (h : Runs q (fun _ _ => True) (Submission.of s) as e) (hdone : Complete e) :
    Idempotent q e ↔ Runs q (Alone q) (Submission.of s) as e := by
  constructor
  · intro hid
    have hd : Drawn (Submission.of (n := n) s) := by rintro j x ⟨⟩
    rcases alone_or_clash hd h with hrun | hc
    · exact hrun
    · exact absurd hid hc.not_idempotent
  · intro hrun
    have hinv : Inv q e := hrun.invariant (inv_of_run q h₀) fun _ _ _ hi ha => hi.step ha.2 (step_inv ha.1)
    exact hinv.idempotent hdone

end Idempotent

/-- `n` calls for a plan with nothing to backfill. -/
def plainRequest (n : ℕ) : Request n := ⟨plainPlan, State.pending.text, fun _ => 0⟩

/-- One call after the other. -/
theorem submit_idempotent_sequel : ∃ e : Submission 2, Complete e ∧ Idempotent (plainRequest 2) e := by
  have hrun : ((runs (Submission.step (plainRequest 2))
      (fun e i => decide (Alone (plainRequest 2) e i)) (Submission.of (Service.init 1))
      [0, 0, 0, 0, 0, 1, 1]).any fun e => e.calls 0 = .returned 0 ∧ e.calls 1 = .returned 0) =
        true := by
    decide +kernel
  obtain ⟨e, he, hP⟩ := exists_path_of_any (fun e i h => of_decide_eq_true h) hrun
  obtain ⟨h0, h1⟩ := of_decide_eq_true hP
  have hdone : Complete e := by
    intro i
    match i with
    | 0 => rw [h0]; rfl
    | 1 => rw [h1]; rfl
  have h₀ : Path (Guarded (Service.step 0) fun _ _ => True) (Service.init 1) [] (Service.init 1) :=
    Path.nil
  exact ⟨e, hdone, (submit_idempotent h₀ (he.mono fun _ _ _ h => ⟨h.1, trivial⟩) hdone).mpr he⟩

/-- **Two calls that both find nothing**: one of them fails. -/
theorem submit_race : ¬∀ (n : ℕ) (q : Request n) (as : List (Fin n)) (e : Submission n),
    Runs q (fun _ _ => True) (Submission.of (Service.init 1)) as e → Complete e →
      Idempotent q e := by
  intro hall
  have hrun : ((runs (Submission.step (plainRequest 2)) (fun _ _ => true)
      (Submission.of (Service.init 1)) [0, 1, 0, 0, 0, 0, 1]).any fun e =>
        e.calls 0 = .returned 0 ∧ e.calls 1 = .failed .insertMigration) = true := by
    decide +kernel
  obtain ⟨e, he, hP⟩ := exists_path_of_any_free hrun
  obtain ⟨h0, h1⟩ := of_decide_eq_true hP
  have hdone : Complete e := by
    intro i
    match i with
    | 0 => rw [h0]; rfl
    | 1 => rw [h1]; rfl
  obtain ⟨id, hid⟩ := (hall 2 (plainRequest 2) _ e he hdone).succeeds 1
  cases h1.symm.trans hid

end MigrationSafety.Server.Submit
