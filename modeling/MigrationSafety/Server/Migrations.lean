import Mathlib.Data.List.Sort
import Mathlib.Data.List.Range
import MigrationSafety.StateMachine.Signature

/-! # The store

The engine's own database: one row for each migration, with its plan, its position, its checkpoint
and the audit events. Every call is one transaction; `modify` is the one shape of an update, and
`rows_modify` says what it leaves. Ids are handed out in order, and only ids below `nextId` have a
row. Deletions come with the tables (`Server.Deletions`). -/

namespace MigrationSafety.Server.Migrations

open MigrationSafety.Plan.Validate MigrationSafety.StateMachine.Signature

/-- A migration with its state row and its events. -/
structure Row where
  plan : ValidPlan
  state : State
  checkpoint : Checkpoint := []
  terminal : Bool := false
  updatedAt : ℕ := 0
  /-- `from_state` and `to_state`, oldest first. -/
  events : List (Option State × State) := []

structure Store where
  rows : Id → Option Row
  nextId : ℕ
  clock : ℕ
  fresh : ∀ i : ℕ, nextId ≤ i → rows i = none

namespace Store

def empty : Store where
  rows := fun _ => none
  nextId := 0
  clock := 0
  fresh := fun _ _ => rfl

/-- `UPDATE … WHERE migration_id = id`. -/
def modify (s : Store) (id : Id) (f : Row → Row) : Store where
  rows := fun i => if i = id then (s.rows i).map f else s.rows i
  nextId := s.nextId
  clock := s.clock + 1
  fresh := by
    intro i hi
    rw [s.fresh i hi]
    split_ifs <;> rfl

theorem rows_modify (s : Store) (id i : Id) (f : Row → Row) :
    (s.modify id f).rows i = if i = id then (s.rows i).map f else s.rows i := rfl

@[simp] theorem rows_modify_self (s : Store) (id : Id) (f : Row → Row) :
    (s.modify id f).rows id = (s.rows id).map f := if_pos rfl

@[simp] theorem rows_modify_of_ne (s : Store) {id i : Id} (f : Row → Row) (h : i ≠ id) :
    (s.modify id f).rows i = s.rows i := if_neg h

/-- `Load`. -/
def load (s : Store) (id : Id) : Option Record :=
  (s.rows id).map fun r =>
    { id := id
      plan := r.plan.plan
      state := r.state
      checkpoint := r.checkpoint.decode
      terminal := r.terminal
      updatedAt := r.updatedAt }

/-- `SaveState`: the new position, whatever the old one was. -/
def saveState (s : Store) (id : Id) (src dst : State) (checkpoint : Checkpoint)
    (terminal : Bool) : Store :=
  s.modify id fun r =>
    { r with
      state := dst
      checkpoint := checkpoint
      terminal := terminal
      updatedAt := s.clock
      events := r.events ++ [(some src, dst)] }

/-- `SaveCheckpoint`: progress within a state. -/
def saveCheckpoint (s : Store) (id : Id) (state : State) (checkpoint : Checkpoint) : Store :=
  s.modify id fun r =>
    { r with
      checkpoint := checkpoint
      updatedAt := s.clock
      events := r.events ++ [(some state, state)] }

/-- `UpdateState`: state and terminal flag, without an event. -/
def updateState (s : Store) (id : Id) (state : State) (terminal : Bool) : Store :=
  s.modify id fun r => { r with state := state, terminal := terminal, updatedAt := s.clock }

/-- The migration with this plan id and version. -/
def find (s : Store) (p : MigrationPlan) : Option Id :=
  (List.range s.nextId).find? fun i =>
    (s.rows i).any fun r => r.plan.plan.id = p.id ∧ r.plan.plan.version = p.version

/-- A new migration in `Pending`. -/
def insert (s : Store) (p : ValidPlan) : Store where
  rows := fun i =>
    if i = s.nextId then
      some { plan := p, state := .pending, updatedAt := s.clock, events := [(none, .pending)] }
    else s.rows i
  nextId := s.nextId + 1
  clock := s.clock + 1
  fresh := by
    intro i hi
    have hne : i ≠ s.nextId := by omega
    rw [if_neg hne, s.fresh i (by omega)]

/-- `CreateMigration`: the existing id, if the plan and version are known. -/
def createMigration (s : Store) (p : ValidPlan) : Id × Store :=
  match s.find p.plan with
  | some id => (id, s)
  | none => (s.nextId, s.insert p)

/-- `FindResumable`: the migrations that are not terminal, oldest update first. -/
def findResumable (s : Store) : List Id :=
  ((List.range s.nextId).filter fun i => (s.rows i).any fun r => !r.terminal).insertionSort
    fun i j => ((s.rows i).map Row.updatedAt).getD 0 ≤ ((s.rows j).map Row.updatedAt).getD 0

/-! ### What an update keeps -/

/-- The migrations of `s` are in `t`, with their plans. -/
def Keeps (s t : Store) : Prop :=
  ∀ i r, s.rows i = some r → ∃ r', t.rows i = some r' ∧ r'.plan = r.plan

theorem Keeps.refl (s : Store) : Keeps s s := fun _ r h => ⟨r, h, rfl⟩

theorem keeps_modify (s : Store) (id : Id) (f : Row → Row) (hf : ∀ r, (f r).plan = r.plan) :
    Keeps s (s.modify id f) := by
  intro i r h
  by_cases hi : i = id
  · subst hi
    exact ⟨f r, by rw [rows_modify_self, h]; rfl, hf r⟩
  · exact ⟨r, by rw [rows_modify_of_ne s f hi]; exact h, rfl⟩

theorem rows_insert_of_ne (s : Store) (p : ValidPlan) {i : Id} (h : i ≠ s.nextId) :
    (s.insert p).rows i = s.rows i := if_neg h

theorem rows_insert_self (s : Store) (p : ValidPlan) :
    (s.insert p).rows s.nextId = some
      { plan := p, state := .pending, updatedAt := s.clock, events := [(none, .pending)] } :=
  if_pos rfl

theorem lt_nextId {s : Store} {i : ℕ} {r : Row} (h : s.rows i = some r) : i < s.nextId := by
  by_contra hi
  rw [s.fresh i (by omega)] at h
  cases h

/-- A row that is there is not touched by an insertion. -/
theorem rows_insert_of_some {s : Store} {p : ValidPlan} {i : Id} {r : Row}
    (h : s.rows i = some r) : (s.insert p).rows i = some r := by
  rw [rows_insert_of_ne s p (lt_nextId h).ne, h]

/-- After `CreateMigration`, a row is an old one or the new one. -/
theorem rows_createMigration {s : Store} {p : ValidPlan} {i : Id} {r : Row}
    (h : (s.createMigration p).2.rows i = some r) :
    s.rows i = some r ∨ (i = s.nextId ∧ (s.createMigration p).1 = i ∧ r.state = .pending ∧
      r.terminal = false ∧ r.plan = p) := by
  unfold createMigration at h ⊢
  split at h
  · exact Or.inl h
  · by_cases hi : i = s.nextId
    · subst hi
      rw [rows_insert_self] at h
      cases h
      exact Or.inr ⟨rfl, rfl, rfl, rfl, rfl⟩
    · rw [rows_insert_of_ne s p hi] at h
      exact Or.inl h

/-- The new row starts with the event of its creation. -/
theorem events_createMigration {s : Store} {p : ValidPlan} {i : Id} {r : Row}
    (h : (s.createMigration p).2.rows i = some r) :
    s.rows i = some r ∨ (r.state = .pending ∧ r.events = [(none, .pending)]) := by
  unfold createMigration at h
  split at h
  · exact Or.inl h
  · by_cases hi : i = s.nextId
    · subst hi
      rw [rows_insert_self] at h
      cases h
      exact Or.inr ⟨rfl, rfl⟩
    · rw [rows_insert_of_ne s p hi] at h
      exact Or.inl h

theorem rows_createMigration_of_some {s : Store} {p : ValidPlan} {i : Id} {r : Row}
    (h : s.rows i = some r) : (s.createMigration p).2.rows i = some r := by
  unfold createMigration
  split
  · exact h
  · exact rows_insert_of_some h

theorem load_eq_some {s : Store} {id : Id} {rec : Record} :
    s.load id = some rec ↔ ∃ r, s.rows id = some r ∧ rec =
      { id := id, plan := r.plan.plan, state := r.state, checkpoint := r.checkpoint.decode,
        terminal := r.terminal, updatedAt := r.updatedAt } := by
  simp [load, eq_comm]

/-- **`FindResumable` is exact.** -/
theorem mem_findResumable {s : Store} {i : Id} :
    i ∈ s.findResumable ↔ ∃ r, s.rows i = some r ∧ r.terminal = false := by
  unfold findResumable
  rw [List.mem_insertionSort, List.mem_filter, List.mem_range, Option.any_eq_true]
  constructor
  · rintro ⟨-, r, hr, ht⟩
    exact ⟨r, hr, Bool.not_eq_true' _ ▸ ht⟩
  · rintro ⟨r, hr, ht⟩
    exact ⟨lt_nextId hr, r, hr, by rw [ht]; rfl⟩

end Store

end MigrationSafety.Server.Migrations
