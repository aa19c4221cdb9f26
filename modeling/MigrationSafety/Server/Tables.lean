import MigrationSafety.Server.Migrations

/-! # The tables

The store as it is in the database: the tables `migration`, `migration_state` and `migration_event`,
with states as texts, and the transactions of the store as the statements they consist of. A statement
that violates a constraint fails, and with it the transaction.

`Represents` ties the tables to the store: one row of `migration` and one of `migration_state` for
each migration, in the order of their ids, and its events. Every transaction keeps it, and answers
what the store answers. -/

namespace MigrationSafety.Server.Migrations

open MigrationSafety.Plan.Validate MigrationSafety.StateMachine.Signature

/-! ### Rows -/

structure MigrationRow where
  id : Id
  planId : String
  version : ℤ
  plan : MigrationPlan

structure StateRow where
  migrationId : Id
  state : String
  checkpoint : Checkpoint := []
  terminal : Bool := false
  updatedAt : ℕ

structure EventRow where
  migrationId : Id
  fromState : Option String
  toState : String

structure Tables where
  migration : List MigrationRow
  migrationState : List StateRow
  migrationEvent : List EventRow

namespace Tables

def empty : Tables := ⟨[], [], []⟩

/-! ### Statements -/

/-- `SELECT id FROM migration WHERE plan_id = … AND version = …`. -/
def selectId (t : Tables) (p : MigrationPlan) : Option Id :=
  (t.migration.find? fun m => m.planId = p.id ∧ m.version = p.version).map MigrationRow.id

/-- The primary key and `UNIQUE (plan_id, version)`. -/
def insertMigration (t : Tables) (id : Id) (p : MigrationPlan) : Option Tables :=
  if t.migration.any fun m => m.id = id ∨ (m.planId = p.id ∧ m.version = p.version) then none
  else some { t with migration := t.migration ++ [⟨id, p.id, p.version, p⟩] }

/-- `REFERENCES migration(id)`. -/
def references (t : Tables) (id : Id) : Bool := t.migration.any fun m => m.id = id

/-- The primary key of `migration_state` is its reference. -/
def insertState (t : Tables) (now : ℕ) (id : Id) (state : String) : Option Tables :=
  if t.references id && !t.migrationState.any fun s => s.migrationId = id then
    some { t with
      migrationState := t.migrationState ++ [{ migrationId := id, state := state, updatedAt := now }] }
  else none

def insertEvent (t : Tables) (id : Id) (src : Option String) (dst : String) : Option Tables :=
  if t.references id then some { t with migrationEvent := t.migrationEvent ++ [⟨id, src, dst⟩] }
  else none

/-- `UPDATE migration_state SET … WHERE migration_id = id`. -/
def updateRows (t : Tables) (id : Id) (f : StateRow → StateRow) : Tables :=
  { t with migrationState := t.migrationState.map fun s => if s.migrationId = id then f s else s }

/-! ### Transactions -/

def createMigration (t : Tables) (now : ℕ) (id : Id) (p : MigrationPlan) (initialState : String) :
    Option (Id × Tables) :=
  match t.selectId p with
  | some existing => some (existing, t)
  | none => do
    let t ← t.insertMigration id p
    let t ← t.insertState now id initialState
    let t ← t.insertEvent id none initialState
    some (id, t)

def saveState (t : Tables) (now : ℕ) (id : Id) (src dst : String) (checkpoint : Checkpoint)
    (terminal : Bool) : Option Tables :=
  (t.updateRows id fun s =>
    { s with state := dst, checkpoint := checkpoint, terminal := terminal, updatedAt := now }).insertEvent
      id (some src) dst

def saveCheckpoint (t : Tables) (now : ℕ) (id : Id) (state : String) (checkpoint : Checkpoint) :
    Option Tables :=
  (t.updateRows id fun s => { s with checkpoint := checkpoint, updatedAt := now }).insertEvent
    id (some state) state

def updateState (t : Tables) (now : ℕ) (id : Id) (state : String) (terminal : Bool) : Tables :=
  t.updateRows id fun s => { s with state := state, terminal := terminal, updatedAt := now }

/-- The events first, then the states, then the migrations. -/
def deleteMany (t : Tables) (ids : List Id) : Tables where
  migration := t.migration.filter fun m => m.id ∉ ids
  migrationState := t.migrationState.filter fun s => s.migrationId ∉ ids
  migrationEvent := t.migrationEvent.filter fun ev => ev.migrationId ∉ ids

/-- `SELECT migration_id FROM migration_state WHERE terminal = false ORDER BY updated_at`. -/
def findResumable (t : Tables) : List Id :=
  ((t.migrationState.filter fun s => !s.terminal).insertionSort fun s s' =>
    s.updatedAt ≤ s'.updatedAt).map StateRow.migrationId

end Tables

/-! ### The store they represent -/

namespace Store

/-- Something for each migration, in the order of the ids. -/
def listed {β : Type} (s : Store) (f : Id → Row → β) : List β :=
  (List.range s.nextId).filterMap fun i => (s.rows i).map (f i)

def migrationRow (i : Id) (r : Row) : MigrationRow :=
  ⟨i, r.plan.plan.id, r.plan.plan.version, r.plan.plan⟩

def stateRow (i : Id) (r : Row) : StateRow :=
  ⟨i, r.state.text, r.checkpoint, r.terminal, r.updatedAt⟩

/-- The events of a migration, as the table has them. -/
def eventTexts (s : Store) (i : Id) : List (Option String × String) :=
  ((s.rows i).map fun r => r.events.map fun ev => (ev.1.map State.text, ev.2.text)).getD []

/-- `DeleteMany`. -/
def deleteMany (s : Store) (ids : List Id) : Store where
  rows := fun i => if i ∈ ids then none else s.rows i
  nextId := s.nextId
  clock := s.clock + 1
  fresh := by
    intro i hi
    rw [s.fresh i hi, ite_self]

section Listed
variable {β : Type} {s : Store} {f : Id → Row → β} {b : β}

theorem mem_listed : b ∈ s.listed f ↔ ∃ i r, s.rows i = some r ∧ f i r = b := by
  simp only [listed, List.mem_filterMap, List.mem_range, Option.map_eq_some_iff]
  constructor
  · rintro ⟨i, -, r, hr, rfl⟩
    exact ⟨i, r, hr, rfl⟩
  · rintro ⟨i, r, hr, rfl⟩
    exact ⟨i, lt_nextId hr, r, hr, rfl⟩

theorem listed_empty : Store.empty.listed f = [] := rfl

theorem listed_insert (p : ValidPlan) : (s.insert p).listed f = s.listed f ++ [f s.nextId
    { plan := p, state := .pending, updatedAt := s.clock, events := [(none, .pending)] }] := by
  have hold : ∀ i ∈ List.range s.nextId, ((s.insert p).rows i).map (f i) = (s.rows i).map (f i) := by
    intro i hi
    rw [rows_insert_of_ne s p (List.mem_range.mp hi).ne]
  have hnew : (s.insert p).nextId = s.nextId + 1 := rfl
  unfold listed
  rw [hnew, List.range_succ, List.filterMap_append, List.filterMap_congr hold]
  simp [rows_insert_self]

/-- An update that shows in the list as one of its elements. -/
theorem listed_modify {id : Id} {g : Row → Row} {u : β → β}
    (hu : ∀ i r, f i (if i = id then g r else r) = u (f i r)) :
    (s.modify id g).listed f = (s.listed f).map u := by
  unfold listed
  rw [List.map_filterMap]
  refine List.filterMap_congr fun i _ => ?_
  rw [rows_modify, Option.map_map]
  split_ifs with hi <;> cases hr : s.rows i <;> simp [← hu, hi]

theorem listed_deleteMany {ids : List Id} {key : β → Id} (hkey : ∀ i r, key (f i r) = i) :
    (s.deleteMany ids).listed f = (s.listed f).filter fun b => key b ∉ ids := by
  unfold listed
  rw [List.filter_filterMap]
  refine List.filterMap_congr fun i _ => ?_
  change ((if i ∈ ids then none else s.rows i).map (f i)) = _
  cases hr : s.rows i <;> by_cases hi : i ∈ ids <;> simp [Option.filter, hkey, hi]

end Listed

end Store

/-- An event, as the table has it. -/
def eventRow (id : Id) (ev : Option State × State) : EventRow :=
  ⟨id, ev.1.map State.text, ev.2.text⟩

/-- The tables are those of the store. -/
structure Represents (t : Tables) (s : Store) : Prop where
  migration : t.migration = s.listed Store.migrationRow
  state : t.migrationState = s.listed Store.stateRow
  event : ∀ i, (t.migrationEvent.filter fun ev => ev.migrationId = i).map
    (fun ev => (ev.fromState, ev.toState)) = s.eventTexts i

section Represents
variable {t : Tables} {s : Store} {id : Id}

theorem represents_empty : Represents Tables.empty Store.empty :=
  ⟨Store.listed_empty.symm, Store.listed_empty.symm, fun _ => rfl⟩

/-- Only the rows count. -/
theorem Represents.congr {s' : Store} (h : Represents t s) (hn : s'.nextId = s.nextId)
    (hr : ∀ i, s'.rows i = s.rows i) : Represents t s' := by
  have hl : ∀ {β : Type} (f : Id → Row → β), s'.listed f = s.listed f := by
    intro β f
    unfold Store.listed
    simp only [hn, hr]
  have he : ∀ i, s'.eventTexts i = s.eventTexts i := by
    intro i
    unfold Store.eventTexts
    rw [hr]
  exact ⟨h.migration.trans (hl _).symm, h.state.trans (hl _).symm, fun i => (h.event i).trans (he i).symm⟩

theorem Represents.references (h : Represents t s) (id : Id) :
    t.references id = (s.rows id).isSome := by
  unfold Tables.references
  rw [h.migration, Bool.eq_iff_iff, List.any_eq_true, Option.isSome_iff_exists]
  constructor
  · rintro ⟨b, hb, hid⟩
    obtain ⟨i, r, hr, rfl⟩ := Store.mem_listed.mp hb
    obtain rfl : i = id := of_decide_eq_true hid
    exact ⟨r, hr⟩
  · rintro ⟨r, hr⟩
    exact ⟨_, Store.mem_listed.mpr ⟨id, r, hr, rfl⟩, decide_eq_true rfl⟩

/-- The same migration is found. -/
theorem Represents.selectId (h : Represents t s) (p : MigrationPlan) : t.selectId p = s.find p := by
  unfold Tables.selectId Store.find
  rw [h.migration]
  unfold Store.listed
  rw [List.find?_filterMap]
  have hsame : (fun i => ((s.rows i).map (Store.migrationRow i)).any fun m =>
      decide (m.planId = p.id ∧ m.version = p.version)) = fun i => (s.rows i).any fun r =>
        decide (r.plan.plan.id = p.id ∧ r.plan.plan.version = p.version) := by
    funext i
    cases s.rows i <;> rfl
  rw [hsame]
  cases hf : List.find? (fun i => (s.rows i).any fun r =>
      decide (r.plan.plan.id = p.id ∧ r.plan.plan.version = p.version)) (List.range s.nextId) with
  | none => rfl
  | some i =>
    have hsome := List.find?_some hf
    obtain ⟨r, hr, -⟩ := (Option.any_eq_true _ _).mp hsome
    simp [hr, Store.migrationRow]

theorem eventTexts_modify {g : Row → Row} {new : List (Option State × State)}
    (hg : ∀ r, (g r).events = r.events ++ new) (i : Id) : (s.modify id g).eventTexts i =
      s.eventTexts i ++ if i = id ∧ (s.rows i).isSome then
        new.map fun ev => (ev.1.map State.text, ev.2.text) else [] := by
  unfold Store.eventTexts
  rw [Store.rows_modify]
  cases hr : s.rows i <;> by_cases hi : i = id <;> simp [hi, hg]

/-- **An update**, with the events that go with it. -/
theorem Represents.update (h : Represents t s) {g : Row → Row} {u : StateRow → StateRow}
    {new : List (Option State × State)} (hplan : ∀ r, (g r).plan = r.plan)
    (hu : ∀ r, Store.stateRow id (g r) = u (Store.stateRow id r))
    (hg : ∀ r, (g r).events = r.events ++ new) (hn : new = [] ∨ (s.rows id).isSome = true) :
    Represents { t.updateRows id u with
      migrationEvent := t.migrationEvent ++ new.map (eventRow id) } (s.modify id g) := by
  refine ⟨?_, ?_, fun i => ?_⟩
  · have hsame : (s.modify id g).listed Store.migrationRow =
        (s.listed Store.migrationRow).map fun b => b := by
      refine Store.listed_modify fun i r => ?_
      split_ifs <;> simp [Store.migrationRow, hplan]
    rw [hsame, List.map_id']
    exact h.migration
  · refine (congrArg _ h.state).trans (Store.listed_modify fun i r => ?_).symm
    change _ = if i = id then _ else _
    split_ifs with hi
    · subst hi
      exact hu r
    · rfl
  · rw [eventTexts_modify hg, ← h.event i, List.filter_append, List.map_append]
    congr 1
    by_cases hi : i = id
    · subst hi
      rcases hn with rfl | hn
      · simp
      · simp [hn, eventRow, List.filter_map, Function.comp_def]
    · have hne : ¬id = i := fun heq => hi heq.symm
      simp [hi, hne, eventRow, List.filter_map, Function.comp_def]

/-- A write that appends an event answers success if and only if the migration exists, and otherwise
changes nothing. -/
theorem Represents.write (h : Represents t s) {g : Row → Row} {u : StateRow → StateRow}
    (src : Option State) (dst : State) (hplan : ∀ r, (g r).plan = r.plan)
    (hu : ∀ r, Store.stateRow id (g r) = u (Store.stateRow id r))
    (hg : ∀ r, (g r).events = r.events ++ [(src, dst)]) :
    ((t.updateRows id u).insertEvent id (src.map State.text) dst.text).isSome = (s.rows id).isSome ∧
      Represents (((t.updateRows id u).insertEvent id (src.map State.text) dst.text).getD t)
        (s.modify id g) := by
  have href : (t.updateRows id u).references id = (s.rows id).isSome := h.references id
  unfold Tables.insertEvent
  rw [href]
  cases hr : s.rows id with
  | some r =>
    exact ⟨rfl, h.update hplan hu hg (Or.inr (by simp [hr]))⟩
  | none =>
    refine ⟨rfl, ?_⟩
    have hsame : ∀ i, (s.modify id g).rows i = s.rows i := by
      intro i
      rw [Store.rows_modify]
      split_ifs with hi
      · rw [hi, hr]
        rfl
      · rfl
    exact h.congr rfl hsame

/-- `SaveState`. -/
theorem Represents.saveState (h : Represents t s) (src dst : State) (c : Checkpoint)
    (terminal : Bool) :
    (t.saveState s.clock id src.text dst.text c terminal).isSome = (s.rows id).isSome ∧
      Represents ((t.saveState s.clock id src.text dst.text c terminal).getD t)
        (s.saveState id src dst c terminal) :=
  h.write (some src) dst (fun _ => rfl) (fun _ => rfl) fun _ => rfl

/-- `SaveCheckpoint`. -/
theorem Represents.saveCheckpoint (h : Represents t s) (st : State) (c : Checkpoint) :
    (t.saveCheckpoint s.clock id st.text c).isSome = (s.rows id).isSome ∧
      Represents ((t.saveCheckpoint s.clock id st.text c).getD t) (s.saveCheckpoint id st c) :=
  h.write (some st) st (fun _ => rfl) (fun _ => rfl) fun _ => rfl

/-- `UpdateState`. -/
theorem Represents.updateState (h : Represents t s) (st : State) (terminal : Bool) :
    Represents (t.updateState s.clock id st.text terminal) (s.updateState id st terminal) := by
  have hupd := @Represents.update t s id h
    (fun r => { r with state := st, terminal := terminal, updatedAt := s.clock })
    (fun r => { r with state := st.text, terminal := terminal, updatedAt := s.clock })
    [] (fun _ => rfl) (fun _ => rfl) (fun r => (List.append_nil _).symm) (Or.inl rfl)
  rw [List.map_nil, List.append_nil] at hupd
  exact hupd

/-- `DeleteMany`. -/
theorem Represents.deleteMany (h : Represents t s) (ids : List Id) :
    Represents (t.deleteMany ids) (s.deleteMany ids) := by
  refine ⟨?_, ?_, fun i => ?_⟩
  · refine (congrArg _ h.migration).trans (Store.listed_deleteMany fun _ _ => rfl).symm
  · refine (congrArg _ h.state).trans (Store.listed_deleteMany fun _ _ => rfl).symm
  · have hrow : (s.deleteMany ids).eventTexts i = if i ∈ ids then [] else s.eventTexts i := by
      unfold Store.eventTexts Store.deleteMany
      by_cases hi : i ∈ ids <;> simp [hi]
    rw [hrow, ← h.event i]
    change (((t.migrationEvent.filter fun ev => ev.migrationId ∉ ids).filter
      fun ev => ev.migrationId = i).map _) = _
    rw [List.filter_filter]
    split_ifs with hi
    · rw [List.map_eq_nil_iff, List.filter_eq_nil_iff]
      rintro ev - hev
      obtain ⟨rfl, hnot⟩ : ev.migrationId = i ∧ ev.migrationId ∉ ids := by simpa using hev
      exact hnot hi
    · congr 1
      refine List.filter_congr fun ev _ => ?_
      by_cases hev : ev.migrationId = i <;> simp [hev, hi]

/-- `CreateMigration`, with the next id. -/
theorem Represents.createMigration (h : Represents t s) (p : ValidPlan) :
    ∃ t', t.createMigration s.clock s.nextId p.plan State.pending.text =
      some ((s.createMigration p).1, t') ∧ Represents t' (s.createMigration p).2 := by
  unfold Tables.createMigration Store.createMigration
  rw [h.selectId]
  cases hf : s.find p.plan with
  | some existing => exact ⟨t, rfl, h⟩
  | none =>
    have hfree : (t.migration.any fun m =>
        m.id = s.nextId ∨ (m.planId = p.plan.id ∧ m.version = p.plan.version)) = false := by
      rw [h.migration, List.any_eq_false]
      intro b hb
      obtain ⟨i, r, hr, rfl⟩ := Store.mem_listed.mp hb
      have hlt := Store.lt_nextId hr
      have hne := List.find?_eq_none.mp hf i (List.mem_range.mpr hlt)
      rw [hr] at hne
      simpa [Store.migrationRow, hlt.ne] using hne
    have hstate : (t.migrationState.any fun st => st.migrationId = s.nextId) = false := by
      rw [h.state, List.any_eq_false]
      intro b hb
      obtain ⟨i, r, hr, rfl⟩ := Store.mem_listed.mp hb
      have hne : i ≠ s.nextId := (Store.lt_nextId hr).ne
      simp [Store.stateRow, hne]
    let t1 : Tables :=
      { t with migration := t.migration ++ [⟨s.nextId, p.plan.id, p.plan.version, p.plan⟩] }
    let t2 : Tables :=
      { t1 with migrationState := t.migrationState ++
          [{ migrationId := s.nextId, state := State.pending.text, updatedAt := s.clock }] }
    have href : t1.references s.nextId = true := by simp [t1, Tables.references, List.any_append]
    have h1 : t.insertMigration s.nextId p.plan = some t1 := by
      rw [Tables.insertMigration, hfree]
      rfl
    have h2 : t1.insertState s.clock s.nextId State.pending.text = some t2 := by
      rw [Tables.insertState, href]
      change (if (true && !t.migrationState.any fun st => st.migrationId = s.nextId) = true then
        some t2 else none) = some t2
      rw [hstate]
      rfl
    let t3 : Tables :=
      { t2 with migrationEvent := t.migrationEvent ++ [⟨s.nextId, none, State.pending.text⟩] }
    have h3 : t2.insertEvent s.nextId none State.pending.text = some t3 := by
      have href2 : t2.references s.nextId = true := href
      rw [Tables.insertEvent, href2]
      rfl
    refine ⟨t3, by simp only [h1, h2, h3, Option.bind_eq_bind, Option.bind_some], ?_⟩
    · refine ⟨?_, ?_, fun i => ?_⟩
      · rw [Store.listed_insert, ← h.migration]
        rfl
      · rw [Store.listed_insert, ← h.state]
        rfl
      · have hev : t3.migrationEvent =
            t.migrationEvent ++ [⟨s.nextId, none, State.pending.text⟩] := rfl
        rw [hev, List.filter_append, List.map_append, h.event i]
        by_cases hi : i = s.nextId
        · subst hi
          have hnil : s.eventTexts s.nextId = [] := by
            unfold Store.eventTexts
            rw [s.fresh _ le_rfl]
            rfl
          rw [hnil]
          simp [Store.eventTexts, Store.rows_insert_self]
        · have hne : ¬s.nextId = i := fun heq => hi heq.symm
          simp [Store.eventTexts, Store.rows_insert_of_ne s p hi, hne]

/-! ### What the tables say -/

/-- A column that holds the id lists the ids of the store. -/
theorem Store.map_key_listed {β : Type} {f : Id → Row → β} {key : β → Id}
    (hkey : ∀ i r, key (f i r) = i) :
    (s.listed f).map key = (List.range s.nextId).filter fun i => (s.rows i).isSome := by
  unfold Store.listed
  rw [List.map_filterMap, ← List.filterMap_eq_filter]
  refine List.filterMap_congr fun i _ => ?_
  cases hr : s.rows i <;> simp [hkey, Option.guard, hr]

theorem Represents.nodup (h : Represents t s) : (t.migrationState.map StateRow.migrationId).Nodup := by
  rw [h.state, Store.map_key_listed fun _ _ => rfl]
  exact List.nodup_range.filter _

theorem Represents.mem_state (h : Represents t s) {st : StateRow} :
    st ∈ t.migrationState ↔ ∃ i r, s.rows i = some r ∧ Store.stateRow i r = st := by
  rw [h.state]
  exact Store.mem_listed

theorem Represents.mem_migration (h : Represents t s) {m : MigrationRow} :
    m ∈ t.migration ↔ ∃ i r, s.rows i = some r ∧ Store.migrationRow i r = m := by
  rw [h.migration]
  exact Store.mem_listed

/-- Each migration has exactly one state. -/
theorem Represents.one_state (h : Represents t s) {m : MigrationRow} (hm : m ∈ t.migration) :
    (t.migrationState.map StateRow.migrationId).count m.id = 1 := by
  obtain ⟨i, r, hr, rfl⟩ := h.mem_migration.mp hm
  refine List.count_eq_one_of_mem h.nodup (List.mem_map.mpr ⟨Store.stateRow i r, ?_, rfl⟩)
  exact h.mem_state.mpr ⟨i, r, hr, rfl⟩

/-- **`FindResumable` answers what the store answers.** -/
theorem Represents.findResumable (h : Represents t s) : t.findResumable = s.findResumable := by
  have hids : (t.migrationState.filter fun st => !st.terminal).map StateRow.migrationId =
      (List.range s.nextId).filter fun i => (s.rows i).any fun r => !r.terminal := by
    rw [h.state, Store.listed, List.filter_filterMap, List.map_filterMap, ← List.filterMap_eq_filter]
    refine List.filterMap_congr fun i _ => ?_
    cases hr : s.rows i with
    | none => simp [Option.guard, hr]
    | some r =>
      cases hterm : r.terminal <;> simp [Option.guard, Option.filter, hr, hterm, Store.stateRow]
  unfold Store.findResumable
  rw [← hids]
  refine List.map_insertionSort _ _ _ _ fun st hst st' hst' => ?_
  obtain ⟨i, r, hr, rfl⟩ := h.mem_state.mp (List.mem_of_mem_filter hst)
  obtain ⟨j, r', hr', rfl⟩ := h.mem_state.mp (List.mem_of_mem_filter hst')
  simp [Store.stateRow, hr, hr']

/-- It returns the migrations that are not terminal, and nothing else, … -/
theorem Represents.mem_findResumable (h : Represents t s) {i : Id} : i ∈ t.findResumable ↔
    ∃ st ∈ t.migrationState, st.migrationId = i ∧ st.terminal = false := by
  rw [h.findResumable, Store.mem_findResumable]
  constructor
  · rintro ⟨r, hr, hterm⟩
    exact ⟨Store.stateRow i r, h.mem_state.mpr ⟨i, r, hr, rfl⟩, rfl, hterm⟩
  · rintro ⟨st, hst, hid, hterm⟩
    obtain ⟨j, r, hr, rfl⟩ := h.mem_state.mp hst
    obtain rfl : j = i := hid
    exact ⟨r, hr, hterm⟩

/-- … each of them once. -/
theorem Represents.nodup_findResumable (h : Represents t s) : t.findResumable.Nodup := by
  rw [h.findResumable]
  exact (List.perm_insertionSort _ _).nodup_iff.mpr (List.nodup_range.filter _)

end Represents

end MigrationSafety.Server.Migrations
