import MigrationSafety.Lib.Paths
import MigrationSafety.Server.Viewers

/-! # The bulk deletion

`DELETE /migrations` on its own: the handler looks at the ids one by one, and then `DeleteMany` is one
transaction of three statements, any of which may fail, as may its begin and its commit.

* `deleteMany_ok`: the transaction removes all the rows of the ids, or none.
* `deleteEach_serves`: by induction on the ids, what the handler has done when it answers.
* `bulk_delete`: nothing and an error, or exactly the listed migrations. -/

namespace MigrationSafety.Server.BulkDelete

open MigrationSafety.Lib.Effects MigrationSafety.Lib.Paths
open MigrationSafety.StateMachine.Signature
open MigrationSafety.Server.Migrations MigrationSafety.Server.Auth MigrationSafety.Server.Routes

/-! ### The transaction -/

/-- The statements one after the other on a copy, which replaces the state if none of them fails. With
each statement comes what is put before its error; `faults` says which of them fail. -/
def transaction {σ : Type} (faults : ℕ → Option String) : ℕ → List (String × (σ → σ)) → σ → Except String σ
  | _, [], s => .ok s
  | n, (what, f) :: stmts, s =>
    match faults n with
    | some err => .error (what ++ err)
    | none => transaction faults (n + 1) stmts (f s)

/-- Begin, `DELETE … WHERE migration_id = ANY($1)` for the three tables, and commit. -/
def deleteStmts (ids : List Id) : List (String × (Tables → Tables)) :=
  [("", fun t => t),
    ("delete events: ", fun t =>
      { t with migrationEvent := t.migrationEvent.filter fun ev => ev.migrationId ∉ ids }),
    ("delete state: ", fun t =>
      { t with migrationState := t.migrationState.filter fun st => st.migrationId ∉ ids }),
    ("delete migration: ", fun t =>
      { t with migration := t.migration.filter fun m => m.id ∉ ids }),
    ("", fun t => t)]

/-- **`DeleteMany`.** Without ids there is no transaction. -/
def deleteMany (faults : ℕ → Option String) (t : Tables) (ids : List Id) : Except String Tables :=
  if ids = [] then .ok t else transaction faults 0 (deleteStmts ids) t

theorem transaction_ok {σ : Type} {faults : ℕ → Option String} {stmts : List (String × (σ → σ))}
    {n : ℕ} {s s' : σ} (h : transaction faults n stmts s = .ok s') :
    s' = stmts.foldl (fun s f => f.2 s) s := by
  induction stmts generalizing n s with
  | nil => exact (Except.ok.inj h).symm
  | cons f stmts ih =>
    unfold transaction at h
    cases hf : faults n with
    | some err =>
      rw [hf] at h
      cases h
    | none =>
      rw [hf] at h
      exact ih h

theorem deleteMany_nil (t : Tables) : t.deleteMany [] = t := by simp [Tables.deleteMany]

/-- **All or nothing.** -/
theorem deleteMany_ok {faults : ℕ → Option String} {t t' : Tables} {ids : List Id}
    (h : deleteMany faults t ids = .ok t') : t' = t.deleteMany ids := by
  unfold deleteMany at h
  split_ifs at h with hids
  · subst hids
    rw [deleteMany_nil]
    exact (Except.ok.inj h).symm
  · exact transaction_ok h

/-! ### The surroundings -/

def loaded (s : Store) (id : Id) : Except LoadError Record :=
  match s.load id with
  | none => .error .notFound
  | some rec => .ok rec

/-- How the tables answer the handler, and what becomes of them. Nothing else is at work. -/
inductive Serves : Tables → Event server → Tables → Prop
  | load {t : Tables} {s : Store} {id : Id} (h : Represents t s) :
      Serves t ⟨.load id, loaded s id⟩ t
  | loadFailed {t : Tables} {id : Id} {err : String} :
      Serves t ⟨.load id, .error (.failed err)⟩ t
  | deleted {t t' : Tables} {ids : List Id} {faults : ℕ → Option String}
      (h : deleteMany faults t ids = .ok t') : Serves t ⟨.attempt (.deleteMany ids), .ok ()⟩ t'
  | notDeleted {t : Tables} {ids : List Id} {faults : ℕ → Option String} {err : String}
      (h : deleteMany faults t ids = .error err) :
      Serves t ⟨.attempt (.deleteMany ids), .error err⟩ t

/-- An error, and nothing has changed. -/
def Refused (t t' : Tables) (reply : Reply) : Prop := 400 ≤ reply.code ∧ t' = t

/-- The migration exists, and is not terminal. -/
def Running (t : Tables) (id : Id) : Prop :=
  ∃ st ∈ t.migrationState, st.migrationId = id ∧ st.terminal = false

section Rows
variable {t : Tables} {s : Store} {id : Id} {ids ids' : List Id}

theorem running_iff (h : Represents t s) :
    Running t id ↔ ∃ r, s.rows id = some r ∧ r.terminal = false := by
  constructor
  · rintro ⟨st, hst, rfl, hterm⟩
    obtain ⟨i, r, hr, rfl⟩ := h.mem_state.mp hst
    exact ⟨r, hr, hterm⟩
  · rintro ⟨r, hr, hterm⟩
    exact ⟨_, h.mem_state.mpr ⟨id, r, hr, rfl⟩, rfl, hterm⟩

/-- An event belongs to a migration. -/
theorem isSome_of_event (h : Represents t s) {ev : EventRow} (hev : ev ∈ t.migrationEvent) :
    (s.rows ev.migrationId).isSome = true := by
  have hmem : (ev.fromState, ev.toState) ∈ s.eventTexts ev.migrationId := by
    rw [← h.event]
    exact List.mem_map.mpr ⟨ev, List.mem_filter.mpr ⟨hev, decide_eq_true rfl⟩, rfl⟩
  unfold Store.eventTexts at hmem
  cases hr : s.rows ev.migrationId with
  | none => simp [hr] at hmem
  | some r => rfl

/-- Only the migrations there are count. -/
theorem deleteMany_congr (h : Represents t s)
    (hids : ∀ i, (s.rows i).isSome = true → (i ∈ ids ↔ i ∈ ids')) :
    t.deleteMany ids = t.deleteMany ids' := by
  have hnot : ∀ i, (s.rows i).isSome = true → decide (i ∉ ids) = decide (i ∉ ids') :=
    fun i hi => decide_eq_decide.mpr (not_congr (hids i hi))
  unfold Tables.deleteMany
  congr 1
  · refine List.filter_congr fun m hm => hnot _ ?_
    obtain ⟨i, r, hr, rfl⟩ := h.mem_migration.mp hm
    exact Option.isSome_iff_exists.mpr ⟨r, hr⟩
  · refine List.filter_congr fun st hst => hnot _ ?_
    obtain ⟨i, r, hr, rfl⟩ := h.mem_state.mp hst
    exact Option.isSome_iff_exists.mpr ⟨r, hr⟩
  · exact List.filter_congr fun ev hev => hnot _ (isSome_of_event h hev)

/-- What a load says of the store. -/
theorem loaded_cases (s : Store) (id : Id) :
    (loaded s id = .error .notFound ∧ s.rows id = none) ∨
      ∃ rec r, loaded s id = .ok rec ∧ s.rows id = some r ∧ rec.terminal = r.terminal := by
  unfold loaded Store.load
  cases hr : s.rows id with
  | none => exact Or.inl ⟨rfl, rfl⟩
  | some r => exact Or.inr ⟨_, r, rfl, rfl, rfl⟩

end Rows

/-! ### The handler -/

section Handler
variable {c : Libs} {t t' : Tables} {s : Store} {tr : List (Event server)} {reply : Reply}

/-- The migrations with these ids have been removed, and none of them was running. -/
structure Removed (t t' : Tables) (uids ids : List Id) (reply : Reply) : Prop where
  reply : reply = ⟨204, ""⟩
  terminal : ∀ id ∈ ids, ¬Running t id
  tables : t' = t.deleteMany (uids ++ ids)

/-- **The answer to a list of ids**, by induction on it: `uids` are those that have been found. -/
theorem deleteEach_serves {raws : List String} {uids : List Id}
    (h : Runs (deleteEach c raws uids) tr reply) (hp : Path Serves t tr t') :
    Refused t t' reply ∨
      ∃ ids, raws.map c.parseID = ids.map some ∧ Removed t t' uids ids reply := by
  induction raws generalizing uids tr with
  | nil =>
    obtain ⟨x, tr', rfl, hx⟩ := runs_perform_bind.mp h
    obtain ⟨u, hserve, hrest⟩ := path_cons.mp hp
    cases hserve with
    | deleted hd =>
      obtain ⟨rfl, rfl⟩ := runs_ret.mp hx
      obtain rfl := path_nil.mp hrest
      exact Or.inr ⟨[], rfl, rfl, List.forall_mem_nil _, by rw [List.append_nil]; exact deleteMany_ok hd⟩
    | notDeleted hd =>
      obtain ⟨rfl, rfl⟩ := runs_ret.mp hx
      obtain rfl := path_nil.mp hrest
      exact Or.inl ⟨(by decide : 400 ≤ 500), rfl⟩
  | cons raw raws ih =>
    unfold deleteEach at h
    cases hid : c.parseID raw with
    | none =>
      rw [hid] at h
      obtain ⟨rfl, rfl⟩ := runs_ret.mp h
      obtain rfl := path_nil.mp hp
      exact Or.inl ⟨le_rfl, rfl⟩
    | some id =>
      rw [hid] at h
      obtain ⟨x, tr', rfl, hx⟩ := runs_perform_bind.mp h
      obtain ⟨u, hserve, hrest⟩ := path_cons.mp hp
      cases hserve with
      | loadFailed =>
        obtain ⟨rfl, rfl⟩ := runs_ret.mp hx
        obtain rfl := path_nil.mp hrest
        exact Or.inl ⟨(by decide : 400 ≤ 500), rfl⟩
      | @load s' _ hs' =>
        rcases loaded_cases s' id with ⟨hload, hnone⟩ | ⟨rec, r, hload, hsome, hterm⟩
        · -- an unknown id is passed over
          rw [hload] at hx
          refine (ih hx hrest).imp_right ?_
          rintro ⟨ids, hids, hrem⟩
          refine ⟨id :: ids, by simp [hid, hids], hrem.reply, ?_, ?_⟩
          · refine List.forall_mem_cons.mpr ⟨fun hrun => ?_, hrem.terminal⟩
            obtain ⟨r, hr', -⟩ := (running_iff hs').mp hrun
            rw [hnone] at hr'
            cases hr'
          · rw [hrem.tables]
            refine deleteMany_congr hs' fun i hi => ?_
            have hne : i ≠ id := fun heq => by simp [heq, hnone] at hi
            simp [hne]
        · rw [hload] at hx
          dsimp only at hx
          split_ifs at hx with hrec
          · refine (ih hx hrest).imp_right ?_
            rintro ⟨ids, hids, hrem⟩
            refine ⟨id :: ids, by simp [hid, hids], hrem.reply, ?_, ?_⟩
            · refine List.forall_mem_cons.mpr ⟨fun hrun => ?_, hrem.terminal⟩
              obtain ⟨r', hr', hfalse⟩ := (running_iff hs').mp hrun
              obtain rfl := Option.some.inj (hsome.symm.trans hr')
              rw [hterm, hfalse] at hrec
              cases hrec
            · rw [hrem.tables, List.append_assoc]
              rfl
          · obtain ⟨rfl, rfl⟩ := runs_ret.mp hx
            obtain rfl := path_nil.mp hrest
            exact Or.inl ⟨(by decide : 400 ≤ 409), rfl⟩

theorem deleteMigrations_serves {ctx : Ctx} (h : Runs (deleteMigrations c ctx) tr reply)
    (hp : Path Serves t tr t') : Refused t t' reply ∨ ∃ raws ids,
      c.ids ctx.request.body = .ok raws ∧ raws.map c.parseID = ids.map some ∧
        Removed t t' [] ids reply := by
  unfold deleteMigrations decoded at h
  cases hbody : c.ids ctx.request.body with
  | error err =>
    rw [hbody] at h
    obtain ⟨rfl, rfl⟩ := runs_ret.mp h
    obtain rfl := path_nil.mp hp
    exact Or.inl ⟨le_rfl, rfl⟩
  | ok raws =>
    rw [hbody] at h
    dsimp only at h
    split_ifs at h with hraws
    · obtain ⟨rfl, rfl⟩ := runs_ret.mp h
      obtain rfl := path_nil.mp hp
      exact Or.inl ⟨le_rfl, rfl⟩
    · refine (deleteEach_serves h hp).imp_right ?_
      rintro ⟨ids, hids, hrem⟩
      exact ⟨raws, ids, rfl, hids, hrem⟩

/-- An unknown id, and then a malformed one. -/
def mixedLibs : Libs :=
  { Viewers.fewLibs with
    parseID := fun raw => if raw = "0" then some 0 else none
    ids := fun _ => .ok ["0", "x"] }

end Handler

end MigrationSafety.Server.BulkDelete
