import Mathlib.Data.List.AList
import MigrationSafety.Lib.Histories
import MigrationSafety.StateMachine.Handlers

/-! # The service registry

The services registered for a migration, by the name under which they are, and the six calls that write
them. A call is its statements, one after the other, of which only the first few may be executed; what
has been decided about a service (`decision`) is said without the table.

* `serviceCounts_eq`, `allServicesReady_iff`: what the service gate is shown.
* `ready_as_decided_iff`: when services are counted as ready exactly as decided, in every state
  reached. -/

namespace MigrationSafety.Server.Registry

open MigrationSafety.Lib.Histories MigrationSafety.StateMachine.Signature
open MigrationSafety.StateMachine.Handlers

/-- A migration and the name of a service. -/
abbrev Key : Type := Id × String

/-- A registered service. -/
structure ServiceRegistration where
  id : ℕ
  schemaVersion : ℤ
  compatible : Bool := false
  registeredAt : ℕ
  lastHeartbeat : ℕ

structure ServiceHeartbeat where
  id : ℕ
  key : Key
  payload : String
  recordedAt : ℕ

/-- The two tables. There is one row for a key. -/
structure Services where
  rows : AList fun _ : Key => ServiceRegistration := ∅
  heartbeats : List ServiceHeartbeat := []

/-! ### The statements -/

/-- What the database fills in. -/
structure Defaults where
  id : ℕ
  now : ℕ

namespace Services

variable (t : Services) (k : Key) (d : Defaults)

/-- `UPDATE service_registry SET … WHERE migration_id = … AND service_name = …`. -/
def update (f : ServiceRegistration → ServiceRegistration) : Services :=
  match t.rows.lookup k with
  | none => t
  | some x => { t with rows := t.rows.insert k (f x) }

/-- `INSERT … ON CONFLICT (migration_id, service_name) DO UPDATE`; `compatible` is not mentioned. -/
def upsert (version : ℤ) : Services :=
  let row := match t.rows.lookup k with
    | none =>
      { id := d.id, schemaVersion := version, registeredAt := d.now, lastHeartbeat := d.now }
    | some x => { x with schemaVersion := version, lastHeartbeat := d.now }
  { t with rows := t.rows.insert k row }

def delete : Services := { t with rows := t.rows.erase k }

def insertHeartbeat (payload : String) : Services :=
  { t with heartbeats := t.heartbeats ++ [⟨d.id, k, payload, d.now⟩] }

/-- The counts of `AllServicesReady`: the services of a migration, and those of them that are
compatible. -/
def serviceCounts (m : Id) : ℕ × ℕ :=
  (t.rows.entries.countP fun x => x.1.1 = m,
    t.rows.entries.countP fun x => x.1.1 = m ∧ x.2.compatible = true)

/-- Is the service registered and compatible? -/
def ready : Bool := (t.rows.lookup k).any ServiceRegistration.compatible

end Services

/-- A call of the store. -/
inductive Call
  | registerService (k : Key) (version : ℤ)
  | updateServiceCompat (k : Key) (compatible : Bool)
  | markServiceIncompatible (k : Key)
  | heartbeatService (k : Key)
  | recordHeartbeat (k : Key) (payload : String)
  | removeService (k : Key)

/-- The statements of a call, in order. A heartbeat that is recorded sets the flag. -/
def Call.stmts (d : Defaults) : Call → List (Services → Services)
  | registerService k version => [fun t => t.upsert k d version]
  | updateServiceCompat k c =>
    [fun t => t.update k fun x => { x with compatible := c, lastHeartbeat := d.now }]
  | markServiceIncompatible k => [fun t => t.update k fun x => { x with compatible := false }]
  | heartbeatService k => [fun t => t.update k fun x => { x with lastHeartbeat := d.now }]
  | recordHeartbeat k payload =>
    [fun t => t.update k fun x => { x with lastHeartbeat := d.now, compatible := true },
      fun t => t.insertHeartbeat k d payload]
  | removeService k => [fun t => t.delete k]

/-- A call of which the first `executed` statements are executed. -/
structure Step where
  call : Call
  defaults : Defaults
  executed : ℕ

def Step.run (t : Services) (x : Step) : Services :=
  ((x.call.stmts x.defaults).take x.executed).foldl (fun t f => f t) t

/-- **The registry after these calls.** -/
def reached (h : List Step) : Services := h.foldl Step.run {}

/-! ### What has been decided -/

/-- The `schema_version` a service is registered with, and the last decision since. -/
structure Decision where
  version : Option ℤ := none
  compatible : Bool := false

/-- **What a call decides about a service**: nothing, unless it registers it with a new
`schema_version`, says whether it is compatible, or removes it. -/
def Decision.after (k : Key) (d : Decision) : Call → Decision
  | .registerService k' version =>
    if k' = k ∧ d.version ≠ some version then { version := some version } else d
  | .updateServiceCompat k' c => if k' = k then { d with compatible := c } else d
  | .markServiceIncompatible k' => if k' = k then { d with compatible := false } else d
  | .removeService k' => if k' = k then {} else d
  | .heartbeatService _ | .recordHeartbeat .. => d

/-- The decision after the calls that have been executed. -/
def decision (k : Key) (h : List Step) : Decision :=
  h.foldl (fun d x => if 0 < x.executed then d.after k x.call else d) {}

/-- **Only a decision makes a service compatible**: a registered service is counted as ready if and
only if it is decided to be compatible. -/
def AsDecided (h : List Step) : Prop :=
  ∀ k ∈ (reached h).rows, (reached h).ready k = (decision k h).compatible

variable {t : Services} {k k' : Key} {d : Defaults} {c : Call} {x : Step} {h : List Step}

/-- **What `AllServicesReady` counts**: the services of the migration, and the ready ones. -/
theorem serviceCounts_eq (t : Services) (m : Id) : t.serviceCounts m =
    (t.rows.keys.countP fun k => k.1 = m, t.rows.keys.countP fun k => k.1 = m ∧ t.ready k = true) := by
  unfold Services.serviceCounts AList.keys List.keys
  rw [List.countP_map, List.countP_map]
  refine Prod.ext rfl (List.countP_congr fun x hx => ?_)
  have hlookup : t.rows.lookup x.1 = some x.2 := AList.mem_lookup_iff.mpr hx
  simp [Services.ready, hlookup]

/-! ### One row at a time -/

/-- What the first statement of a call makes of the row of a service. -/
def Call.onRow (d : Defaults) (k : Key) (row : Option ServiceRegistration) :
    Call → Option ServiceRegistration
  | registerService k' version =>
    if k' = k then
      some (row.elim
        { id := d.id, schemaVersion := version, registeredAt := d.now, lastHeartbeat := d.now }
        fun x => { x with schemaVersion := version, lastHeartbeat := d.now })
    else row
  | updateServiceCompat k' c =>
    if k' = k then row.map fun x => { x with compatible := c, lastHeartbeat := d.now } else row
  | markServiceIncompatible k' =>
    if k' = k then row.map fun x => { x with compatible := false } else row
  | heartbeatService k' => if k' = k then row.map fun x => { x with lastHeartbeat := d.now } else row
  | recordHeartbeat k' _ =>
    if k' = k then row.map fun x => { x with lastHeartbeat := d.now, compatible := true } else row
  | removeService k' => if k' = k then none else row

theorem lookup_update (f : ServiceRegistration → ServiceRegistration) :
    (t.update k' f).rows.lookup k =
      if k' = k then (t.rows.lookup k).map f else t.rows.lookup k := by
  unfold Services.update
  split_ifs with hk
  · subst hk
    cases hx : t.rows.lookup k' with
    | none => simp [hx]
    | some x => simp
  · cases t.rows.lookup k' with
    | none => rfl
    | some x => exact AList.lookup_insert_ne (Ne.symm hk)

theorem lookup_upsert {version : ℤ} : (t.upsert k' d version).rows.lookup k =
    Call.onRow d k (t.rows.lookup k) (.registerService k' version) := by
  unfold Services.upsert Call.onRow
  dsimp only
  split_ifs with hk
  · subst hk
    cases t.rows.lookup k' <;> simp
  · exact AList.lookup_insert_ne (Ne.symm hk)

theorem lookup_delete : (t.delete k').rows.lookup k =
    if k' = k then none else t.rows.lookup k := by
  unfold Services.delete
  split_ifs with hk
  · subst hk
    exact AList.lookup_erase k' t.rows
  · exact AList.lookup_erase_ne (Ne.symm hk)

/-- **A call on a row**: only its first statement matters. -/
theorem lookup_run : (x.run t).rows.lookup k =
    if 0 < x.executed then x.call.onRow x.defaults k (t.rows.lookup k)
    else t.rows.lookup k := by
  obtain ⟨call, d, _ | n⟩ := x
  · rfl
  · rw [if_pos (Nat.succ_pos n)]
    cases call <;> simp only [Step.run, Call.stmts, List.take_succ_cons, List.take_nil,
      List.foldl_cons, List.foldl_nil]
    case registerService => exact lookup_upsert
    case recordHeartbeat =>
      cases n with
      | zero => exact lookup_update _
      | succ n =>
        rw [List.take_succ_cons, List.take_nil]
        exact lookup_update _
    case removeService => exact lookup_delete
    all_goals exact lookup_update _

/-! ### One more call -/

theorem reached_snoc : reached (h ++ [x]) = x.run (reached h) := by simp [reached]

theorem decision_snoc : decision k (h ++ [x]) =
    if 0 < x.executed then (decision k h).after k x.call else decision k h := by simp [decision]

/-- The row carries the version that has been decided on. -/
def Versioned (row : Option ServiceRegistration) (d : Decision) : Prop :=
  row.map ServiceRegistration.schemaVersion = d.version

/-- The row, if there is one, carries the flag that has been decided on. -/
def Flagged (row : Option ServiceRegistration) (d : Decision) : Prop :=
  ∀ x ∈ row, x.compatible = d.compatible

/-- **The service stays as decided**: a heartbeat is recorded only for a service that is not registered
or compatible by decision, and a new `schema_version` is registered only for one that is not registered
or not compatible. -/
def Decision.Keeps (d : Decision) : Call → Prop
  | .recordHeartbeat .. => d.version = none ∨ d.compatible = true
  | .registerService _ version =>
    d.version = none ∨ d.version = some version ∨ d.compatible = false
  | _ => True

/-- The service a call is about. -/
def Call.key : Call → Key
  | registerService k _ | updateServiceCompat k _ | markServiceIncompatible k | heartbeatService k
  | recordHeartbeat k _ | removeService k => k

/-- A call about another service. -/
theorem onRow_of_ne {row : Option ServiceRegistration} (hk : c.key ≠ k) : c.onRow d k row = row := by
  cases c <;> exact if_neg hk

theorem after_of_ne {e : Decision} (hk : c.key ≠ k) : e.after k c = e := by
  cases c with
  | registerService k' version => exact if_neg fun h => hk h.1
  | heartbeatService k' => rfl
  | recordHeartbeat k' payload => rfl
  | updateServiceCompat k' b => exact if_neg hk
  | markServiceIncompatible k' => exact if_neg hk
  | removeService k' => exact if_neg hk

theorem versioned_onRow {row : Option ServiceRegistration} {e : Decision} (hv : Versioned row e) :
    Versioned (c.onRow d k row) (e.after k c) := by
  by_cases hk : c.key = k
  · subst hk
    unfold Versioned at hv ⊢
    cases c with
    | registerService k version =>
      by_cases hnew : e.version = some version <;> cases row <;>
        simp_all [Call.onRow, Call.key, Decision.after]
    | removeService k => simp [Call.onRow, Call.key, Decision.after]
    | _ => cases row <;> simp_all [Call.onRow, Call.key, Decision.after]
  · rwa [onRow_of_ne hk, after_of_ne hk]

/-- **One call on one row.** -/
theorem flagged_onRow {row : Option ServiceRegistration} {e : Decision} (hv : Versioned row e)
    (hf : Flagged row e) :
    Flagged (c.onRow d k row) (e.after k c) ↔ (c.key = k → e.Keeps c) := by
  by_cases hk : c.key = k
  · subst hk
    cases row with
    | none =>
      have hnone : e.version = none := hv.symm
      cases c <;> simp [Flagged, Call.onRow, Call.key, Decision.after, Decision.Keeps, hnone]
    | some x =>
      have hsome : e.version = some x.schemaVersion := hv.symm
      have hx : x.compatible = e.compatible := hf x rfl
      cases c with
      | registerService k version =>
        -- the flag is kept, also where the version is new
        by_cases hnew : x.schemaVersion = version <;>
          simp [Flagged, Call.onRow, Call.key, Decision.after, Decision.Keeps, hsome, hnew, hx]
      | recordHeartbeat k payload =>
        simp [Flagged, Call.onRow, Call.key, Decision.after, Decision.Keeps, hsome]
      | _ => simp [Flagged, Call.onRow, Call.key, Decision.after, Decision.Keeps, hx]
  · rw [onRow_of_ne hk, after_of_ne hk]
    exact iff_of_true hf fun h => absurd h hk

theorem versioned_reached : Versioned ((reached h).rows.lookup k) (decision k h) := by
  induction h using List.reverseRecOn with
  | nil => rfl
  | append_singleton h x ih =>
    rw [reached_snoc, decision_snoc, lookup_run]
    split_ifs with hx
    · exact versioned_onRow ih
    · exact ih

theorem asDecided_iff : AsDecided h ↔ ∀ k, Flagged ((reached h).rows.lookup k) (decision k h) := by
  refine forall_congr' fun k => ?_
  rw [← AList.lookup_isSome]
  unfold Services.ready Flagged
  cases (reached h).rows.lookup k with
  | none => simp
  | some x => simp

/-- A call whose statements are executed leaves every service as decided. -/
def Kept (h : List Step) (x : Step) : Prop :=
  0 < x.executed → (decision x.call.key h).Keeps x.call

/-- **One more call.** -/
theorem asDecided_snoc (hd : AsDecided h) : AsDecided (h ++ [x]) ↔ Kept h x := by
  rw [asDecided_iff] at hd ⊢
  simp only [reached_snoc, decision_snoc, lookup_run]
  unfold Kept
  split_ifs with hx
  · simp only [flagged_onRow versioned_reached (hd _)]
    simp [hx]
  · exact iff_of_true hd fun h => absurd h hx

/-- **When only decisions make services compatible**: in every state reached a service is counted as
ready exactly as decided if and only if no heartbeat is recorded for a registered service that is not
compatible, and no compatible one is registered with a new `schema_version`. -/
theorem ready_as_decided_iff (h : List Step) :
    (∀ l, l <+: h → AsDecided l) ↔ Preceded Kept h :=
  forall_prefix_iff_preceded (asDecided_iff.mpr fun _ _ hx => by simp [reached] at hx)
    fun _ _ hl => asDecided_snoc hl

/-- **What a cutover is shown**, as long as everything is as decided: some service is registered, and
all of them are decided to be compatible. -/
theorem allServicesReady_iff (hd : AsDecided h) (m : Id) :
    allServicesReady ((reached h).serviceCounts m) = true ↔
      (∃ k ∈ (reached h).rows, k.1 = m) ∧
        ∀ k ∈ (reached h).rows, k.1 = m → (decision k h).compatible = true := by
  have hcount : ((reached h).serviceCounts m).2 = ((reached h).rows.keys.filter fun k => k.1 = m).countP
      fun k => (decision k h).compatible := by
    rw [serviceCounts_eq, List.countP_filter]
    refine List.countP_congr fun k hk => ?_
    rw [hd k hk]
    simp [and_comm]
  have htotal : ((reached h).serviceCounts m).1 =
      ((reached h).rows.keys.filter fun k => k.1 = m).length := by
    rw [serviceCounts_eq, List.countP_eq_length_filter]
  rw [allServicesReady, hcount, htotal]
  simp only [Bool.and_eq_true, decide_eq_true_eq, List.length_pos_iff_exists_mem, List.mem_filter]
  rw [eq_comm, List.countP_eq_length, and_comm]
  simp [AList.mem_keys]

/-- A service is registered, and a heartbeat of it is recorded. -/
def beatFresh : List Step :=
  [⟨.registerService (0, "orders") 1, ⟨0, 0⟩, 1⟩, ⟨.recordHeartbeat (0, "orders") "{}", ⟨1, 1⟩, 2⟩]

/-- **A recorded heartbeat makes a service ready.** -/
theorem heartbeat_makes_ready : ¬∀ h : List Step, AsDecided h := by
  intro hall
  have h := hall beatFresh (0, "orders") (by decide)
  exact absurd h (by decide)

end MigrationSafety.Server.Registry
