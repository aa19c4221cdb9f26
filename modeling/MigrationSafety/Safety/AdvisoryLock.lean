import Mathlib.Data.Fintype.Basic
import MigrationSafety.Lib.Paths
import MigrationSafety.Lib.SessionLocks
import MigrationSafety.Safety.Executor

/-! # DDL under an advisory lock

`ExecDDLWithAdvisoryLock` takes the lock of a migration, executes its DDL and lets go of the lock. Each
of the three goes through the pool on its own: a query outside a transaction gets any session nobody is
using. An advisory lock belongs to a session, which may take it again and is the only one that can let
go of it.

So two calls for one migration are both let in if the second is handed the session of the first, and an
unlock that is handed another session leaves the lock behind (`not_holds`). As long as neither happens
the calls exclude each other and leave nothing behind (`holds_of_pinned`). -/

namespace MigrationSafety.Safety.AdvisoryLock

open MigrationSafety.Lib.Effects MigrationSafety.Lib.Paths MigrationSafety.Lib.SessionLocks
open MigrationSafety.Lib.Binary64 MigrationSafety.Safety.Executor
open MigrationSafety.StateMachine.Signature

/-! ### Keys -/

/-- A `[16]byte`. -/
abbrev UUID := Vector UInt8 16

/-- `int64(b)<<shift`. -/
def byteAt (b : UInt8) (shift : Int64) : Int64 := b.toUInt64.toInt64 <<< shift

/-- The key of a migration's lock, from the first half of its id. -/
def lockKey (migrationID : UUID) : Int64 :=
  let key := byteAt migrationID[0] 56 ||| byteAt migrationID[1] 48 |||
    byteAt migrationID[2] 40 ||| byteAt migrationID[3] 32 |||
    byteAt migrationID[4] 24 ||| byteAt migrationID[5] 16 |||
    byteAt migrationID[6] 8 ||| byteAt migrationID[7] 0
  if key < 0 then -key else key

/-! ### Calls -/

/-- Why `ExecDDLWithAdvisoryLock` fails. -/
inductive LockError
  | acquire
  | alreadyHeld
  | ddl (e : DDLError)

/-- Where a call of `ExecDDLWithAdvisoryLock` is. -/
inductive Phase
  | locking
  | executing (p : Code (Except DDLError Unit))
  | unlocking (out : Except DDLError Unit)
  | returned (out : Except LockError Unit)

/-- `ExecDDL` with `p` to do; the deferred unlock follows it. -/
def resume : Code (Except DDLError Unit) → Phase
  | .ret out => .unlocking out
  | .call op k => .executing (.call op k)

/-- Does the call ask the database next? Only the pauses between two attempts do not. -/
def Phase.asks : Phase → Bool
  | locking => true
  | executing (.call op _) => op.kind ≠ .clock
  | executing (.ret _) => false
  | unlocking _ => true
  | returned _ => false

def Phase.isExecuting : Phase → Bool
  | executing _ => true
  | _ => false

/-- Between the lock and the end of the unlock. -/
def Phase.inside : Phase → Bool
  | executing _ => true
  | unlocking _ => true
  | _ => false

structure Call (ι : Type) where
  migrationID : UUID
  stmt : String
  phase : Phase := .locking
  /-- The session of the query under way. -/
  query : Option ι := none
  /-- The session of the open transaction. -/
  tx : Option ι := none

/-- The pool, the database behind it, and the calls. -/
structure World (ι : Type) where
  locks : Holds ι Int64 ℕ
  user : ι → Option ℕ
  calls : ℕ → Call ι

/-! ### Steps -/

/-- What can happen to a call. -/
inductive Act (ι : Type)
  /-- Its next query is sent, on a session. -/
  | send (c : ℕ) (i : ι)
  /-- `pg_try_advisory_lock` is answered. -/
  | lock (c : ℕ)
  /-- An operation of `ExecDDL` is answered. -/
  | answer (c : ℕ) (ev : Event engine)
  /-- `pg_advisory_unlock` is answered. -/
  | unlock (c : ℕ)
  /-- The query of the lock or of the unlock fails. -/
  | fail (c : ℕ)

namespace World

variable {ι : Type} [DecidableEq ι]

def key (w : World ι) (c : ℕ) : Int64 := lockKey (w.calls c).migrationID

def setCall (w : World ι) (c : ℕ) (call : Call ι) : World ι :=
  { w with calls := Function.update w.calls c call }

/-- The session is handed back, unless a transaction is open on it. -/
def giveBack (w : World ι) (i : ι) (tx : Option ι) : World ι :=
  if tx = some i then w else { w with user := Function.update w.user i none }

/-- The session of the transaction after an answered operation: `ExecDDL` ends it when it returns. -/
def txAfter (call : Call ι) (i : ι) (op : Op) : Code (Except DDLError Unit) → Option ι
  | .ret _ => none
  | .call _ _ => if op = .beginTx then some i else call.tx

/-- A query that ends the phase of a call, and its session. -/
def finish (w : World ι) (c : ℕ) (phase : Phase) : World ι :=
  let call := w.calls c
  let w' := w.setCall c { call with phase := phase, query := none }
  match call.query with
  | some i => w'.giveBack i none
  | none => w'

/-- The operation `op` has been answered, and `p` remains of `ExecDDL`. -/
def answered (w : World ι) (c : ℕ) (op : Op) (p : Code (Except DDLError Unit)) : Option (World ι) :=
  let call := w.calls c
  match call.query with
  | some i =>
    let tx := txAfter call i op p
    some ((w.setCall c { call with phase := resume p, query := none, tx := tx }).giveBack i tx)
  | none =>
    if op.kind = .clock then some (w.setCall c { call with phase := resume p }) else none

instance [Fintype ι] (h : Holds ι Int64 ℕ) (i : ι) (k : Int64) : Decidable (h.Free i k) :=
  inferInstanceAs (Decidable (∀ j, j ≠ i → h j k = []))

/-- **One step of one call.** -/
def step [Fintype ι] (w : World ι) : Act ι → Option (World ι)
  | .send c i =>
    let call := w.calls c
    if call.query = none ∧ call.phase.asks ∧
        (call.tx = some i ∨ call.tx = none ∧ w.user i = none) then
      some { w.setCall c { call with query := some i } with user := Function.update w.user i (some c) }
    else none
  | .lock c =>
    let call := w.calls c
    match call.phase, call.query with
    | .locking, some i =>
      if w.locks.Free i (w.key c) then
        some { w.finish c (resume (execDDL call.stmt)) with locks := w.locks.push i (w.key c) c }
      else some (w.finish c (.returned (.error .alreadyHeld)))
    | _, _ => none
  | .answer c ev =>
    match (w.calls c).phase with
    | .executing (.call op k) => if h : ev.op = op then w.answered c op (k (h ▸ ev.ans)) else none
    | _ => none
  | .unlock c =>
    let call := w.calls c
    match call.phase, call.query with
    | .unlocking out, some i =>
      some { w.finish c (.returned (out.mapError .ddl)) with locks := w.locks.pop i (w.key c) }
    | _, _ => none
  | .fail c =>
    match (w.calls c).phase with
    | .locking => some (w.finish c (.returned (.error .acquire)))
    | .unlocking out => some (w.finish c (.returned (out.mapError .ddl)))
    | _ => none

/-! ### What the lock is for -/

/-- Two calls for one migration are not in `ExecDDL` at the same time. -/
def Exclusive (w : World ι) : Prop :=
  ∀ c d, c ≠ d → (w.calls c).migrationID = (w.calls d).migrationID →
    ¬((w.calls c).phase.isExecuting ∧ (w.calls d).phase.isExecuting)

/-- A call that has returned has left no lock. -/
def Released (w : World ι) : Prop :=
  ∀ c out, (w.calls c).phase = .returned out → ∀ i k, c ∉ w.locks i k

/-- **The lock stays with its session**: it is granted on a session that does not hold it yet, and the
unlock reaches the session that does. -/
def Pinned (w : World ι) : Act ι → Prop
  | .lock c => ∀ i ∈ (w.calls c).query, w.locks.Free i (w.key c) → w.locks i (w.key c) = []
  | .unlock c => ∀ i ∈ (w.calls c).query, c ∈ w.locks i (w.key c)
  | .fail c => (w.calls c).phase.inside = false
  | _ => True

end World

/-- Nobody has called the database yet. -/
def start {ι : Type} (ids : ℕ → UUID) (stmts : ℕ → String) : World ι where
  locks _ _ := []
  user _ := none
  calls c := { migrationID := ids c, stmt := stmts c }

/-! ### What a step does -/

section Steps
open World
variable {ι : Type} {w w' : World ι} {a : Act ι} {c d : ℕ} {p : Code (Except DDLError Unit)}
  {phase : Phase}

@[simp] theorem inside_resume : (resume p).inside = true := by
  cases p <;> rfl

theorem inside_of_isExecuting (h : phase.isExecuting = true) : phase.inside = true := by
  cases phase <;> first | rfl | cases h

@[simp] theorem setCall_calls {call : Call ι} : (w.setCall c call).calls = Function.update w.calls c call :=
  rfl

@[simp] theorem setCall_locks {call : Call ι} : (w.setCall c call).locks = w.locks := rfl

/-- What a step of the call `c` leaves of it: its migration, and the part it is in. -/
structure Moves (w w' : World ι) (c : ℕ) (inside : Bool) : Prop where
  others : ∀ d, d ≠ c → w'.calls d = w.calls d
  migrationID : (w'.calls c).migrationID = (w.calls c).migrationID
  inside : (w'.calls c).phase.inside = inside

theorem moves_update {call : Call ι} {inside : Bool} (h : w'.calls = Function.update w.calls c call)
    (hid : call.migrationID = (w.calls c).migrationID) (hinside : call.phase.inside = inside) :
    Moves w w' c inside where
  others d hd := by rw [h, Function.update_of_ne hd]
  migrationID := by rw [h, Function.update_self, hid]
  inside := by rw [h, Function.update_self, hinside]

theorem Moves.key_eq {inside : Bool} (h : Moves w w' c inside) : w'.key = w.key := by
  funext d
  unfold key
  by_cases hd : d = c
  · rw [hd, h.migrationID]
  · rw [h.others d hd]

theorem Moves.inside_iff {inside : Bool} (h : Moves w w' c inside) (d : ℕ) :
    (w'.calls d).phase.inside = true ↔ if d = c then inside = true else (w.calls d).phase.inside = true := by
  split_ifs with hd
  · rw [hd, h.inside]
  · rw [h.others d hd]

/-- The locks are those of the calls between their lock and the end of their unlock. -/
def Kept (w : World ι) : Prop := Owned w.locks w.key fun c => (w.calls c).phase.inside = true

theorem kept_start {ids : ℕ → UUID} {stmts : ℕ → String} : Kept (start ids stmts : World ι) :=
  owned_empty fun _ => by simp [start, Phase.inside]

/-- A step that leaves the locks and the insider alone. -/
theorem Kept.congr (hk : Kept w) (hlocks : w'.locks = w.locks)
    (hm : Moves w w' c (w.calls c).phase.inside) : Kept w' := by
  unfold Kept
  rw [hlocks, hm.key_eq]
  refine Owned.congr hk fun d => ?_
  rw [hm.inside_iff]
  split_ifs with hd
  · rw [hd]
  · rfl

theorem Kept.exclusive (hk : Kept w) : Exclusive w := by
  rintro c d hcd hid ⟨hc, hd⟩
  exact hcd (Owned.exclusive hk (inside_of_isExecuting hc) (inside_of_isExecuting hd)
    (congrArg lockKey hid))

theorem Kept.released (hk : Kept w) : Released w := by
  intro c out hc i k
  exact Owned.released hk (by rw [hc]; simp [Phase.inside]) i k

variable [DecidableEq ι]

@[simp] theorem giveBack_calls {i : ι} {tx : Option ι} : (w.giveBack i tx).calls = w.calls := by
  unfold giveBack
  split_ifs <;> rfl

@[simp] theorem giveBack_locks {i : ι} {tx : Option ι} : (w.giveBack i tx).locks = w.locks := by
  unfold giveBack
  split_ifs <;> rfl

theorem finish_calls : (w.finish c phase).calls =
    Function.update w.calls c { w.calls c with phase := phase, query := none } := by
  simp only [finish]
  split <;> simp

@[simp] theorem finish_locks : (w.finish c phase).locks = w.locks := by
  simp only [finish]
  split <;> simp

/-- **Every step** is a step of one call, which leaves the locks alone or gets or drops its own. -/
theorem step_cases [Fintype ι] (h : w.step a = some w') : ∃ c,
    (w'.locks = w.locks ∧ Moves w w' c (w.calls c).phase.inside) ∨
    (w'.locks = w.locks ∧ (w.calls c).phase.inside = false ∧ Moves w w' c false) ∨
    (∃ i, a = .lock c ∧ i ∈ (w.calls c).query ∧ w.locks.Free i (w.key c) ∧
      w'.locks = w.locks.push i (w.key c) c ∧ Moves w w' c true) ∨
    (∃ i, a = .unlock c ∧ i ∈ (w.calls c).query ∧ w'.locks = w.locks.pop i (w.key c) ∧
      Moves w w' c false) ∨
    (a = .fail c ∧ (w.calls c).phase.inside = true) := by
  cases a with
  | send c i =>
    refine ⟨c, Or.inl ?_⟩
    simp only [step] at h
    split_ifs at h
    cases h
    exact ⟨rfl, moves_update rfl rfl rfl⟩
  | lock c =>
    refine ⟨c, Or.inr ?_⟩
    simp only [step] at h
    split at h
    · rename_i i hphase hquery
      split_ifs at h with hfree <;> cases h
      · exact Or.inr (Or.inl ⟨i, rfl, hquery, hfree, rfl,
          moves_update finish_calls rfl (inside_resume (p := execDDL _))⟩)
      · exact Or.inl ⟨finish_locks, by rw [hphase]; rfl, moves_update finish_calls rfl rfl⟩
    · cases h
  | answer c ev =>
    refine ⟨c, Or.inl ?_⟩
    simp only [step] at h
    split at h
    · rename_i op k hphase
      split_ifs at h with hop
      rw [hphase]
      simp only [answered] at h
      split at h
      · cases h
        exact ⟨giveBack_locks, moves_update giveBack_calls rfl inside_resume⟩
      · split_ifs at h
        cases h
        exact ⟨rfl, moves_update rfl rfl inside_resume⟩
    · cases h
  | unlock c =>
    refine ⟨c, Or.inr (Or.inr (Or.inr (Or.inl ?_)))⟩
    simp only [step] at h
    split at h
    · rename_i out i hphase hquery
      cases h
      exact ⟨i, rfl, hquery, rfl, moves_update finish_calls rfl rfl⟩
    · cases h
  | fail c =>
    simp only [step] at h
    split at h
    · rename_i hphase
      cases h
      exact ⟨c, Or.inr (Or.inl ⟨finish_locks, by rw [hphase]; rfl, moves_update finish_calls rfl rfl⟩)⟩
    · rename_i out hphase
      exact ⟨c, Or.inr (Or.inr (Or.inr (Or.inr ⟨rfl, by rw [hphase]; rfl⟩)))⟩
    · cases h

/-! ### The calls that keep to their sessions -/

/-- **One step**, pinned. -/
theorem Kept.step [Fintype ι] (hk : Kept w) (h : w.step a = some w') (hp : Pinned w a) : Kept w' := by
  obtain ⟨c, hc⟩ := step_cases h
  rcases hc with ⟨hlocks, hm⟩ | ⟨hlocks, hout, hm⟩ | ⟨i, rfl, hquery, hfree, hlocks, hm⟩ |
    ⟨i, rfl, hquery, hlocks, hm⟩ | ⟨rfl, hin⟩
  · exact hk.congr hlocks hm
  · exact hk.congr hlocks (hout ▸ hm)
  · unfold Kept
    rw [hlocks, hm.key_eq]
    refine Owned.push hk hfree (hp i hquery hfree) fun d => ?_
    rw [hm.inside_iff]
    by_cases hd : d = c <;> simp [hd]
  · unfold Kept
    rw [hlocks, hm.key_eq]
    refine Owned.pop hk (hp i hquery) fun d => ?_
    rw [hm.inside_iff]
    by_cases hd : d = c <;> simp [hd]
  · rw [show (w.calls c).phase.inside = false from hp] at hin
    cases hin

/-- **A lock that stays with its session** excludes and is let go of: in every run, whatever sessions
the queries get and however the calls interleave. -/
theorem holds_of_pinned [Fintype ι] {ids : ℕ → UUID} {stmts : ℕ → String} {as : List (Act ι)}
    (h : Path (Guarded World.step Pinned) (start ids stmts) as w) : Exclusive w ∧ Released w := by
  have hk : Kept w := h.invariant kept_start fun _ _ _ hk hs => hk.step hs.1 hs.2
  exact ⟨hk.exclusive, hk.released⟩

end Steps

/-! ### Two sessions -/

instance {ι : Type} [DecidableEq ι] [Fintype ι] (w : World ι) : (a : Act ι) → Decidable (w.Pinned a)
  | .send .. | .answer .. => isTrue trivial
  | .lock c => inferInstanceAs (Decidable
      (∀ i ∈ (w.calls c).query, w.locks.Free i (w.key c) → w.locks i (w.key c) = []))
  | .unlock c => inferInstanceAs (Decidable (∀ i ∈ (w.calls c).query, c ∈ w.locks i (w.key c)))
  | .fail c => inferInstanceAs (Decidable ((w.calls c).phase.inside = false))

/-- A query of a call on a session, answered. -/
def query (c : ℕ) (i : Bool) (ev : Event engine) : List (Act Bool) := [.send c i, .answer c ev]

/-- A call up to its statement: it locks on the session `i` and executes on `j`. -/
def upToStatement (c : ℕ) (i j : Bool) : List (Act Bool) :=
  [.send c i, .lock c] ++ query c j ⟨.lockWaiting, some 0⟩ ++
    query c j ⟨.replicationLag, some (Float64.ofInt 0)⟩ ++ query c j ⟨.beginTx, true⟩ ++
    query c j ⟨.setLocal (setTimeoutSQL "LOCAL " "lock_timeout" defaultDDLConfig.lockTimeout), true⟩ ++
    query c j ⟨.setLocal (setTimeoutSQL "LOCAL " "statement_timeout"
      defaultDDLConfig.statementTimeout), true⟩ ++ [.send c j]

/-- Its statement, the commit, and the unlock on `i`. -/
def fromStatement (c : ℕ) (i j : Bool) (stmt : String) : List (Act Bool) :=
  [.answer c ⟨.txExec stmt, true⟩] ++ query c j ⟨.commit stmt, true⟩ ++ [.send c i, .unlock c]

/-- Every call is for the same migration and the same statement. -/
def alike : World Bool := start (fun _ => Vector.replicate 16 1) fun _ => "DROP TABLE orders"

theorem holds_of_pinned_alike : ∃ w, Path (Guarded World.step World.Pinned) alike
    (upToStatement 0 false true ++ fromStatement 0 false true "DROP TABLE orders") w ∧
    w.Exclusive ∧ w.Released := by
  have hrun : ((runs World.step (fun w a => decide (World.Pinned w a)) alike
      (upToStatement 0 false true ++ fromStatement 0 false true "DROP TABLE orders")).any
      fun _ => true) = true := by
    decide +kernel
  obtain ⟨w, hw, -⟩ := exists_path_of_any (fun _ _ => of_decide_eq_true) hrun
  exact ⟨w, hw, holds_of_pinned hw⟩

/-- The statement of the call is being executed. -/
def Call.inStatement {ι : Type} (call : Call ι) : Bool :=
  match call.phase with
  | .executing (.call op _) => op.executes && call.query.isSome
  | _ => false

/-- The call has succeeded. -/
def Call.succeeded {ι : Type} (call : Call ι) : Bool :=
  match call.phase with
  | .returned (.ok _) => true
  | _ => false

theorem isExecuting_of_inStatement {ι : Type} {call : Call ι} (h : call.inStatement = true) :
    call.phase.isExecuting = true := by
  unfold Call.inStatement at h
  split at h
  · rename_i hphase
    rw [hphase]
    rfl
  · cases h

theorem returned_of_succeeded {ι : Type} {call : Call ι} (h : call.succeeded = true) :
    ∃ out, call.phase = .returned out := by
  unfold Call.succeeded at h
  split at h
  · exact ⟨_, by assumption⟩
  · cases h

/-- **Two calls for one migration execute their statements at the same time**: the second has been
handed the session that holds the lock. **And a call that has succeeded has left its lock**: its unlock
has been handed the other session. -/
theorem not_holds :
    (∃ as w, Path (Guarded World.step fun _ _ => True) alike as w ∧
      (w.calls 0).inStatement ∧ (w.calls 1).inStatement ∧ ¬w.Exclusive) ∧
    ∃ as w, Path (Guarded World.step fun _ _ => True) alike as w ∧ (w.calls 0).succeeded ∧ ¬w.Released := by
  constructor
  · have hrun : ((runs World.step (fun _ _ => true) alike
        (upToStatement 0 false true ++ upToStatement 1 false false)).any fun w =>
        ((w.calls 0).migrationID = (w.calls 1).migrationID) && (w.calls 0).inStatement &&
          (w.calls 1).inStatement) = true := by
      decide +kernel
    obtain ⟨w, hw, hP⟩ := exists_path_of_any_free hrun
    rw [Bool.and_eq_true, Bool.and_eq_true, decide_eq_true_eq] at hP
    obtain ⟨⟨hid, h0⟩, h1⟩ := hP
    refine ⟨_, w, hw, h0, h1, fun h => h 0 1 zero_ne_one hid ⟨?_, ?_⟩⟩
    · exact isExecuting_of_inStatement h0
    · exact isExecuting_of_inStatement h1
  · have hrun : ((runs World.step (fun _ _ => true) alike
        (upToStatement 0 false true ++ fromStatement 0 true true "DROP TABLE orders")).any fun w =>
        (w.calls 0).succeeded && decide (0 ∈ w.locks false (w.key 0))) = true := by
      decide +kernel
    obtain ⟨w, hw, hP⟩ := exists_path_of_any_free hrun
    rw [Bool.and_eq_true, decide_eq_true_eq] at hP
    obtain ⟨hsucc, hheld⟩ := hP
    obtain ⟨out, hout⟩ := returned_of_succeeded hsucc
    exact ⟨_, w, hw, hsucc, fun h => h 0 out hout _ _ hheld⟩

end MigrationSafety.Safety.AdvisoryLock
