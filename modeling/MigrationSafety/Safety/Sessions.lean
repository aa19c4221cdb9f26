import MigrationSafety.Lib.Worlds
import MigrationSafety.Safety.Executor

/-! # The sessions of the pool

The sessions `ExecDDL` works on: the pool hands each query outside a transaction any of its sessions,
and a transaction keeps the one it has begun on. `SET LOCAL` holds until the end of the transaction,
`SET` until somebody sets the session again. `own` is what a statement itself makes of the settings,
and `keyword` says whether CONCURRENTLY occurs in it as a keyword; both are left open.

A statement with CONCURRENTLY anywhere in its text gets its timeout on one session and may run on
another, and the timeout stays behind; so a statement is protected if and only if it has none
(`protected_iff`). -/

namespace MigrationSafety.Safety.Sessions

open MigrationSafety.Lib.Effects MigrationSafety.Lib.Paths MigrationSafety.Lib.Worlds
open MigrationSafety.Lib.Binary64 MigrationSafety.Sql.Text
open MigrationSafety.Safety.Executor MigrationSafety.StateMachine.Signature

/-! ### Settings -/

/-- The settings of a session: the value of each name. -/
abbrev Settings := List Char → List Char

/-- The name and the value of `SET … name = value`. -/
def assignment (sql : String) : List Char × List Char :=
  match (sql.toList.splitOn ' ').reverse with
  | value :: _ :: name :: _ => (name, value)
  | _ => ([], [])

def Settings.assign (st : Settings) (sql : String) : Settings :=
  Function.update st (assignment sql).1 (assignment sql).2

def lockTimeout : List Char := "lock_timeout".toList

def statementTimeout : List Char := "statement_timeout".toList

/-- A duration as a value. -/
def duration (d : ℤ) : List Char := ("'" ++ toString (d / millisecond) ++ "ms'").toList

/-- Both timeouts are the configured ones. -/
def Configured (st : Settings) : Prop :=
  st lockTimeout = duration defaultDDLConfig.lockTimeout ∧
    st statementTimeout = duration defaultDDLConfig.statementTimeout

/-! ### The pool -/

/-- A transaction: its session, the settings in force, and those it leaves when it commits. -/
structure Tx where
  session : ℕ
  inForce : Settings
  kept : Settings

structure Pool where
  sessions : ℕ → Settings
  tx : Option Tx := none

def Pool.set (p : Pool) (i : ℕ) (st : Settings) : Pool :=
  { p with sessions := Function.update p.sessions i st }

/-- **What an answered query does to the sessions**, on the session it has been given. -/
inductive Step (own : String → Settings → Settings) (p : Pool) : Event engine × ℕ → Pool → Prop
  | other {op : Op} {r : op.Ret} {i : ℕ} (h : op.kind ≠ .ddl) : Step own p (⟨op, r⟩, i) p
  | begin {i : ℕ} : Step own p (⟨.beginTx, true⟩, i)
      { p with tx := some ⟨i, p.sessions i, p.sessions i⟩ }
  | noBegin {i : ℕ} : Step own p (⟨.beginTx, false⟩, i) p
  | setLocal {sql : String} {tx : Tx} (h : p.tx = some tx) :
      Step own p (⟨.setLocal sql, true⟩, tx.session)
        { p with tx := some { tx with inForce := tx.inForce.assign sql } }
  | noSetLocal {sql : String} {i : ℕ} : Step own p (⟨.setLocal sql, false⟩, i) p
  | txExec {stmt : String} {tx : Tx} (h : p.tx = some tx) :
      Step own p (⟨.txExec stmt, true⟩, tx.session)
        { p with tx := some { tx with inForce := own stmt tx.inForce, kept := own stmt tx.kept } }
  | noTxExec {stmt : String} {i : ℕ} : Step own p (⟨.txExec stmt, false⟩, i) p
  /-- A commit may go unreported. -/
  | commit {stmt : String} {b : Bool} {tx : Tx} (h : p.tx = some tx) :
      Step own p (⟨.commit stmt, b⟩, tx.session) { p.set tx.session tx.kept with tx := none }
  | noCommit {stmt : String} {i : ℕ} : Step own p (⟨.commit stmt, false⟩, i) { p with tx := none }
  | setTimeout {sql : String} {b : Bool} {i : ℕ} :
      Step own p (⟨.setTimeout sql, b⟩, i) (p.set i ((p.sessions i).assign sql))
  | noSetTimeout {sql : String} {i : ℕ} : Step own p (⟨.setTimeout sql, false⟩, i) p
  | poolExec {stmt : String} {b : Bool} {i : ℕ} :
      Step own p (⟨.poolExec stmt, b⟩, i) (p.set i (own stmt (p.sessions i)))
  | noPoolExec {stmt : String} {i : ℕ} : Step own p (⟨.poolExec stmt, false⟩, i) p

/-- A statement is executed under both timeouts. -/
def Timed (p : Pool) : Event engine × ℕ → Prop
  | (⟨.txExec _, _⟩, _) => ∃ tx, p.tx = some tx ∧ Configured tx.inForce
  | (⟨.poolExec _, _⟩, i) => Configured (p.sessions i)
  | _ => True

/-- A statement outside a transaction has the keyword. -/
def Outside (keyword : String → Prop) : Event engine × ℕ → Prop
  | (⟨.poolExec stmt, _⟩, _) => keyword stmt
  | _ => True

/-- **The statement is protected**: whatever the sessions are, whichever of them is handed out and
whatever fails, every execution runs under both timeouts, none runs outside a transaction without the
keyword, and in the end every session is as it was. -/
def Protected (keyword : String → Prop) (own : String → Settings → Settings) (stmt : String) : Prop :=
  ∀ (p p' : Pool) (l : List (Event engine × ℕ)) (out : Except DDLError Unit),
    Path (Step own) p l p' → Runs (execDDL stmt) (l.map Prod.fst) out →
      Path (fun q x q' => Step own q x q' ∧ Timed q x ∧ Outside keyword x) p l p' ∧
        ∀ i, p'.sessions i = p.sessions i

section Protected
variable {keyword : String → Prop} {own : String → Settings → Settings} {stmt : String} {p : Pool}

/-! ### In a transaction -/

theorem assignment_lockTimeout :
    assignment (setTimeoutSQL "LOCAL " "lock_timeout" defaultDDLConfig.lockTimeout) =
      (lockTimeout, duration defaultDDLConfig.lockTimeout) := by
  decide +kernel

theorem assignment_statementTimeout (scope : String) (h : scope = "LOCAL " ∨ scope = "") :
    assignment (setTimeoutSQL scope "statement_timeout" defaultDDLConfig.statementTimeout) =
      (statementTimeout, duration defaultDDLConfig.statementTimeout) := by
  rcases h with rfl | rfl <;> decide +kernel

theorem lockTimeout_ne : lockTimeout ≠ statementTimeout := by decide +kernel

/-- After both `SET LOCAL`, the timeouts are the configured ones. -/
theorem configured_assign (st : Settings) : Configured
    ((st.assign (setTimeoutSQL "LOCAL " "lock_timeout" defaultDDLConfig.lockTimeout)).assign
      (setTimeoutSQL "LOCAL " "statement_timeout" defaultDDLConfig.statementTimeout)) := by
  unfold Settings.assign Configured
  rw [assignment_lockTimeout, assignment_statementTimeout _ (Or.inl rfl)]
  refine ⟨?_, Function.update_self ..⟩
  rw [Function.update_of_ne lockTimeout_ne, Function.update_self]

/-- A health check leaves the sessions alone. -/
theorem Step.of_probe {op : Op} {r : op.Ret} {i : ℕ} {q : Pool} (h : Step own p (⟨op, r⟩, i) q)
    (hop : op.kind = .probe) : q = p := by
  cases op <;> first
    | (simp [Op.kind] at hop; done)
    | (cases h; rfl)

theorem wp_safetyCheck : Prog.Wp (Step own) (fun q x => Timed q x ∧ Outside keyword x)
    (fun _ q => q = p) safetyCheck p := by
  have hp : safetyCheck.All (fun op => Op.kind op = .probe) fun _ => True :=
    Prog.All.mono safetyCheck_within (fun _ h => by simpa using h) fun _ _ => trivial
  refine Prog.Wp.mono (wp_of_all (I := fun q => q = p) hp ?_ rfl) fun _ _ h => h.2
  rintro op r i s t hop rfl hs
  refine ⟨?_, hs.of_probe hop⟩
  cases op <;> first
    | (simp [Op.kind] at hop; done)
    | exact ⟨trivial, trivial⟩

/-- A transaction sets both timeouts before the statement, and takes them with it. -/
theorem wp_execInTx (hown : ∀ st, own stmt st = st) :
    Prog.Wp (Step own) (fun q x => Timed q x ∧ Outside keyword x)
      (fun _ q => q.sessions = p.sessions) (execInTx stmt) p := by
  refine wp_call.mpr fun r i q hq => ⟨⟨trivial, trivial⟩, ?_⟩
  cases hq with
  | other h => cases h rfl
  | noBegin => rfl
  | begin =>
    refine wp_call.mpr fun r i q hq => ⟨⟨trivial, trivial⟩, ?_⟩
    cases hq with
    | other h => cases h rfl
    | noSetLocal => rfl
    | setLocal htx =>
      cases htx
      refine wp_call.mpr fun r i q hq => ⟨⟨trivial, trivial⟩, ?_⟩
      cases hq with
      | other h => cases h rfl
      | noSetLocal => rfl
      | setLocal htx =>
        cases htx
        refine wp_call.mpr fun r i q hq => ⟨⟨⟨_, rfl, configured_assign _⟩, trivial⟩, ?_⟩
        cases hq with
        | other h => cases h rfl
        | noTxExec => rfl
        | txExec htx =>
          cases htx
          refine wp_call.mpr fun r i q hq => ⟨⟨trivial, trivial⟩, ?_⟩
          cases hq with
          | other h => cases h rfl
          | noCommit => rfl
          | commit htx =>
            cases htx
            have hend : Function.update p.sessions i (own stmt (p.sessions i)) = p.sessions := by
              rw [hown, Function.update_eq_self]
            change Bool at r
            cases r <;> exact hend

theorem protected_of_not_concurrently (hs : isConcurrentlyDDL stmt = false)
    (hown : ∀ st, own stmt st = st) : Protected keyword own stmt := by
  intro p p' l out hl hrun
  have hwp : Prog.Wp (Step own) (fun q x => Timed q x ∧ Outside keyword x)
      (fun _ q => q.sessions = p.sessions) (execDDL stmt) p := by
    refine wp_safetyCheck.bind fun r q hq => ?_
    subst hq
    cases r with
    | error e => rfl
    | ok _ =>
      dsimp only
      rw [hs]
      exact wp_execInTx hown
  obtain ⟨hpath, hend⟩ := hwp.path hl hrun
  exact ⟨hpath, fun i => congrFun hend i⟩

/-! ### Outside a transaction -/

/-- A safety check that finds nothing. -/
def checked : List (Event engine × ℕ) :=
  [(⟨.lockWaiting, some 0⟩, 0), (⟨.replicationLag, some (Float64.ofInt 0)⟩, 0)]

theorem path_checked (p : Pool) : Path (Step own) p checked p :=
  Path.cons (.other (by decide)) (Path.cons (.other (by decide)) Path.nil)

/-- The timeout is set on the first session, and the statement runs on the second. -/
def concurrently (stmt : String) : List (Event engine × ℕ) := checked ++ (checked ++
  [(⟨.setTimeout (setTimeoutSQL "" "statement_timeout" defaultDDLConfig.statementTimeout), true⟩, 0),
   (⟨.poolExec stmt, true⟩, 1)])

/-- **The timeout stays behind on the first session.** -/
theorem not_protected_of_concurrently (hs : isConcurrentlyDDL stmt = true) :
    ¬Protected keyword own stmt := by
  intro h
  let p : Pool := { sessions := fun _ _ => [] }
  have hl : Path (Step own) p (concurrently stmt) _ :=
    (path_checked p).append ((path_checked p).append
      (Path.cons .setTimeout (Path.cons .poolExec Path.nil)))
  have hrun : Runs (execDDL stmt) ((concurrently stmt).map Prod.fst) (.ok ()) := by
    refine After.cons (After.cons ?_)
    change After (if isConcurrentlyDDL stmt = true then execConcurrently stmt maxRetries
      else execInTx stmt) _ _
    rw [if_pos hs]
    exact After.cons (After.cons (After.cons (After.cons After.nil)))
  have hend := (h p _ _ _ hl hrun).2 0
  have hset := congrFun hend statementTimeout
  have hne : duration defaultDDLConfig.statementTimeout ≠ [] := by decide +kernel
  simp [Pool.set, p, Settings.assign, assignment_statementTimeout, hne] at hset

def setLockTimeout : String := setTimeoutSQL "LOCAL " "lock_timeout" defaultDDLConfig.lockTimeout

def setStatementTimeout : String :=
  setTimeoutSQL "LOCAL " "statement_timeout" defaultDDLConfig.statementTimeout

/-- The statement runs in a transaction, which commits. -/
def committed (stmt : String) : List (Event engine × ℕ) := checked ++ [(⟨.beginTx, true⟩, 0)] ++
  [(⟨.setLocal setLockTimeout, true⟩, 0)] ++ [(⟨.setLocal setStatementTimeout, true⟩, 0)] ++
    [(⟨.txExec stmt, true⟩, 0)] ++ [(⟨.commit stmt, true⟩, 0)]

/-- What a statement makes of the settings stays behind when it has been committed. -/
theorem own_of_protected (hs : isConcurrentlyDDL stmt = false) (h : Protected keyword own stmt)
    (st : Settings) : own stmt st = st := by
  let p : Pool := { sessions := fun _ => st }
  have hbegin := (path_checked p).snoc (@Step.begin own p 0)
  have hlock := hbegin.snoc (@Step.setLocal own _ setLockTimeout _ rfl)
  have hset := hlock.snoc (@Step.setLocal own _ setStatementTimeout _ rfl)
  have hexec := hset.snoc (@Step.txExec own _ stmt _ rfl)
  have hl := hexec.snoc (@Step.commit own _ stmt true _ rfl)
  have hrun : Runs (execDDL stmt) (List.map Prod.fst (committed stmt)) (.ok ()) := by
    refine After.cons (After.cons ?_)
    change After (if isConcurrentlyDDL stmt = true then execConcurrently stmt maxRetries
      else execInTx stmt) _ _
    rw [hs]
    exact After.cons (After.cons (After.cons (After.cons (After.cons After.nil))))
  have hend := (h p _ (committed stmt) _ hl hrun).2 0
  simpa [Pool.set, p] using hend

/-- **A statement is protected if and only if it has no CONCURRENTLY anywhere in its text**, and makes
nothing of the settings itself. -/
theorem protected_iff : Protected keyword own stmt ↔
    isConcurrentlyDDL stmt = false ∧ ∀ st, own stmt st = st := by
  constructor
  · intro h
    have hs : isConcurrentlyDDL stmt = false := by
      rw [← Bool.not_eq_true]
      exact fun hs => not_protected_of_concurrently hs h
    exact ⟨hs, own_of_protected hs h⟩
  · rintro ⟨hs, hown⟩
    exact protected_of_not_concurrently hs hown

/-- The index of a generated plan, whose CONCURRENTLY is the keyword. -/
theorem not_protected_index : ¬∀ (keyword : String → Prop) (own : String → Settings → Settings)
    (stmt : String), (∀ st, own stmt st = st) → (isConcurrentlyDDL stmt = true → keyword stmt) →
      Protected keyword own stmt := by
  intro h
  have hs : isConcurrentlyDDL "CREATE INDEX CONCURRENTLY idx_t_b ON t (b)" = true := by
    decide +kernel
  exact not_protected_of_concurrently hs (h (fun _ => True) (fun _ st => st) _ (fun _ => rfl)
    fun _ => trivial)

end Protected

end MigrationSafety.Safety.Sessions
