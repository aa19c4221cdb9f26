import MigrationSafety.Lib.Substitution
import MigrationSafety.StateMachine.Outcomes

/-! # The attempts of a rollback

`rollbackAttempts` is the rollback handler with one call of `ExecDDL` as one operation, an attempt for
the statement at an index of the list; with the executor in its place it is the handler
(`rollback_eq_subst`). What holds for every pattern of successes and failures is proved of it:

* `attempts_spec`: an attempt is only made for the first statement that has not succeeded, and at most
  three times.
* `rollback_in_order`: the same of the handler, its outcome, and the state that `Run` persists. -/

namespace MigrationSafety.StateMachine.Attempts

open MigrationSafety.Lib.Effects MigrationSafety.Lib.Substitution
open MigrationSafety.Safety.Executor MigrationSafety.StateMachine.Signature
open MigrationSafety.StateMachine.Handlers MigrationSafety.StateMachine.Run
open MigrationSafety.StateMachine.Trace MigrationSafety.StateMachine.Outcomes

/-! ### The handler over attempts -/

/-- One call of `ExecDDL` for the statement at an index, or any other operation. -/
inductive AttemptOp
  | exec (i : ℕ) (stmt : String)
  | other (op : Op)

@[reducible] def AttemptOp.Ret : AttemptOp → Type
  | exec .. => Except DDLError Unit
  | other op => op.Ret

@[reducible] def attempting : Sig := ⟨AttemptOp, AttemptOp.Ret⟩

/-- What an attempt asks for. -/
def perform : (e : AttemptOp) → Code e.Ret
  | .exec _ stmt => execDDL stmt
  | .other op => ask op

abbrev attempt (i : ℕ) (stmt : String) : Prog attempting (Except DDLError Unit) :=
  Prog.perform (S := attempting) (.exec i stmt)

abbrev askOther (op : Op) : Prog attempting op.Ret := Prog.perform (S := attempting) (.other op)

def tryAttempt (id : Id) (i : ℕ) (stmt : String) : Prog attempting (Except DDLError Unit) := do
  match ← attempt i stmt with
  | .error e =>
    let _ ← askOther (.logDDLExecution id stmt (some e))
    pure (.error e)
  | .ok _ =>
    let _ ← askOther (.logDDLExecution id stmt none)
    pure (.ok ())

def attemptStmt (id : Id) (i : ℕ) (stmt : String) : ℕ → Prog attempting (Except DDLError Unit)
  | 0 => tryAttempt id i stmt
  | left + 1 => do
    match ← tryAttempt id i stmt with
    | .ok _ => pure (.ok ())
    | .error _ =>
      let _ ← askOther (.sleep (retryDelay * 2 ^ (maxRetries - 2 - left)))
      attemptStmt id i stmt left

def attemptStmts (id : Id) : ℕ → List String → Prog attempting (Except HandlerError Unit)
  | _, [] => pure (.ok ())
  | i, stmt :: stmts => do
    match ← attemptStmt id i stmt (maxRetries - 1) with
    | .error e => pure (.error (.rollbackStmt i stmt maxRetries e))
    | .ok _ => attemptStmts id (i + 1) stmts

def verifyColumns (table : String) : List String → Prog attempting Unit
  | [] => pure ()
  | col :: cols => do
    let _ ← askOther (.columnExists table col)
    verifyColumns table cols

/-- **The rollback handler over attempts.** -/
def rollbackAttempts (r : Record) : Prog attempting Outcome := do
  let _ ← askOther .terminateBackends
  match ← attemptStmts r.id 0 r.plan.rollback with
  | .error e => pure (.error e)
  | .ok _ =>
    verifyColumns r.plan.table r.plan.dropColumns
    pure (.ok { checkpoint := [("rolled_back", .int r.plan.rollback.length)] })

section Subst
variable {id : Id} {i : ℕ} {stmt : String}

theorem subst_tryAttempt : Prog.subst perform (tryAttempt id i stmt) = tryRollback id stmt := by
  unfold tryAttempt tryRollback
  rw [Prog.perform_bind, subst_call]
  congr 1
  funext x
  cases x <;> rfl

theorem subst_attemptStmt (left : ℕ) :
    Prog.subst perform (attemptStmt id i stmt left) = rollbackStmt id stmt left := by
  induction left with
  | zero => exact subst_tryAttempt
  | succ left ih =>
    unfold attemptStmt rollbackStmt
    rw [subst_bind, subst_tryAttempt]
    congr 1
    funext x
    cases x with
    | ok _ => rfl
    | error e => exact congrArg (Prog.call _) (funext fun _ => ih)

theorem subst_attemptStmts (stmts : List String) :
    Prog.subst perform (attemptStmts id i stmts) = rollbackStmts id i stmts := by
  induction stmts generalizing i with
  | nil => rfl
  | cons stmt stmts ih =>
    unfold attemptStmts rollbackStmts
    rw [subst_bind, subst_attemptStmt]
    congr 1
    funext x
    cases x with
    | error e => rfl
    | ok _ => exact ih

theorem subst_verifyColumns (table : String) (cols : List String) :
    Prog.subst perform (verifyColumns table cols) = verifyRollback table cols := by
  induction cols with
  | nil => rfl
  | cons col cols ih => exact congrArg (Prog.call _) (funext fun _ => ih)

/-- **The handler** is the handler over attempts, with the executor for each of them. -/
theorem rollback_eq_subst (r : Record) : rollback r = Prog.subst perform (rollbackAttempts r) := by
  unfold rollback rollbackAttempts
  rw [Prog.perform_bind, Prog.perform_bind, subst_call]
  refine congrArg (Prog.call _) (funext fun _ => ?_)
  show _ = Prog.subst perform (attemptStmts r.id 0 r.plan.rollback >>= _)
  rw [subst_bind, subst_attemptStmts]
  congr 1
  funext x
  cases x with
  | error e => rfl
  | ok _ =>
    dsimp only
    rw [subst_bind, subst_verifyColumns]
    rfl

end Subst

/-! ### Attempts -/

/-- An attempt that has been made. -/
structure Attempt where
  index : ℕ
  stmt : String
  ok : Bool
deriving DecidableEq

def attemptBy : Event attempting → Option Attempt
  | ⟨.exec i stmt, x⟩ => some ⟨i, stmt, x.isOk⟩
  | _ => none

/-- **The attempts of a run**, in order. -/
def attempts (u : List (Event attempting)) : List Attempt := u.filterMap attemptBy

variable {l : List Attempt} {i j n : ℕ} {stmt : String} {stmts : List String}

/-- The statement at the index has had a success. -/
def Succeeded (l : List Attempt) (i : ℕ) : Prop := ∃ a ∈ l, a.index = i ∧ a.ok = true

/-- How often the statement at the index has been attempted. -/
def tries (l : List Attempt) (i : ℕ) : ℕ := l.countP fun a => a.index = i

/-- **An attempt that may be made** after the attempts `l`: all statements before it have succeeded, it
has not succeeded itself, and it has been attempted less than three times. -/
structure Due (stmts : List String) (l : List Attempt) (i : ℕ) (stmt : String) : Prop where
  stmt : stmts[i]? = some stmt
  before : ∀ j < i, Succeeded l j
  failed : ¬Succeeded l i
  tries : tries l i < 3

/-- The loop is at the statement `i`, which has failed `n` times. -/
structure At (l : List Attempt) (i n : ℕ) : Prop where
  before : ∀ j < i, Succeeded l j
  within : ∀ a ∈ l, a.index < i ∨ (a.index = i ∧ a.ok = false)
  tries : tries l i = n

theorem at_nil : At [] 0 0 := ⟨fun _ hj => absurd hj (Nat.not_lt_zero _), by simp, rfl⟩

theorem At.not_succeeded (h : At l i n) (hj : i ≤ j) : ¬Succeeded l j := by
  rintro ⟨a, ha, rfl, hok⟩
  rcases h.within a ha with hlt | ⟨-, hfail⟩
  · omega
  · rw [hok] at hfail
    cases hfail

theorem At.due (h : At l i n) (hs : stmts[i]? = some stmt) (hn : n < 3) : Due stmts l i stmt :=
  ⟨hs, h.before, h.not_succeeded le_rfl, by rw [h.tries]; exact hn⟩

theorem Succeeded.append {a : Attempt} (h : Succeeded l j) : Succeeded (l ++ [a]) j := by
  obtain ⟨b, hb, hj⟩ := h
  exact ⟨b, List.mem_append_left _ hb, hj⟩

/-- One more failure. -/
theorem At.fail (h : At l i n) : At (l ++ [⟨i, stmt, false⟩]) i (n + 1) := by
  refine ⟨fun j hj => (h.before j hj).append, fun a ha => ?_, ?_⟩
  · rcases List.mem_append.mp ha with ha | ha
    · exact h.within a ha
    · rw [List.mem_singleton.mp ha]
      exact Or.inr ⟨rfl, rfl⟩
  · simp [Attempts.tries, List.countP_append, ← h.tries]

/-- A success leads to the next statement. -/
theorem At.succeed (h : At l i n) : At (l ++ [⟨i, stmt, true⟩]) (i + 1) 0 := by
  refine ⟨fun j hj => ?_, fun a ha => Or.inl ?_, ?_⟩
  · rcases Nat.lt_succ_iff_lt_or_eq.mp hj with hj | rfl
    · exact (h.before j hj).append
    · exact ⟨_, List.mem_append_right _ (List.mem_singleton.mpr rfl), rfl, rfl⟩
  · rcases List.mem_append.mp ha with ha | ha
    · rcases h.within a ha with hlt | ⟨heq, -⟩ <;> omega
    · rw [List.mem_singleton.mp ha]
      exact Nat.lt_succ_self i
  · refine List.countP_eq_zero.mpr fun a ha => ?_
    rcases List.mem_append.mp ha with ha | ha
    · rcases h.within a ha with hlt | ⟨heq, -⟩ <;> simp <;> omega
    · rw [List.mem_singleton.mp ha]
      simp

/-! ### The loops -/

/-- Attempts are made as they are due. -/
def Orderly (stmts : List String) (u : List (Event attempting)) (e : AttemptOp) : Prop :=
  ∀ i stmt, e = .exec i stmt → Due stmts (attempts u) i stmt

@[simp] theorem orderly_other {u : List (Event attempting)} {op : Op} :
    Orderly stmts u (.other op) := by
  rintro i stmt ⟨⟩

@[simp] theorem attempts_exec (u : List (Event attempting)) (x : Except DDLError Unit) :
    attempts (u ++ [⟨.exec i stmt, x⟩]) = attempts u ++ [⟨i, stmt, x.isOk⟩] := List.filterMap_append

@[simp] theorem attempts_other (u : List (Event attempting)) (op : Op) (a : op.Ret) :
    attempts (u ++ [⟨.other op, a⟩]) = attempts u :=
  List.filterMap_append.trans (List.append_nil _)

/-- After an attempt, or several, for the statement `i`: it has succeeded, or failed `n` times. -/
def Settled (i n : ℕ) (u : List (Event attempting)) (x : Except DDLError Unit) : Prop :=
  if x.isOk then At (attempts u) (i + 1) 0 else At (attempts u) i n

section Loops
variable {id : Id} {u : List (Event attempting)}

theorem tryAttempt_spec (hs : stmts[i]? = some stmt) (h : At (attempts u) i n) (hn : n < 3) :
    (tryAttempt id i stmt).Spec (Orderly stmts) (Settled i (n + 1)) u := by
  refine spec_perform_bind.mpr ⟨?_, fun x => ?_⟩
  · rintro j stmt' ⟨⟩
    exact h.due hs hn
  · cases x with
    | error e =>
      refine spec_perform_bind.mpr ⟨orderly_other, fun b => ?_⟩
      show At _ i (n + 1)
      rw [attempts_other, attempts_exec]
      exact h.fail
    | ok _ =>
      refine spec_perform_bind.mpr ⟨orderly_other, fun b => ?_⟩
      show At _ (i + 1) 0
      rw [attempts_other, attempts_exec]
      exact h.succeed

/-- By induction on the attempts that are left. -/
theorem attemptStmt_spec {left : ℕ} (hs : stmts[i]? = some stmt) (h : At (attempts u) i n)
    (hn : n + left + 1 = 3) :
    (attemptStmt id i stmt left).Spec (Orderly stmts) (Settled i 3) u := by
  induction left generalizing u n with
  | zero =>
    obtain rfl : n = 2 := by omega
    exact tryAttempt_spec hs h (by omega)
  | succ left ih =>
    refine (tryAttempt_spec hs h (by omega)).bind fun tr x hx => ?_
    cases x with
    | ok _ => exact hx
    | error e =>
      refine spec_perform_bind.mpr ⟨orderly_other, fun b => @ih (n + 1) _ ?_ (by omega)⟩
      rw [attempts_other]
      exact hx

/-- How the loop over the statements ends: behind the last one, or at one that has failed three
times. -/
def Ended (stmts : List String) (u : List (Event attempting)) : Except HandlerError Unit → Prop
  | .ok _ => At (attempts u) stmts.length 0
  | .error e => ∃ k stmt err, stmts[k]? = some stmt ∧ e = .rollbackStmt k stmt 3 err ∧
      At (attempts u) k 3

/-- By induction on the statements that are left. -/
theorem attemptStmts_spec {pre post : List String} (hs : stmts = pre ++ post)
    (h : At (attempts u) pre.length 0) :
    (attemptStmts id pre.length post).Spec (Orderly stmts) (Ended stmts) u := by
  induction post generalizing pre u with
  | nil =>
    rw [List.append_nil] at hs
    subst hs
    exact h
  | cons stmt post ih =>
    have hstmt : stmts[pre.length]? = some stmt := by simp [hs]
    refine (attemptStmt_spec hstmt h rfl).bind fun tr x hx => ?_
    cases x with
    | error e => exact ⟨pre.length, stmt, e, hstmt, rfl, hx⟩
    | ok _ =>
      have hx : At (attempts tr) (pre.length + 1) 0 := hx
      have := @ih tr (pre ++ [stmt]) (by simp [hs]) (by simpa using hx)
      simpa using this

theorem verifyColumns_spec (l : List Attempt) (table : String) (cols : List String)
    (h : attempts u = l) :
    (verifyColumns table cols).Spec (Orderly stmts) (fun v _ => attempts v = l) u := by
  induction cols generalizing u with
  | nil => exact h
  | cons col cols ih =>
    exact spec_perform_bind.mpr ⟨orderly_other, fun b => ih ((attempts_other u (.columnExists table col) b).trans h)⟩

end Loops

/-- **How a rollback ends**: all statements have succeeded, or one has failed three times. -/
def RolledBack (stmts : List String) (u : List (Event attempting)) : Outcome → Prop
  | .ok _ => At (attempts u) stmts.length 0
  | .error e => ∃ k stmt err, stmts[k]? = some stmt ∧ e = .rollbackStmt k stmt 3 err ∧
      At (attempts u) k 3

/-- **The attempts of a rollback.** -/
theorem attempts_spec (r : Record) : (rollbackAttempts r).Spec (Orderly r.plan.rollback)
    (RolledBack r.plan.rollback) [] := by
  refine spec_perform_bind.mpr ⟨orderly_other, fun b => ?_⟩
  refine (@attemptStmts_spec _ r.id _ [] _ rfl ?_).bind fun tr x hx => ?_
  · exact at_nil
  · cases x with
    | error e => exact hx
    | ok _ =>
      refine (verifyColumns_spec _ _ _ rfl).bind fun tr' _ htr' => ?_
      show At (attempts tr') _ 0
      rw [htr']
      exact hx

theorem rolledBack_ok {u : List (Event attempting)} {out : Outcome} (h : RolledBack stmts u out) :
    (∃ res, out = .ok res) ↔ ∀ i < stmts.length, Succeeded (attempts u) i := by
  cases out with
  | ok res => exact iff_of_true ⟨res, rfl⟩ h.before
  | error e =>
    obtain ⟨k, stmt, err, hk, -, hat⟩ := h
    refine iff_of_false (by simp) fun hall => ?_
    exact hat.not_succeeded le_rfl (hall k (List.getElem?_eq_some_iff.mp hk).1)

/-- Behind a statement that has not succeeded nothing has been attempted. -/
theorem rolledBack_le {u : List (Event attempting)} {out : Outcome} {k : ℕ}
    (h : RolledBack stmts u out) (hf : ¬Succeeded (attempts u) k) : ∀ a ∈ attempts u, a.index ≤ k := by
  have hlast : ∃ j n, At (attempts u) j n := by
    cases out with
    | ok res => exact ⟨_, _, h⟩
    | error e =>
      obtain ⟨j, stmt, err, -, -, hat⟩ := h
      exact ⟨j, 3, hat⟩
  obtain ⟨j, n, hat⟩ := hlast
  have hjk : j ≤ k := by
    by_contra hlt
    exact hf (hat.before k (not_le.mp hlt))
  intro a ha
  rcases hat.within a ha with hlt | ⟨heq, -⟩ <;> omega

/-- Attempts that are made as they are due are at most three for each statement. -/
theorem tries_le {α : Type} {p q : Prog attempting α} {Q : List (Event attempting) → α → Prop}
    {pre u : List (Event attempting)} (hp : p.Spec (Orderly stmts) Q pre) (h : After p u q)
    (hpre : ∀ i, tries (attempts pre) i ≤ 3) : ∀ i, tries (attempts (pre ++ u)) i ≤ 3 := by
  induction h generalizing pre with
  | nil => rwa [List.append_nil]
  | @cons e k r u q h ih =>
    rw [List.append_cons]
    refine ih (hp.2 r) fun i => ?_
    cases e with
    | other op => exact (attempts_other pre op r).symm ▸ hpre i
    | exec j stmt =>
      rw [attempts_exec, tries, List.countP_append]
      have hlt := (hp.1 j stmt rfl).tries
      have hle := hpre i
      unfold tries at hlt hle
      by_cases hij : j = i
      · subst hij
        simp
        omega
      · simp [hij]
        omega

/-! ### The handler, and the run -/

/-- **The rollback list is executed in order**: an attempt is made only when it is due, never a fourth
time, the handler succeeds if and only if every statement has had a success, and nothing behind a
statement without one has been attempted. -/
structure InOrder (r : Record) : Prop where
  due {u : List (Event attempting)} {i : ℕ} {stmt : String} {k : Except DDLError Unit → _}
    (h : After (rollbackAttempts r) u (.call (.exec i stmt) k)) : Due r.plan.rollback (attempts u) i stmt
  tries {u : List (Event attempting)} {p : Prog attempting Outcome} (h : After (rollbackAttempts r) u p)
    (i : ℕ) : tries (attempts u) i ≤ 3
  succeeds {u : List (Event attempting)} {out : Outcome} (h : Runs (rollbackAttempts r) u out) :
    (∃ res, out = .ok res) ↔ ∀ i < r.plan.rollback.length, Succeeded (attempts u) i
  stops {u : List (Event attempting)} {out : Outcome} (h : Runs (rollbackAttempts r) u out) {k : ℕ}
    (hk : ¬Succeeded (attempts u) k) : ∀ a ∈ attempts u, a.index ≤ k

theorem inOrder (r : Record) : InOrder r where
  due h := ((attempts_spec r).after h).1 _ _ rfl
  tries h := tries_le (attempts_spec r) h fun _ => Nat.zero_le 3
  succeeds h := rolledBack_ok ((attempts_spec r).runs h)
  stops h _ hk := rolledBack_le ((attempts_spec r).runs h) hk

/-- The events end with a successful rollback of the record, in which every statement has had a
success. -/
def EndsWithRollback (r : Record) (t : List (Event engine)) : Prop :=
  ∃ t0 t1 u res, t = t0 ++ t1 ∧ Runs (rollback r) t1 (.ok res) ∧
    Runs (rollbackAttempts r) u (.ok res) ∧ Refines perform u t1 ∧
    ∀ i < r.plan.rollback.length, Succeeded (attempts u) i

theorem endsWithRollback {r : Record} {t0 t : List (Event engine)} {res : Result}
    (h : Runs (rollback r) t (.ok res)) : EndsWithRollback r (t0 ++ t) := by
  have hr := h
  rw [rollback_eq_subst] at hr
  obtain ⟨u, hu, hut⟩ := runs_subst.mp hr
  exact ⟨t0, t, u, res, rfl, h, hu, hut, ((inOrder r).succeeds hu).mp ⟨res, rfl⟩⟩

/-- A run persists `RolledBack` right after a rollback that has succeeded. -/
theorem persists_rolledBack {delay : ℤ} {id i : Id} {pt : Pt} {t : List (Event engine)} {src : State}
    {c : Checkpoint} {terminal : Bool} {k : Bool → Code Exit}
    (h : After (body delay id pt) t (.call (.saveState i src .rolledBack c terminal) k)) :
    ∃ r, ⟨.load id, some r⟩ ∈ t ∧ EndsWithRollback r t := by
  obtain ⟨-, -, hc⟩ := Ask.save_inv ((body_spec delay id pt).after h).1
  cases hc with
  | @handler cur _ hh r t res hcur ht hd hb =>
    cases advance_of_handler hcur ht hd with
    | rolledBack _ =>
      cases hcur
      exact ⟨r, by simp, @endsWithRollback r [_, _] _ _ ht⟩
  | @batch r pr _ _ res ht hd =>
    have hn : res.next = none := ((backfillTurn_all_straight r pr).runs ht).1 _ rfl res rfl
    cases (target_of_next hn).symm.trans hd

/-- **A rollback executes its statements in order**, with at most three attempts for each, and stops at
the first that has none left; a run persists `RolledBack` only right after a rollback of the record it
has loaded, in which every statement has succeeded. -/
theorem rollback_in_order (delay : ℤ) (id : Id) (r : Record) :
    rollback r = Prog.subst perform (rollbackAttempts r) ∧ InOrder r ∧
      ∀ (pt : Pt) (t : List (Event engine)) (i : Id) (src : State) (c : Checkpoint) (terminal : Bool)
        (k : Bool → Code Exit),
        After (body delay id pt) t (.call (.saveState i src .rolledBack c terminal) k) →
          ∃ r', ⟨.load id, some r'⟩ ∈ t ∧ EndsWithRollback r' t :=
  ⟨rollback_eq_subst r, inOrder r, fun _ _ _ _ _ _ _ => persists_rolledBack⟩

end MigrationSafety.StateMachine.Attempts
