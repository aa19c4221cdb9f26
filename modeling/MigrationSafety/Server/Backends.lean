import Mathlib.Data.List.Infix
import MigrationSafety.Server.Steps

/-! # Draining

The first step of a rollback terminates every session that has been executing its query for more than
thirty seconds, unless the text of the query is `LIKE` one of two patterns. The engine's own statements
are texts like any other (`Op.sql`): so a rollback spares the sessions of other migrations if and only
if none of them has taken that long with a text that names neither (`drain_spares`). -/

namespace MigrationSafety.Server.Backends

open MigrationSafety.Lib.Effects MigrationSafety.Lib.Paths MigrationSafety.Lib.Binary64
open MigrationSafety.Plan.Validate MigrationSafety.Safety.Executor
open MigrationSafety.StateMachine.Signature MigrationSafety.StateMachine.Handlers
open MigrationSafety.StateMachine.Run
open MigrationSafety.Server.Migrations MigrationSafety.Server.System MigrationSafety.Server.Steps

/-! ### Patterns -/

/-- `s LIKE pattern`, for a pattern without a backslash. -/
def like : List Char → List Char → Bool
  | [], s => s.isEmpty
  | '%' :: ps, s => s.tails.any (like ps)
  | '_' :: ps, s => s.head?.isSome && like ps s.tail
  | p :: ps, s => s.head? == some p && like ps s.tail

theorem like_percent {ps s : List Char} :
    like ('%' :: ps) s = true ↔ ∃ t, t <:+ s ∧ like ps t = true := by
  simp [like, List.mem_tails]

/-- Any other character of a pattern takes one of the text. -/
theorem like_cons {p : Char} {ps s : List Char} (hp : p ≠ '%') : like (p :: ps) s = true ↔
    ∃ c t, s = c :: t ∧ (p = '_' ∨ p = c) ∧ like ps t = true := by
  by_cases hu : p = '_'
  · subst hu
    cases s <;> simp [like]
  · cases s with
    | nil => simp [like, hu]
    | cons c s => simp [like, hu, eq_comm (a := p)]

/-- A pattern that may be followed by anything. -/
theorem like_append_percent {ps s : List Char} :
    like (ps ++ ['%']) s = true ↔ ∃ t, t <+: s ∧ like ps t = true := by
  induction ps generalizing s with
  | nil =>
    rw [List.nil_append, like_percent]
    constructor
    · rintro ⟨t, -, ht⟩
      exact ⟨[], List.nil_prefix, rfl⟩
    · rintro ⟨t, -, ht⟩
      exact ⟨[], List.nil_suffix, rfl⟩
  | cons p ps ih =>
    rw [List.cons_append]
    by_cases hp : p = '%'
    · subst hp
      rw [like_percent]
      simp only [ih, like_percent]
      constructor
      · rintro ⟨u, ⟨w, rfl⟩, t, ht, hlike⟩
        exact ⟨w ++ t, (List.prefix_append_right_inj w).mpr ht, t, List.suffix_append w t, hlike⟩
      · rintro ⟨u, ⟨w, rfl⟩, t, ⟨v, rfl⟩, hlike⟩
        exact ⟨t ++ w, ⟨v, (List.append_assoc ..).symm⟩, t, List.prefix_append t w, hlike⟩
    · rw [like_cons hp]
      simp only [ih, like_cons hp]
      constructor
      · rintro ⟨c, s, rfl, hc, t, ht, hlike⟩
        exact ⟨c :: t, (List.cons_prefix_cons).mpr ⟨rfl, ht⟩, c, t, rfl, hc, hlike⟩
      · rintro ⟨u, hu, c, t, rfl, hc, hlike⟩
        obtain ⟨w, rfl⟩ := hu
        exact ⟨c, t ++ w, rfl, hc, t, List.prefix_append t w, hlike⟩

/-- `s LIKE '%name%'`: a part of `s` is `name`, up to its underscores. -/
theorem like_around {name s : List Char} :
    like ('%' :: (name ++ ['%'])) s = true ↔ ∃ t, t <:+: s ∧ like name t = true := by
  rw [like_percent]
  simp only [like_append_percent]
  constructor
  · rintro ⟨u, hu, t, ht, hlike⟩
    exact ⟨t, ht.isInfix.trans hu.isInfix, hlike⟩
  · rintro ⟨t, ⟨u, v, rfl⟩, hlike⟩
    exact ⟨t ++ v, ⟨u, by rw [List.append_assoc]⟩, t, List.prefix_append t v, hlike⟩

/-! ### Statements of the engine -/

/-- The text of a DDL statement, a batch UPDATE or a parity query. -/
def Op.sql : Op → Option String
  | .txExec stmt | .poolExec stmt => some stmt
  | .updateBatch stmt .. => some stmt.text
  | .countNulls table col => some ("SELECT count(*) FROM " ++ table ++ " WHERE " ++ col ++ " IS NULL")
  | .sampleParity table col expr rate =>
    some ("SELECT count(*) FILTER (WHERE " ++ col ++ " IS NOT DISTINCT FROM (" ++ expr ++
      ")) AS matches, count(*) AS sampled\n\t\t   FROM " ++ table ++ " WHERE random() < " ++
      fixed 6 rate)
  | .fullParity table col expr => some (fullParitySQL table col expr)
  | _ => none

/-- A drift scan runs the parity query for a request. -/
def Op.scans : Op → Bool
  | .fullParity .. => true
  | _ => false

/-! ### Sessions -/

/-- A session, as `pg_stat_activity` shows it: the time since its query has started, and the operation
of the engine it is, if it is one. -/
structure Backend where
  active : Bool
  age : ℤ
  query : String
  executes : Option Op := none

/-- `%pg_stat_activity%` and `%migration_safety_engine%`. -/
def spared : List (List Char) := ["pg_stat_activity".toList, "migration_safety_engine".toList]

/-- The query of `drainConnections`. -/
def drainSQL : String :=
  "\n\t\tSELECT pg_terminate_backend(pid)\n\t\tFROM pg_stat_activity\n\t\tWHERE state = 'active'" ++
    "\n\t\t  AND query_start < now() - interval '30 seconds'" ++
    "\n\t\t  AND query NOT LIKE '%pg_stat_activity%'" ++
    "\n\t\t  AND query NOT LIKE '%migration_safety_engine%'"

/-- **The sessions the query terminates.** -/
def Backend.drained (b : Backend) : Bool :=
  b.active && decide (30 * second < b.age) &&
    spared.all fun name => !like ('%' :: (name ++ ['%'])) b.query.toList

/-- The text names the table of the sessions, or the engine. -/
def Named (query : String) : Prop :=
  ∃ name ∈ spared, ∃ t, t <:+: query.toList ∧ like name t = true

/-- A part of a text is a part of the text with more behind it. -/
theorem infix_append {s t : String} {l : List Char} (h : l <:+: s.toList) : l <:+: (s ++ t).toList := by
  rw [String.toList_append]
  exact h.trans (List.prefix_append _ _).isInfix

/-- The query names its own table. -/
theorem named_drainSQL : Named drainSQL := by
  -- only the first line is evaluated: the text of all lines is slow to decode
  have hfrom : "pg_stat_activity".toList <:+:
      "\n\t\tSELECT pg_terminate_backend(pid)\n\t\tFROM pg_stat_activity\n\t\tWHERE state = 'active'".toList := by
    decide +kernel
  have hlike : like "pg_stat_activity".toList "pg_stat_activity".toList = true := by decide +kernel
  exact ⟨_, List.mem_cons_self, _, infix_append (infix_append (infix_append hfrom)), hlike⟩

theorem all_append {p : Char → Bool} {s t : String} (hs : s.toList.all p = true)
    (ht : t.toList.all p = true) : (s ++ t).toList.all p = true := by
  rw [String.toList_append, List.all_append, hs, ht]
  rfl

/-- Neither of the letters the two names begin with. -/
def plain (c : Char) : Bool := c ≠ 'p' && c ≠ 'm'

/-- A text without these letters names neither. -/
theorem not_named_of_plain {query : String} (h : query.toList.all plain = true) : ¬Named query := by
  rintro ⟨name, hname, t, ht, hlike⟩
  have hstart : ∃ p ps, name = p :: ps ∧ (p = 'p' ∨ p = 'm') := by
    rcases List.mem_cons.mp hname with rfl | hname
    · have hpg : "pg_stat_activity".toList = 'p' :: "g_stat_activity".toList := by decide +kernel
      exact ⟨_, _, hpg, Or.inl rfl⟩
    · have hengine : "migration_safety_engine".toList = 'm' :: "igration_safety_engine".toList := by
        decide +kernel
      exact ⟨_, _, (List.mem_singleton.mp hname).trans hengine, Or.inr rfl⟩
  obtain ⟨p, ps, rfl, hp⟩ := hstart
  have hwild : p ≠ '%' ∧ p ≠ '_' := by rcases hp with rfl | rfl <;> decide
  obtain ⟨c, u, rfl, hc, -⟩ := (like_cons hwild.1).mp hlike
  obtain rfl := hc.resolve_left hwild.2
  have hplain := List.all_eq_true.mp h p (ht.subset List.mem_cons_self)
  rcases hp with rfl | rfl <;> cases hplain

theorem Backend.drained_iff {b : Backend} : b.drained = true ↔
    b.active = true ∧ 30 * second < b.age ∧ ¬Named b.query := by
  unfold Backend.drained Named
  simp only [Bool.and_eq_true, decide_eq_true_eq, List.all_eq_true, Bool.not_eq_true',
    ← Bool.not_eq_true, like_around, not_exists, not_and, and_assoc]

variable {n : ℕ} {delay : ℤ}

/-- What a worker waits on. -/
def Task.awaits (t : Task) : Option Op :=
  match t.code with
  | .call op _ => some op
  | .ret _ => none

/-- A worker waits on the operation. -/
def Asks (e : Engine n) (op : Op) : Prop := ∃ w, (e.workers w).bind Task.awaits = some op

instance (e : Engine n) (op : Op) : Decidable (Asks e op) :=
  inferInstanceAs (Decidable (∃ w, (e.workers w).bind Task.awaits = some op))

/-- **The drain of a rollback**: a worker asks for it, and these are the sessions it finds. Those of
the engine execute what its workers wait on, or a drift scan. -/
structure Drain (e : Engine n) where
  asks : Asks e .terminateBackends
  backends : List Backend
  executed : ∀ b ∈ backends, ∀ op, b.executes = some op →
    Op.sql op = some b.query ∧ (Asks e op ∨ Op.scans op = true)

/-- The sessions that are terminated. -/
def Drain.terminated {e : Engine n} (d : Drain e) : List Backend := d.backends.filter Backend.drained

/-- **A rollback terminates no session of the engine if and only if each of those is idle, or has been
executing its statement for thirty seconds at most, or names one of the two in its text.** -/
theorem drain_spares {e : Engine n} (d : Drain e) :
    (∀ b ∈ d.terminated, b.executes = none) ↔ ∀ b ∈ d.backends, b.executes ≠ none →
      b.active = false ∨ b.age ≤ 30 * second ∨ Named b.query := by
  unfold Drain.terminated
  simp only [List.mem_filter, and_imp, Backend.drained_iff]
  refine forall₂_congr fun b _ => ?_
  constructor
  · intro h hex
    by_contra hno
    push Not at hno
    obtain ⟨hact, hage, hname⟩ := hno
    exact hex (h (by simpa using hact) hage hname)
  · intro h hact hage hname
    by_contra hex
    rcases h hex with hidle | hyoung | hn
    · rw [hact] at hidle
      cases hidle
    · exact absurd hyoung (not_le.mpr hage)
    · exact hname hn

/-- The statement `backfillPlan` begins with. -/
def firstBatch : Op := .updateBatch (.single "t" "b" "a") 0 1500

/-- A session that has been executing it for a minute. -/
def slowBackend : Backend where
  active := true
  age := 60 * second
  query := (BatchStmt.single "t" "b" "a").text
  executes := some firstBatch

/-- The text of a batch names neither if its parts do not. -/
theorem plain_single {table col expr : String} (htable : table.toList.all plain = true)
    (hcol : col.toList.all plain = true) (hexpr : expr.toList.all plain = true) :
    (BatchStmt.single table col expr).text.toList.all plain = true := by
  have hselect : (selectBatch table col).toList.all plain = true := by
    refine all_append (all_append (all_append (all_append ?_ htable) ?_) hcol) ?_ <;> decide +kernel
  refine all_append (all_append (all_append (all_append (all_append (all_append (all_append ?_ htable)
    ?_) hcol) ?_) hexpr) ?_) hselect <;> decide +kernel

theorem drained_slowBackend : slowBackend.drained = true :=
  Backend.drained_iff.mpr ⟨rfl, by decide,
    not_named_of_plain (plain_single (by decide) (by decide) (by decide))⟩

/-- **The rollback of one migration terminates the backfill of another**: the one's canary has
breached while the other has been waiting on its first batch for a minute. -/
theorem drain_kills_backfill : ¬∀ (n : ℕ) (delay : ℤ) (as : List (Act n)) (e : Engine n),
    Runs delay (fun _ _ => True) (Engine.init n) as e →
      ∀ d : Drain e, ∀ b ∈ d.terminated, b.executes = none := by
  intro hall
  have hrun : ((runs (Engine.step 0) (fun _ _ => true) (Engine.init 2)
      (submit backfillPlan 0 ++ drive 0 32 ++ submit breachingPlan 1 ++ drive 1 37)).any fun e =>
        decide (Asks e .terminateBackends) && decide (Asks e firstBatch)) = true := by
    decide +kernel
  obtain ⟨e, he, hP⟩ := exists_path_of_any_free hrun
  obtain ⟨hdrain, hbatch⟩ := Bool.and_eq_true_iff.mp hP
  have hexec : ∀ b ∈ [slowBackend], ∀ op, b.executes = some op →
      Op.sql op = some b.query ∧ (Asks e op ∨ Op.scans op = true) := by
    intro b hb op hop
    cases List.mem_singleton.mp hb
    cases hop
    exact ⟨rfl, Or.inl (of_decide_eq_true hbatch)⟩
  have hmem : slowBackend ∈ [slowBackend].filter Backend.drained := by
    simp [drained_slowBackend]
  have := hall 2 0 _ e he ⟨of_decide_eq_true hdrain, [slowBackend], hexec⟩ slowBackend hmem
  cases this

end MigrationSafety.Server.Backends
