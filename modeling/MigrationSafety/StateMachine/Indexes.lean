import MigrationSafety.StateMachine.Handlers
import MigrationSafety.Lib.Paths

/-! # Index builds

A `CREATE INDEX CONCURRENTLY IF NOT EXISTS` statement does nothing where there is an index of its
name; else it builds one, and a build that fails or is interrupted may leave an invalid index. `names`
says which index a statement names; it is left open, and nothing but these statements touches the
indexes they name.

The executor sends the statement again after a failed attempt, and so does the handler after a crash,
so an invalid index is taken for a built one: an expand that succeeds leaves valid indexes if and only
if there was no invalid one at the start and no build has left one (`expand_valid`). -/

namespace MigrationSafety.StateMachine.Indexes

open MigrationSafety.Lib.Effects MigrationSafety.Lib.Paths MigrationSafety.Lib.Binary64
open MigrationSafety.Plan.Validate
open MigrationSafety.Safety.Executor MigrationSafety.Sql.Text MigrationSafety.Ddl.Generate
open MigrationSafety.StateMachine.Signature MigrationSafety.StateMachine.Handlers

/-! ### The catalog -/

inductive Status
  | absent
  | invalid
  | valid
deriving DecidableEq

/-- The indexes of the target, by name. -/
abbrev Catalog := String → Status

/-- The index an event is about, and whether the attempt has succeeded. -/
def attempt (names : String → Option String) : Event engine → Option (String × Bool)
  | ⟨.poolExec stmt, b⟩ => (names stmt).map fun i => (i, b)
  | _ => none

/-- An event, and the status a build has left, if there has been one. -/
abbrev Label := Event engine × Option Status

/-- **What an event does to the catalog.** -/
inductive Touch (names : String → Option String) (c : Catalog) : Label → Catalog → Prop
  | other {ev : Event engine} (h : attempt names ev = none) : Touch names c (ev, none) c
  /-- `IF NOT EXISTS`. -/
  | existing {ev : Event engine} {i : String} {b : Bool} (h : attempt names ev = some (i, b))
      (hc : c i ≠ .absent) : Touch names c (ev, none) c
  /-- A build that is reported has built the index. -/
  | build {ev : Event engine} {i : String} {b : Bool} {left : Status}
      (h : attempt names ev = some (i, b)) (hc : c i = .absent) (hb : b = true → left = .valid) :
      Touch names c (ev, some left) (Function.update c i left)

/-- What a sequence of events does to the catalog. -/
abbrev Evolves (names : String → Option String) : Catalog → List Label → Catalog → Prop :=
  Path (Touch names)

/-- A build has left an invalid index. -/
def Spoilt (x : Label) : Prop := x.2 = some .invalid

section Evolves
variable {names : String → Option String} {c c' : Catalog} {x : Label} {l : List Label} {i : String}

/-- An index that is there stays as it is. -/
theorem Touch.keeps (h : Touch names c x c') (hc : c i ≠ .absent) : c' i = c i := by
  cases h with
  | other | existing => rfl
  | @build ev j b left hj habs hb =>
    have hne : i ≠ j := by
      rintro rfl
      exact hc habs
    exact Function.update_of_ne hne ..

theorem Evolves.keeps (h : Evolves names c l c') (hc : c i ≠ .absent) : c' i = c i := by
  refine h.invariant (I := fun d => d i = c i) rfl fun d y d' hd hy => ?_
  rw [hy.keeps (hd ▸ hc), hd]

/-- An attempt that has succeeded has left an index. -/
theorem Touch.present (h : Touch names c x c') (hx : attempt names x.1 = some (i, true)) :
    c' i ≠ .absent := by
  cases h with
  | other hn => cases hn.symm.trans hx
  | existing hi hc =>
    cases hi.symm.trans hx
    exact hc
  | build hi hc hb =>
    cases hi.symm.trans hx
    rw [Function.update_self, hb rfl]
    decide

theorem Evolves.present (h : Evolves names c l c')
    (hl : ∃ ev ∈ l.map Prod.fst, attempt names ev = some (i, true)) : c' i ≠ .absent := by
  induction h with
  | nil =>
    obtain ⟨ev, hev, -⟩ := hl
    cases hev
  | @snoc d d' as y h hy ih =>
    obtain ⟨ev, hev, hi⟩ := hl
    rw [List.map_append, List.mem_append] at hev
    rcases hev with hev | hev
    · have hd := ih ⟨ev, hev, hi⟩
      rwa [hy.keeps hd]
    · obtain rfl := List.mem_singleton.mp hev
      exact hy.present hi

/-- An index that a build has spoilt is invalid. -/
theorem Touch.spoilt (h : Touch names c x c') (hx : Spoilt x) :
    ∃ j b, attempt names x.1 = some (j, b) ∧ c' j = .invalid := by
  cases h with
  | other | existing => cases hx
  | @build ev j b left hj habs hb =>
    cases hx
    exact ⟨j, b, hj, Function.update_self ..⟩

theorem Evolves.spoilt (h : Evolves names c l c') (hx : x ∈ l) (hs : Spoilt x) :
    ∃ j b, attempt names x.1 = some (j, b) ∧ c' j = .invalid := by
  induction h with
  | nil => cases hx
  | @snoc d d' as y h hy ih =>
    rcases List.mem_append.mp hx with hx | hx
    · obtain ⟨j, b, hj, hd⟩ := ih hx
      have hne : d j ≠ .absent := by rw [hd]; decide
      exact ⟨j, b, hj, (hy.keeps hne).trans hd⟩
    · obtain rfl := List.mem_singleton.mp hx
      exact hy.spoilt hs

/-- Where no build spoils anything, nothing becomes invalid. -/
theorem Evolves.not_invalid (h : Evolves names c l c') (hl : ∀ x ∈ l, ¬Spoilt x)
    (hc : c i ≠ .invalid) : c' i ≠ .invalid := by
  induction h with
  | nil => exact hc
  | @snoc d d' as y h hy ih =>
    have hd := ih fun x hx => hl x (List.mem_append_left _ hx)
    cases hy with
    | other | existing => exact hd
    | @build ev j b left hj habs hb =>
      by_cases hij : i = j
      · subst hij
        rw [Function.update_self]
        rintro rfl
        exact hl (ev, some .invalid) (List.mem_append_right _ (List.mem_singleton_self _)) rfl
      · rwa [Function.update_of_ne hij]

end Evolves

/-! ### What an expand attempts -/

/-- Outside a transaction, the operation sends one of these statements. -/
def Among (stmts : List String) (op : Op) : Prop := ∀ stmt, op = .poolExec stmt → stmt ∈ stmts

section Attempts
variable {stmt : String} {stmts stmts' : List String} {op : Op} {α : Type}

@[simp] theorem among_poolExec : Among stmts (.poolExec stmt) ↔ stmt ∈ stmts := by
  simp [Among]

theorem among_of_kind (h : op.kind ≠ .ddl) : Among stmts op := by
  rintro stmt rfl
  exact absurd rfl h

theorem Within.among {ks : List Kind} {p : Code α} (hp : Within ks p) (hks : Kind.ddl ∉ ks) :
    p.All (Among stmts) fun _ => True :=
  Prog.All.mono hp (fun _ hop => among_of_kind fun hk => hks (hk ▸ hop)) fun _ _ => trivial

theorem execConcurrently_among (left : ℕ) (h : stmt ∈ stmts) :
    (execConcurrently stmt left).All (Among stmts) fun _ => True := by
  induction left with
  | zero => trivial
  | succ left ih =>
    refine (Within.among safetyCheck_within (by decide)).bind fun r _ => ?_
    cases r with
    | error e => simp [Among, ih]
    | ok _ => simp [Among, ih, h]

theorem execDDL_among (h : stmt ∈ stmts) : (execDDL stmt).All (Among stmts) fun _ => True := by
  refine (Within.among safetyCheck_within (by decide)).bind fun r _ => ?_
  cases r with
  | error e => trivial
  | ok _ =>
    have := execConcurrently_among maxRetries h
    simp [this, execInTx, Among]

theorem execEach_among (fail : ℕ → String → DDLError → HandlerError) (id : Id) (i : ℕ)
    (h : stmts ⊆ stmts') : (execEach fail id i stmts).All (Among stmts') fun _ => True := by
  induction stmts generalizing i with
  | nil => trivial
  | cons stmt stmts ih =>
    obtain ⟨hstmt, hstmts⟩ := List.cons_subset.mp h
    refine (execDDL_among hstmt).bind fun r _ => ?_
    cases r with
    | error e => simp [Among]
    | ok _ => simp [Among, ih (i + 1) hstmts]

/-- **An expand only sends the statements of its plan.** -/
theorem expand_among (r : Record) : (expand r).All (Among r.plan.expand) fun _ => True := by
  refine (execEach_among _ _ _ (List.Subset.refl _)).bind fun x _ => ?_
  cases x <;> trivial

/-- A statement that runs outside a transaction has been executed there, if the call succeeds. -/
theorem execConcurrently_sent (left : ℕ) {pre : List (Event engine)} :
    (execConcurrently stmt left).Post
      (fun tr r => r.isOk = true → ⟨.poolExec stmt, true⟩ ∈ tr) pre := by
  induction left generalizing pre with
  | zero => simp [execConcurrently, Except.isOk, Except.toBool]
  | succ left ih =>
    have hcheck : safetyCheck.Post (fun _ _ => True) pre :=
      (safetyCheck_within.spec fun _ _ _ _ => trivial).mono (fun _ _ h => h) fun _ _ _ => trivial
    refine hcheck.bind fun tr r _ => ?_
    cases r with
    | error e =>
      dsimp only
      split_ifs
      · exact post_call.mpr fun _ => ih
      · simp [Except.isOk, Except.toBool]
    | ok _ =>
      refine post_call.mpr fun b => post_call.mpr fun b' => ?_
      cases b' with
      | true => exact fun _ => by simp
      | false =>
        split_ifs
        · exact post_call.mpr fun _ => ih
        · rintro ⟨⟩

/-- The program leaves the events it has begun with. -/
theorem post_append {p : Code α} {Q : List (Event engine) → α → Prop} {pre : List (Event engine)}
    (h : p.Post Q pre) : p.Post (fun tr a => Q tr a ∧ ∃ t, tr = pre ++ t) pre := by
  induction p generalizing pre with
  | ret a => exact ⟨h, [], (List.append_nil _).symm⟩
  | call op k ih =>
    refine post_call.mpr fun r => (ih r (post_call.mp h r)).mono ?_
    rintro tr a ⟨hQ, t, rfl⟩
    exact ⟨hQ, _, List.append_assoc ..⟩

theorem execDDL_sent (hs : isConcurrentlyDDL stmt = true) {pre : List (Event engine)} :
    (execDDL stmt).Post (fun tr r => r.isOk = true → ⟨.poolExec stmt, true⟩ ∈ tr) pre := by
  have hcheck : safetyCheck.Post (fun _ _ => True) pre :=
    (safetyCheck_within.spec fun _ _ _ _ => trivial).mono (fun _ _ h => h) fun _ _ _ => trivial
  refine hcheck.bind fun tr r _ => ?_
  cases r with
  | error e => simp [Except.isOk, Except.toBool]
  | ok _ =>
    dsimp only
    rw [if_pos hs]
    exact execConcurrently_sent maxRetries

/-- The statements that run outside a transaction, after a list that has succeeded. -/
theorem execEach_sent (fail : ℕ → String → DDLError → HandlerError) (id : Id) (i : ℕ)
    {pre : List (Event engine)} : (execEach fail id i stmts).Post (fun tr x => x.isOk = true →
      ∀ stmt ∈ stmts, isConcurrentlyDDL stmt = true → ⟨.poolExec stmt, true⟩ ∈ tr) pre := by
  induction stmts generalizing i pre with
  | nil => simp [execEach]
  | cons stmt stmts ih =>
    have hstmt : (execDDL stmt).Post (fun tr r => r.isOk = true → isConcurrentlyDDL stmt = true →
        ⟨.poolExec stmt, true⟩ ∈ tr) pre := by
      by_cases hs : isConcurrentlyDDL stmt = true
      · exact (execDDL_sent hs).mono fun tr r hr hok _ => hr hok
      · refine Prog.Spec.mono ((execDDL_within stmt).spec fun _ _ _ _ => trivial) (fun _ _ h => h) ?_
        exact fun _ _ _ _ h => absurd h hs
    refine hstmt.bind fun tr r hr => ?_
    cases r with
    | error e => simp [Except.isOk, Except.toBool]
    | ok _ =>
      refine post_call.mpr fun b => (post_append (ih (i + 1))).mono ?_
      rintro tr' x ⟨hx, t, rfl⟩ hok s hmem hs
      rcases List.mem_cons.mp hmem with rfl | hmem
      · simp [hr rfl hs]
      · exact hx hok s hmem hs

/-- **An expand that succeeds has executed its concurrent statements.** -/
theorem expand_sent {r : Record} {t : List (Event engine)} {res : Result}
    (h : Runs (expand r) t (.ok res)) (hmem : stmt ∈ r.plan.expand)
    (hs : isConcurrentlyDDL stmt = true) : ⟨.poolExec stmt, true⟩ ∈ t := by
  have hp : (expand r).Post (fun tr out => out.isOk = true → ∀ stmt ∈ r.plan.expand,
      isConcurrentlyDDL stmt = true → ⟨.poolExec stmt, true⟩ ∈ tr) [] := by
    refine (execEach_sent _ _ _).bind fun tr x hx => ?_
    cases x with
    | error e => simp [Except.isOk, Except.toBool]
    | ok _ => exact fun _ => hx rfl
  exact hp.runs h rfl stmt hmem hs

end Attempts

/-! ### The indexes of a plan -/

/-- One call of the expand handler, finished or not. -/
def Entry (names : String → Option String) (r : Record) (c : Catalog) (l : List Label)
    (c' : Catalog) : Prop :=
  Evolves names c l c' ∧ ∃ p, After (expand r) (l.map Prod.fst) p

/-- Every index the plan names is there, and valid. -/
def AllValid (names : String → Option String) (r : Record) (c : Catalog) : Prop :=
  ∀ stmt ∈ r.plan.expand, ∀ i, names stmt = some i → c i = .valid

/-- The indexes of a list of entries are those of its events, one after the other. -/
theorem evolves_of_entries {names : String → Option String} {r : Record} {c c' : Catalog}
    {ls : List (List Label)} (h : Path (Entry names r) c ls c') : Evolves names c ls.flatten c' := by
  induction h with
  | nil => exact Path.nil
  | snoc h hl ih =>
    rw [List.flatten_append, List.flatten_singleton]
    exact ih.append hl.1

/-- The events of the entries only attempt the plan's statements. -/
theorem mem_expand_of_entries {names : String → Option String} {r : Record} {c c' : Catalog}
    {ls : List (List Label)} (h : Path (Entry names r) c ls c') {x : Label} (hx : x ∈ ls.flatten)
    {i : String} {b : Bool} (hi : attempt names x.1 = some (i, b)) :
    ∃ stmt ∈ r.plan.expand, names stmt = some i := by
  induction h with
  | nil => cases hx
  | @snoc d d' as l h hl ih =>
    rw [List.flatten_append, List.flatten_singleton, List.mem_append] at hx
    rcases hx with hx | hx
    · exact ih hx
    · obtain ⟨-, p, hp⟩ := hl
      have hev := ((expand_among r).after hp).2 x.1 (List.mem_map_of_mem hx)
      obtain ⟨⟨op, ans⟩, st⟩ := x
      cases op <;> try cases hi
      next stmt =>
        obtain ⟨j, hj, hji⟩ := Option.map_eq_some_iff.mp hi
        cases hji
        exact ⟨stmt, hev stmt rfl, hj⟩

section Expand
variable {names : String → Option String} {r : Record} {c₀ c₁ c₂ : Catalog}
  {ls : List (List Label)} {l : List Label} {res : Result}

/-- **An expand that succeeds has built valid indexes if and only if none of them was invalid at the
start, and no build, in this entry of the handler or an earlier one, has left one invalid.** -/
theorem expand_valid (hnames : ∀ stmt i, names stmt = some i → isConcurrentlyDDL stmt = true)
    (h₁ : Path (Entry names r) c₀ ls c₁) (h₂ : Evolves names c₁ l c₂)
    (hrun : Runs (expand r) (l.map Prod.fst) (.ok res)) :
    AllValid names r c₂ ↔
      (∀ stmt ∈ r.plan.expand, ∀ i, names stmt = some i → c₀ i ≠ .invalid) ∧
        ∀ x ∈ ls.flatten ++ l, ¬Spoilt x := by
  have hentries : Path (Entry names r) c₀ (ls ++ [l]) c₂ := h₁.snoc ⟨h₂, _, hrun⟩
  have hflat : (ls ++ [l]).flatten = ls.flatten ++ l := by
    rw [List.flatten_append, List.flatten_singleton]
  have hall := evolves_of_entries hentries
  rw [hflat] at hall
  have hpresent : ∀ stmt ∈ r.plan.expand, ∀ i, names stmt = some i → c₂ i ≠ .absent := by
    intro stmt hmem i hi
    refine h₂.present ⟨_, expand_sent hrun hmem (hnames stmt i hi), ?_⟩
    rw [attempt, hi]
    rfl
  constructor
  · intro hv
    refine ⟨fun stmt hmem i hi hinv => ?_, fun x hx hs => ?_⟩
    · have hkeep := hall.keeps (i := i) (by rw [hinv]; decide)
      rw [hv stmt hmem i hi, hinv] at hkeep
      cases hkeep
    · obtain ⟨i, b, hi, hinv⟩ := hall.spoilt hx hs
      obtain ⟨stmt, hmem, hstmt⟩ := mem_expand_of_entries hentries (hflat ▸ hx) hi
      rw [hv stmt hmem i hstmt] at hinv
      cases hinv
  · rintro ⟨hstart, hspoilt⟩ stmt hmem i hi
    have hne := hall.not_invalid hspoilt (hstart stmt hmem i hi)
    cases hc : c₂ i with
    | absent => exact absurd hc (hpresent stmt hmem i hi)
    | invalid => exact absurd hc hne
    | valid => rfl

end Expand

/-! ### One generated index -/

/-- The generated statements are such statements. -/
theorem isConcurrentlyDDL_createIndexDDL (table : String) (col : ColumnSpec) :
    isConcurrentlyDDL (createIndexDDL table col) = true := by
  have hhead : isConcurrentlyDDL "CREATE INDEX CONCURRENTLY IF NOT EXISTS " = true := by
    decide +kernel
  unfold createIndexDDL
  iterate 5 rw [String.append_assoc]
  exact isConcurrentlyDDL_append hhead _

/-- `CREATE INDEX CONCURRENTLY IF NOT EXISTS idx_t_b ON t (b)`. -/
def indexStmt : String := createIndexDDL "t" { name := "b" }

def indexNames (stmt : String) : Option String := if stmt = indexStmt then some "idx_t_b" else none

/-- A migration that builds this index. -/
def indexRecord : Record :=
  { id := 0, plan := { plainPlan with expand := [indexStmt] }, state := .expanding }

theorem indexNames_concurrently : ∀ stmt i, indexNames stmt = some i →
    isConcurrentlyDDL stmt = true := by
  intro stmt i h
  unfold indexNames at h
  split_ifs at h with hs
  rw [hs]
  exact isConcurrentlyDDL_createIndexDDL ..

/-- Events that are about no index. -/
def idle (t : List (Event engine)) : List Label := t.map fun ev => (ev, none)

theorem evolves_idle {names : String → Option String} {c : Catalog} {t : List (Event engine)}
    (h : ∀ ev ∈ t, attempt names ev = none) : Evolves names c (idle t) c := by
  induction t with
  | nil => exact Path.nil
  | cons ev t ih =>
    exact Path.cons (.other (h ev List.mem_cons_self)) (ih fun x hx => h x (List.mem_cons_of_mem _ hx))

theorem not_spoilt_idle {t : List (Event engine)} : ∀ x ∈ idle t, ¬Spoilt x := by
  intro x hx
  obtain ⟨ev, -, rfl⟩ := List.mem_map.mp hx
  rintro ⟨⟩

/-- A safety check that finds nothing, … -/
def checked : List (Event engine) :=
  [⟨.lockWaiting, some 0⟩, ⟨.replicationLag, some (Float64.ofInt 0)⟩]

/-- … and what goes before an attempt. -/
def readied : List (Event engine) := checked ++
  [⟨.setTimeout (setTimeoutSQL "" "statement_timeout" defaultDDLConfig.statementTimeout), true⟩]

theorem evolves_checked (c : Catalog) : Evolves indexNames c (idle checked) c :=
  evolves_idle fun ev hev => by
    simp only [checked, List.mem_cons, List.not_mem_nil, or_false] at hev
    rcases hev with rfl | rfl <;> rfl

theorem evolves_readied (c : Catalog) : Evolves indexNames c (idle readied) c :=
  evolves_idle fun ev hev => by
    simp only [readied, checked, List.cons_append, List.nil_append, List.mem_cons,
      List.not_mem_nil, or_false] at hev
    rcases hev with rfl | rfl | rfl <;> rfl

/-- An attempt to build the index, and the report of success. -/
def tried (b : Bool) (left : Option Status) : Label := (⟨.poolExec indexStmt, b⟩, left)

def reported : Label := (⟨.logDDLExecution 0 indexStmt none, true⟩, none)

/-- The pause after the first failed attempt. -/
def paused : Label := (⟨.sleep (retryDelay * (maxRetries - (2 : ℕ))), ()⟩, none)

theorem attempt_indexStmt (b : Bool) :
    attempt indexNames ⟨.poolExec indexStmt, b⟩ = some ("idx_t_b", b) := by
  simp [attempt, indexNames]

/-- An expand whose first attempt builds the index. -/
def built : List Label := idle checked ++ idle readied ++ [tried true (some .valid)] ++ [reported]

/-- The first attempt builds the index. -/
theorem expand_valid_built : ∃ (c : Catalog) (res : Result),
    Runs (expand indexRecord) (built.map Prod.fst) (.ok res) ∧ AllValid indexNames indexRecord c := by
  have hrun : ∃ res, Runs (expand indexRecord) (built.map Prod.fst) (.ok res) :=
    ⟨_, After.cons (After.cons (After.cons (After.cons (After.cons (After.cons (After.cons
      After.nil))))))⟩
  obtain ⟨res, hres⟩ := hrun
  have h₁ : Path (Entry indexNames indexRecord) (fun _ => .absent) [] fun _ => .absent := Path.nil
  have h₂ : Evolves indexNames (fun _ => .absent) built _ :=
    (((evolves_checked _).append (evolves_readied _)).snoc
      (.build (attempt_indexStmt true) rfl fun _ => rfl)).snoc (.other rfl)
  refine ⟨_, res, hres, (expand_valid indexNames_concurrently h₁ h₂ hres).mpr ⟨?_, ?_⟩⟩
  · rintro stmt - i - ⟨⟩
  · simp only [built, List.flatten_nil, List.nil_append, List.forall_mem_append,
      List.forall_mem_singleton]
    exact ⟨⟨⟨not_spoilt_idle, not_spoilt_idle⟩, by rintro ⟨⟩⟩, by rintro ⟨⟩⟩

/-- An expand whose first attempt spoils the index. -/
def spoilt : List Label := idle checked ++ idle readied ++ [tried false (some .invalid)] ++ [paused] ++
  idle readied ++ [tried true none] ++ [reported]

/-- **The second attempt finds the index the first one has spoilt**, and succeeds. -/
theorem retry_keeps_invalid : ¬∀ (names : String → Option String) (r : Record) (c c' : Catalog)
    (l : List Label) (res : Result), (∀ stmt i, names stmt = some i → isConcurrentlyDDL stmt = true) →
      (∀ i, c i = .absent) → Evolves names c l c' →
        Runs (expand r) (l.map Prod.fst) (.ok res) → AllValid names r c' := by
  intro hall
  have hrun : ∃ res, Runs (expand indexRecord) (spoilt.map Prod.fst) (.ok res) :=
    ⟨_, After.cons (After.cons (After.cons (After.cons (After.cons (After.cons (After.cons
      (After.cons (After.cons (After.cons (After.cons (After.cons After.nil)))))))))))⟩
  obtain ⟨res, hres⟩ := hrun
  have hfail : Evolves indexNames (fun _ => .absent) (idle checked ++ idle readied ++
      [tried false (some .invalid)] ++ [paused]) _ :=
    (((evolves_checked _).append (evolves_readied _)).snoc
      (.build (attempt_indexStmt false) rfl (by rintro ⟨⟩))).snoc (.other rfl)
  have hl : Evolves indexNames (fun _ => .absent) spoilt _ :=
    ((hfail.append (evolves_readied _)).snoc
      (.existing (attempt_indexStmt true) (by simp))).snoc (.other rfl)
  have hv := hall _ _ _ _ _ res indexNames_concurrently (fun _ => rfl) hl hres
  have hi := hv indexStmt (by simp [indexRecord]) "idx_t_b" (by simp [indexNames])
  rw [Function.update_self] at hi
  cases hi

end MigrationSafety.StateMachine.Indexes
