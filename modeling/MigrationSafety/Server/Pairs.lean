import MigrationSafety.Server.Interpolation

/-! # The column and its expression

`validate` fills in the tracked column, its expression and the composite statement independently of
each other, each where it is empty. A batch takes the composite statement if there is one; verify,
cutover and the drift scan take column and expression (`recomputes_eq`, `scans_query`).

They agree if and only if no column spec has an expression, or the submitted plan brings a SET list of
its own that assigns the expression, and the pair is not put together from two sources
(`consistent_iff`). PostgreSQL's reading of expressions and SET lists is a parameter. -/

namespace MigrationSafety.Server.Pairs

open MigrationSafety.Sql.Text MigrationSafety.Ddl.Generate
open MigrationSafety.Plan.Validate MigrationSafety.StateMachine.Signature
open MigrationSafety.StateMachine.Handlers MigrationSafety.StateMachine.Batches
open MigrationSafety.StateMachine.Queries
open MigrationSafety.Server.Interpolation (Scans scans_query)

variable {p p' : MigrationPlan} {Expr : Type} {expr : String → Expr}
  {setList : String → Option (List (Name × Expr))}

/-! ### Assignments -/

/-- What the SET list of a batch assigns, if it is one. -/
def assigns (expr : String → Expr) (setList : String → Option (List (Name × Expr))) :
    BatchStmt → Option (List (Name × Expr))
  | .single _ col e => some [(foldIdent col, expr e)]
  | .multi _ multiSQL _ => setList multiSQL

/-- In a SET list the first word is a column, and no word follows it. -/
def SetGrammar (setList : String → Option (List (Name × Expr))) : Prop :=
  ∀ w w' rest : String, identRe w = true → identRe w' = true →
    setList (w ++ " " ++ w' ++ " " ++ rest) = none

/-- **The composite statement is no SET list.** -/
theorem setList_composite (hg : SetGrammar setList) {table : String} (ht : identRe table = true)
    (c : ColumnSpec) (cs : List ColumnSpec) :
    setList (generateCompositeBackfill table (c :: cs)) = none := by
  have hupdate : "UPDATE " = "UPDATE" ++ " " := by decide
  have hset : " SET " = " " ++ "SET " := by decide
  have := hg "UPDATE" table ("SET " ++ ", ".intercalate ((c :: cs).map setClause) ++
    " WHERE id IN (SELECT id FROM " ++ table ++ " WHERE " ++
    " OR ".intercalate ((c :: cs).map nullCheck) ++ " ORDER BY id LIMIT $1)") (by decide) ht
  unfold generateCompositeBackfill
  rw [if_neg (List.cons_ne_nil c cs), hupdate, hset]
  simpa only [String.append_assoc] using this

/-! ### The pair of a plan -/

/-- Column and expression are both given. -/
def Explicit (p : MigrationPlan) : Prop := p.backfill.column ≠ "" ∧ p.backfill.sourceExpr ≠ ""

/-- The pair that is tracked: what is given, and for the rest the first column with an expression. -/
def pair (p : MigrationPlan) : String × String :=
  (orText p.backfill.column (((exprCols p.addColumns).head?.map (·.name)).getD ""),
    orText p.backfill.sourceExpr (((exprCols p.addColumns).head?.map (·.expression)).getD ""))

@[simp] theorem orText_nothing (s : String) : orText s "" = s := by simp [orText]

theorem orText_of_ne {s : String} (h : s ≠ "") (gen : String) : orText s gen = s :=
  if_neg fun hs => h hs.1

/-- The backfill of a validated plan. -/
theorem backfill_validate (hv : validate p = .ok p') :
    (p'.backfill.column, p'.backfill.sourceExpr) = pair p ∧ p'.backfill.multiSQL =
      orText p.backfill.multiSQL (generateCompositeBackfill p.table (exprCols p.addColumns)) := by
  obtain ⟨rfl, -⟩ := validate_ok hv
  unfold MigrationPlan.prepare
  split_ifs with hd
  · exact ⟨rfl, rfl⟩
  · have hadd : p.addColumns = [] := by
      by_contra hne
      exact hd (Or.inl hne)
    unfold pair
    simp [MigrationPlan.withDefaults, hadd, exprCols, generateCompositeBackfill]

theorem pair_of_explicit (h : Explicit p) : pair p = (p.backfill.column, p.backfill.sourceExpr) := by
  unfold pair
  rw [orText_of_ne h.1, orText_of_ne h.2]

/-! ### Agreement -/

/-- What verify, cutover and the drift scan recompute. -/
def recomputes : Op → Option (String × String)
  | .sampleParity _ col e _ => some (col, e)
  | .fullParity _ col e => some (col, e)
  | _ => none

theorem recomputes_eq {r : Record} {op : Op} {x : String × String} (h : Performs r op)
    (hx : recomputes op = some x) : x = (r.plan.backfill.column, r.plan.backfill.sourceExpr) := by
  have hk : op.kind = .column := by cases op <;> first | rfl | cases hx
  obtain ⟨-, hq⟩ := performs_query h hk
  cases hq <;> cases hx <;> rfl

/-- **The pair is one pair.** `p` has been submitted, `p'` is what `validate` makes of it. -/
structure Consistent (expr : String → Expr) (setList : String → Option (List (Name × Expr)))
    (p p' : MigrationPlan) : Prop where
  assigned : ∀ (r : Record) stmt, r.plan = p' → Sends r stmt →
    ∃ pairs, assigns expr setList stmt = some pairs ∧
      ∀ x, (foldIdent p'.backfill.column, x) ∈ pairs ↔ x = expr p'.backfill.sourceExpr
  recomputed : ∀ (r : Record) op x, r.plan = p' → Performs r op → recomputes op = some x →
    x = (p'.backfill.column, p'.backfill.sourceExpr)
  scanned : ∀ sql, Scans p' sql →
    sql = fullParitySQL p'.table p'.backfill.column p'.backfill.sourceExpr
  only : Explicit p → (p'.backfill.column, p'.backfill.sourceExpr) =
      (p.backfill.column, p.backfill.sourceExpr) ∧
    ∀ (r : Record) stmt, r.plan = p' → Sends r stmt → assigns expr setList stmt =
      some [(foldIdent p.backfill.column, expr p.backfill.sourceExpr)]
  entry : ¬Explicit p → ∃ col ∈ p.addColumns,
    (p'.backfill.column, p'.backfill.sourceExpr) = (col.name, col.expression)

/-- The SET list of the submitted plan assigns its pair. -/
def Brings (expr : String → Expr) (p : MigrationPlan) (pairs : List (Name × Expr)) : Prop :=
  (Explicit p → pairs = [(foldIdent p.backfill.column, expr p.backfill.sourceExpr)]) ∧
    (¬Explicit p → (∃ col ∈ p.addColumns, pair p = (col.name, col.expression)) ∧
      ∀ x, (foldIdent (pair p).1, x) ∈ pairs ↔ x = expr (pair p).2)

/-- What the statement of the plan assigns decides. -/
theorem consistent_iff_brings (hv : validate p = .ok p') (hcol : p'.backfill.column ≠ "") :
    Consistent expr setList p p' ↔
      ∃ pairs, assigns expr setList (batchStmt p') = some pairs ∧ Brings expr p pairs := by
  obtain ⟨hpair, -⟩ := backfill_validate hv
  have hfst : p'.backfill.column = (pair p).1 := congrArg Prod.fst hpair
  have hsnd : p'.backfill.sourceExpr = (pair p).2 := congrArg Prod.snd hpair
  constructor
  · intro h
    have hsends : Sends { id := 0, plan := p', state := .backfilling } (batchStmt p') :=
      sends_iff.mpr ⟨hcol, rfl⟩
    obtain ⟨pairs, hpairs, hmem⟩ := h.assigned _ _ rfl hsends
    refine ⟨pairs, hpairs, fun hex => ?_, fun hex => ⟨?_, fun x => ?_⟩⟩
    · exact Option.some.inj (hpairs.symm.trans ((h.only hex).2 _ _ rfl hsends))
    · rw [← hpair]
      exact h.entry hex
    · rw [← hfst, ← hsnd]
      exact hmem x
  · rintro ⟨pairs, hpairs, hexp, hmix⟩
    have hsent : ∀ (r : Record) stmt, r.plan = p' → Sends r stmt →
        assigns expr setList stmt = some pairs := by
      rintro r stmt rfl hs
      rw [(sends_iff.mp hs).2]
      exact hpairs
    refine ⟨fun r stmt hr hs => ⟨pairs, hsent r stmt hr hs, fun x => ?_⟩, ?_,
      fun sql hs => (scans_query hs).2, fun hex => ⟨hpair.trans (pair_of_explicit hex), ?_⟩, fun hex => ?_⟩
    · by_cases hex : Explicit p
      · rw [hfst, hsnd, pair_of_explicit hex, hexp hex]
        simp
      · rw [hfst, hsnd]
        exact (hmix hex).2 x
    · rintro r op x rfl hp hx
      exact recomputes_eq hp hx
    · intro r stmt hr hs
      rw [hsent r stmt hr hs, hexp hex]
    · rw [hpair]
      exact (hmix hex).1

/-- **When the pair is one**: when no column spec has an expression and no SET list is given, or when
the SET list that is given brings the pair. -/
theorem consistent_iff (hg : SetGrammar setList) (hv : validate p = .ok p')
    (hcol : p'.backfill.column ≠ "") : Consistent expr setList p p' ↔
      (p.backfill.multiSQL = "" ∧ exprCols p.addColumns = []) ∨
      (p.backfill.multiSQL ≠ "" ∧
        ∃ pairs, setList p.backfill.multiSQL = some pairs ∧ Brings expr p pairs) := by
  rw [consistent_iff_brings hv hcol]
  obtain ⟨hpair, hmulti⟩ := backfill_validate hv
  have hacc := (validate_ok hv).2
  have htable : identRe p.table = true := by
    have htable := hacc.table
    rw [(validate_ok hv).1] at htable
    simpa [MigrationPlan.withDefaults] using htable
  unfold batchStmt
  by_cases hgiven : p.backfill.multiSQL = ""
  · rw [hgiven, orText_empty] at hmulti
    cases hexpr : exprCols p.addColumns with
    | nil =>
      -- the statement for one column, with the pair that was submitted
      have hp : (p'.backfill.column, p'.backfill.sourceExpr) =
          (p.backfill.column, p.backfill.sourceExpr) := by
        rw [hpair]
        unfold pair
        simp [hexpr]
      obtain ⟨hc, he⟩ := Prod.mk.inj hp
      have hex : Explicit p := ⟨hc ▸ hcol, he ▸ hacc.sourceExpr hcol⟩
      rw [hmulti, hexpr, hc, he]
      simp [generateCompositeBackfill, assigns, Brings, hex, hgiven]
    | cons c cs =>
      have hnone := setList_composite hg htable c cs
      rw [hmulti, hexpr, if_pos (composite_ne_empty p.table c cs)]
      simp [assigns, hnone, hgiven]
  · rw [hmulti, orText_of_ne hgiven, if_pos hgiven]
    simp [assigns, hgiven]

/-! ### A reading -/

/-- One column and an expression in parentheses, of words and blanks. -/
def readSet (s : String) : Option (List (Name × String)) :=
  match s.toList.dropWhile isIdentChar with
  | ' ' :: '=' :: ' ' :: '(' :: rest =>
    let e := rest.takeWhile fun c => isIdentChar c || c = ' '
    if rest.dropWhile (fun c => isIdentChar c || c = ' ') = [')'] then
      some [(foldIdent (String.ofList (s.toList.takeWhile isIdentChar)), String.ofList e)]
    else none
  | _ => none

theorem setGrammar_readSet : SetGrammar readSet := by
  intro w w' rest hw hw'
  have hdrop : (w ++ " " ++ w' ++ " " ++ rest).toList.dropWhile isIdentChar =
      ' ' :: (w'.toList ++ (" ".toList ++ rest.toList)) := by
    have hblank : " ".toList = [' '] := by decide
    simp only [String.toList_append, List.append_assoc]
    rw [List.dropWhile_append_of_pos (List.all_eq_true.mp (all_of_identRe hw)), hblank]
    rfl
  unfold readSet
  rw [hdrop]
  -- the next word does not begin with `=`
  unfold identRe at hw'
  split at hw'
  · cases hw'
  next c cs hcs =>
    rw [hcs]
    have hc : c ≠ '=' := by
      rintro rfl
      exact absurd (Bool.and_eq_true_iff.mp hw').1 (by decide)
    split
    · next h =>
      injection h with _ h
      injection h with h _
      exact absurd h hc
    · rfl

/-- A plan with a SET list of its own. -/
def setListPlan : MigrationPlan :=
  { backfillPlan with backfill := { column := "b", sourceExpr := "a", multiSQL := "b = (a)" } }

/-- A plan that brings its SET list. -/
theorem consistent_setList : validate setListPlan = .ok setListPlan.prepare.withDefaults ∧
    Consistent id readSet setListPlan setListPlan.prepare.withDefaults := by
  have hv : validate setListPlan = .ok setListPlan.prepare.withDefaults := by decide +kernel
  have hread : readSet "b = (a)" = some [(foldIdent "b", "a")] := by decide +kernel
  refine ⟨hv, (consistent_iff setGrammar_readSet hv (by decide +kernel)).mpr (Or.inr ⟨by decide, _,
    hread, fun _ => rfl, fun hex => absurd ⟨by decide, by decide⟩ hex⟩)⟩

/-- A plan with a column, and an expression for another. -/
def mixedPlan : MigrationPlan :=
  { id := "mixed"
    version := 1
    table := "t"
    backfill := { column := "b" }
    addColumns := [{ name := "c", type := "int", expression := "a + 1" }] }

/-- **The column of one, the expression of the other.** -/
theorem not_consistent : ¬∀ (Expr : Type) (expr : String → Expr)
    (setList : String → Option (List (Name × Expr))) (p p' : MigrationPlan), SetGrammar setList →
      validate p = .ok p' → p'.backfill.column ≠ "" → Consistent expr setList p p' := by
  intro hall
  have hv : validate mixedPlan = .ok mixedPlan.prepare.withDefaults := by decide +kernel
  have h := hall String id readSet _ _ setGrammar_readSet hv (by decide +kernel)
  obtain ⟨col, hmem, hcol⟩ := h.entry fun hex => hex.2 rfl
  rw [List.mem_singleton.mp hmem] at hcol
  exact absurd hcol (by decide +kernel)

end MigrationSafety.Server.Pairs
