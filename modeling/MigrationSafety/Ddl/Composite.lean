import MigrationSafety.Ddl.Generate
import MigrationSafety.Lib.Sweeps

/-! # The composite backfill statement

One UPDATE fills several columns: it is for rows with a NULL in any of them, which it finds by their
`id`, and it assigns to all of them. A row is a cell for every column here, `id` included; NULL ids come
last in the order and are in no list.

* `sql_compositeStmt`: the statement is the text the generator writes.
* `fills_iff`: when repeating it fills the columns without overwriting anything. -/

namespace MigrationSafety.Ddl.Composite

open MigrationSafety.Sql.Text MigrationSafety.Ddl.Generate
open MigrationSafety.Lib.Sweeps

/-! ### The statement -/

/-- `UPDATE … SET … WHERE id IN (SELECT id FROM … WHERE … ORDER BY id LIMIT $1)`. -/
structure FillStmt where
  table : String
  /-- The assignments, column and expression. -/
  set : List (String × String)
  /-- The columns of the NULL checks. -/
  nulls : List String

def FillStmt.sql (q : FillStmt) : String :=
  "UPDATE " ++ q.table ++ " SET " ++ ", ".intercalate (q.set.map fun x => x.1 ++ " = (" ++ x.2 ++ ")") ++
    " WHERE id IN (SELECT id FROM " ++ q.table ++ " WHERE " ++
    " OR ".intercalate (q.nulls.map fun col => col ++ " IS NULL") ++ " ORDER BY id LIMIT $1)"

/-- All columns are assigned, and all are checked. -/
def compositeStmt (table : String) (cols : List ColumnSpec) : FillStmt where
  table := table
  set := cols.map fun col => (col.name, col.expression)
  nulls := cols.map ColumnSpec.name

/-- **The text of the generator.** -/
theorem sql_compositeStmt {table : String} {cols : List ColumnSpec} (h : cols ≠ []) :
    (compositeStmt table cols).sql = generateCompositeBackfill table cols := by
  unfold FillStmt.sql compositeStmt generateCompositeBackfill
  rw [if_neg h]
  dsimp only
  rw [List.map_map, List.map_map]
  rfl

/-! ### Its meaning -/

/-- A row: the cell of every column, by folded name. -/
abbrev Cells (V : Type) := Name → Option V

/-- The value of an expression on a row. -/
abbrev Valuation (V : Type) := String → Cells V → Option V

variable {V : Type} [LinearOrder V]

def idCol : Name := foldIdent "id"

/-- The assignments, with the expressions evaluated on the old row. -/
def assign (eval : Valuation V) (set : List (String × String)) (r : Cells V) : Cells V := fun c =>
  match set.find? fun x => foldIdent x.1 = c with
  | some x => eval x.2 r
  | none => r c

/-- One of the columns is NULL. -/
def hasNull (cols : List String) (r : Cells V) : Bool := cols.any fun col => (r (foldIdent col)).isNone

/-- What the statement does to the rows. -/
def FillStmt.sweep (eval : Valuation V) (q : FillStmt) : Sweep (Cells V) V where
  key := fun r => r idCol
  pending := hasNull q.nulls
  fix := assign eval q.set

/-- **One execution**: the rows after it, and how many it has updated. A statement that assigns to a
column twice is refused. -/
def FillStmt.run (eval : Valuation V) (limit : ℕ) (q : FillStmt) (rows : List (Cells V)) :
    Option (List (Cells V) × ℕ) :=
  if (q.set.map fun x => foldIdent x.1).Nodup then some ((q.sweep eval).run limit rows) else none

/-- **Executions until no row is updated**, with fuel. -/
def FillStmt.loop (eval : Valuation V) (limit : ℕ) (q : FillStmt) :
    ℕ → List (Cells V) → Option (List (Cells V))
  | 0, _ => none
  | n + 1, rows => (q.run eval limit rows).bind fun x =>
      if x.2 = 0 then some x.1 else loop eval limit q n x.1

theorem loop_eq {eval : Valuation V} {limit : ℕ} {q : FillStmt} (n : ℕ) (rows : List (Cells V)) :
    q.loop eval limit n rows =
      if (q.set.map fun x => foldIdent x.1).Nodup then (q.sweep eval).loop limit n rows else none := by
  induction n generalizing rows with
  | zero => simp [FillStmt.loop, Sweep.loop]
  | succ n ih =>
    unfold FillStmt.loop FillStmt.run Sweep.loop
    split_ifs with hq <;> simp_all

/-! ### Filling -/

/-- No listed column is NULL, and whatever was not NULL is as it was. -/
structure Filled (cols : List ColumnSpec) (rows rows' : List (Cells V)) : Prop where
  filled : ∀ r ∈ rows', ∀ col ∈ cols, r (foldIdent col.name) ≠ none
  kept : List.Forall₂ (fun r r' => ∀ c v, r c = some v → r' c = some v) rows rows'

/-- **Repeating the statement fills the columns**, and overwrites nothing. -/
def Fills (eval : Valuation V) (table : String) (limit : ℕ) (cols : List ColumnSpec)
    (rows : List (Cells V)) : Prop :=
  ∃ n rows', (compositeStmt table cols).loop eval limit n rows = some rows' ∧ Filled cols rows rows'

/-- The row has a NULL in a listed column. -/
def Open (cols : List ColumnSpec) (r : Cells V) : Prop := ∃ col ∈ cols, r (foldIdent col.name) = none

/-- **Nothing to overwrite**: the columns are different ones, a row with a NULL in one of them has an
`id`, and in each row with the `id` of such a row, whatever the columns hold is the value of their
expression. -/
structure Safe (eval : Valuation V) (cols : List ColumnSpec) (rows : List (Cells V)) : Prop where
  distinct : (cols.map fun col => foldIdent col.name).Nodup
  keyed : ∀ r ∈ rows, Open cols r → r idCol ≠ none
  agrees : ∀ r₀ ∈ rows, Open cols r₀ → ∀ r ∈ rows, r idCol = r₀ idCol → ∀ col ∈ cols, ∀ v,
    r (foldIdent col.name) = some v → eval col.expression r = some v

/-- The expressions are never NULL and do not read the listed columns. -/
structure Plain (eval : Valuation V) (cols : List ColumnSpec) : Prop where
  ne_none : ∀ col ∈ cols, ∀ r, eval col.expression r ≠ none
  congr : ∀ col ∈ cols, ∀ r r', (∀ c, (∀ col' ∈ cols, foldIdent col'.name ≠ c) → r c = r' c) →
    eval col.expression r = eval col.expression r'

section Fix
variable {eval : Valuation V} {table : String} {cols : List ColumnSpec} {rows : List (Cells V)}
  {r : Cells V} {limit : ℕ} {c : Name}

omit [LinearOrder V] in
theorem hasNull_iff : hasNull (compositeStmt table cols).nulls r = true ↔ Open cols r := by
  simp [hasNull, compositeStmt, Open]

omit [LinearOrder V] in
/-- A listed column gets the value of an expression, the same one in every row. -/
theorem assign_of_mem (table : String) (h : ∃ col ∈ cols, foldIdent col.name = c) :
    ∃ col ∈ cols, foldIdent col.name = c ∧
      ∀ r, assign eval (compositeStmt table cols).set r c = eval col.expression r := by
  obtain ⟨col, hcol, rfl⟩ := h
  unfold assign
  cases hf : (compositeStmt table cols).set.find? fun x => foldIdent x.1 = foldIdent col.name with
  | none =>
    have := List.find?_eq_none.mp hf (col.name, col.expression) (List.mem_map.mpr ⟨col, hcol, rfl⟩)
    simp at this
  | some x =>
    obtain ⟨col', hcol', rfl⟩ := List.mem_map.mp (List.mem_of_find?_eq_some hf)
    exact ⟨col', hcol', by simpa using List.find?_some hf, fun _ => rfl⟩

omit [LinearOrder V] in
theorem assign_of_not_mem (h : ∀ col ∈ cols, foldIdent col.name ≠ c) :
    assign eval (compositeStmt table cols).set r c = r c := by
  have hf : ((compositeStmt table cols).set.find? fun x => foldIdent x.1 = c) = none := by
    refine List.find?_eq_none.mpr fun x hx => ?_
    obtain ⟨col, hcol, rfl⟩ := List.mem_map.mp hx
    simpa using h col hcol
  unfold assign
  rw [hf]

omit [LinearOrder V] in
/-- With different columns it is its own expression. -/
theorem assign_of_nodup (hd : (cols.map fun col => foldIdent col.name).Nodup) {col : ColumnSpec}
    (hcol : col ∈ cols) :
    assign eval (compositeStmt table cols).set r (foldIdent col.name) = eval col.expression r := by
  obtain ⟨col', hcol', hname, hval⟩ := assign_of_mem table ⟨col, hcol, rfl⟩
  rw [hval, List.inj_on_of_nodup_map hd hcol' hcol hname]

omit [LinearOrder V] in
theorem not_open_assign (hp : Plain eval cols) :
    ¬Open cols (assign eval (compositeStmt table cols).set r) := by
  rintro ⟨col, hcol, hnone⟩
  obtain ⟨col', hcol', -, hval⟩ := assign_of_mem table ⟨col, hcol, rfl⟩
  exact hp.ne_none col' hcol' r ((hval r).symm.trans hnone)

omit [LinearOrder V] in
/-- The expressions see the same row before and after. -/
theorem assign_assign (hp : Plain eval cols) :
    assign eval (compositeStmt table cols).set (assign eval (compositeStmt table cols).set r) =
      assign eval (compositeStmt table cols).set r := by
  funext c
  by_cases hc : ∃ col ∈ cols, foldIdent col.name = c
  · obtain ⟨col, hcol, -, hval⟩ := assign_of_mem table hc
    rw [hval, hval]
    exact hp.congr col hcol _ _ fun c' hc' => assign_of_not_mem hc'
  · push Not at hc
    exact assign_of_not_mem hc

/-- What the repetition makes of a row. -/
def swept (eval : Valuation V) (table : String) (cols : List ColumnSpec) (rows : List (Cells V)) :
    Cells V → Cells V :=
  ((compositeStmt table cols).sweep eval).marked (((compositeStmt table cols).sweep eval).keys rows)

/-- **The rows that are assigned to**: those with the `id` of a row with a NULL in a listed column. -/
def Touched (cols : List ColumnSpec) (rows : List (Cells V)) (r : Cells V) : Prop :=
  ∃ r₀ ∈ rows, Open cols r₀ ∧ r idCol ≠ none ∧ r idCol = r₀ idCol

theorem touched_iff :
    (((compositeStmt table cols).sweep eval).key r).any (((compositeStmt table cols).sweep eval).keys rows)
      = true ↔ Touched cols rows r := by
  unfold Touched
  change (r idCol).any _ = true ↔ _
  cases hr : r idCol with
  | none => simp
  | some v =>
    rw [Option.any_some, keys_iff]
    constructor
    · rintro ⟨r₀, hr₀, hp, hk⟩
      exact ⟨r₀, hr₀, hasNull_iff.mp hp, by simp, hk.symm⟩
    · rintro ⟨r₀, hr₀, hp, -, hk⟩
      exact ⟨r₀, hr₀, hasNull_iff.mpr hp, hk.symm⟩

theorem swept_of_touched (h : Touched cols rows r) :
    swept eval table cols rows r = assign eval (compositeStmt table cols).set r :=
  marked_of_any (touched_iff.mpr h)

theorem swept_of_not_touched (h : ¬Touched cols rows r) : swept eval table cols rows r = r :=
  marked_of_not_any (mt touched_iff.mp h)

/-- **What the repetition leaves.** -/
theorem fills_iff_filled (hl : 0 < limit) (hp : Plain eval cols) :
    Fills eval table limit cols rows ↔ (cols.map fun col => foldIdent col.name).Nodup ∧
      Filled cols rows (rows.map (swept eval table cols rows)) := by
  have hset : (compositeStmt table cols).set.map (fun x => foldIdent x.1) =
      cols.map fun col => foldIdent col.name := by
    simp [compositeStmt]
  have hloop : ∀ rows', (∃ n, ((compositeStmt table cols).sweep eval).loop limit n rows = some rows') ↔
      rows' = rows.map (swept eval table cols rows) := fun rows' =>
    loop_eq_some_iff (fun r => Bool.eq_false_iff.mpr fun h => not_open_assign hp (hasNull_iff.mp h))
      (fun r => assign_assign hp) hl
  unfold Fills
  simp only [loop_eq, hset]
  constructor
  · rintro ⟨n, rows', h, hF⟩
    split_ifs at h with hd
    exact ⟨hd, (hloop rows').mp ⟨n, h⟩ ▸ hF⟩
  · rintro ⟨hd, hF⟩
    obtain ⟨n, h⟩ := (hloop _).mpr rfl
    exact ⟨n, _, by rw [if_pos hd, h], hF⟩

/-- A filled table was safe to fill: a row without `id` is never assigned to, and an assignment that
changes nothing but NULLs gives the values that were there. -/
theorem safe_of_filled (hd : (cols.map fun col => foldIdent col.name).Nodup)
    (h : Filled cols rows (rows.map (swept eval table cols rows))) : Safe eval cols rows := by
  have hkeyed : ∀ r ∈ rows, Open cols r → r idCol ≠ none := by
    rintro r hr ⟨col, hcol, hnone⟩ hid
    have hnot : ¬Touched cols rows r := fun ⟨_, _, _, hne, _⟩ => hne hid
    refine h.filled _ (List.mem_map.mpr ⟨r, hr, rfl⟩) col hcol ?_
    rwa [swept_of_not_touched hnot]
  refine ⟨hd, hkeyed, fun r₀ hr₀ hopen r hr hid col hcol v hv => ?_⟩
  have htouched : Touched cols rows r := ⟨r₀, hr₀, hopen, hid ▸ hkeyed r₀ hr₀ hopen, hid⟩
  have hkept := List.forall₂_same.mp (List.forall₂_map_right_iff.mp h.kept) r hr _ v hv
  rwa [swept_of_touched htouched, assign_of_nodup hd hcol] at hkept

theorem filled_of_safe (hp : Plain eval cols) (h : Safe eval cols rows) :
    Filled cols rows (rows.map (swept eval table cols rows)) := by
  constructor
  · intro r' hr' col hcol hnone
    obtain ⟨r, hr, rfl⟩ := List.mem_map.mp hr'
    by_cases ht : Touched cols rows r
    · rw [swept_of_touched ht] at hnone
      exact not_open_assign hp ⟨col, hcol, hnone⟩
    · rw [swept_of_not_touched ht] at hnone
      have hopen : Open cols r := ⟨col, hcol, hnone⟩
      exact ht ⟨r, hr, hopen, h.keyed r hr hopen, rfl⟩
  · refine List.forall₂_map_right_iff.mpr (List.forall₂_same.mpr fun r hr c v hv => ?_)
    by_cases ht : Touched cols rows r
    · rw [swept_of_touched ht]
      obtain ⟨r₀, hr₀, hopen, -, hid⟩ := ht
      by_cases hc : ∃ col ∈ cols, foldIdent col.name = c
      · obtain ⟨col, hcol, rfl⟩ := hc
        rw [assign_of_nodup h.distinct hcol]
        exact h.agrees r₀ hr₀ hopen r hr hid col hcol v hv
      · push Not at hc
        rwa [assign_of_not_mem hc]
    · rwa [swept_of_not_touched ht]

/-- The table can be filled if and only if that is safe. -/
theorem fills_iff_safe (hl : 0 < limit) (hp : Plain eval cols) :
    Fills eval table limit cols rows ↔ Safe eval cols rows :=
  (fills_iff_filled hl hp).trans
    ⟨fun ⟨hd, h⟩ => safe_of_filled hd h, fun h => ⟨h.distinct, filled_of_safe hp h⟩⟩

/-- **The composite backfill**: the statement is the generated text, and repeating it fills the columns
and overwrites nothing if and only if there is nothing to overwrite. -/
theorem fills_iff (hc : cols ≠ []) (hl : 0 < limit) (hp : Plain eval cols) :
    (compositeStmt table cols).sql = generateCompositeBackfill table cols ∧
      (Fills eval table limit cols rows ↔ Safe eval cols rows) :=
  ⟨sql_compositeStmt hc, fills_iff_safe hl hp⟩

end Fix

/-- Two columns to be filled with 2. -/
def twoColumns : List ColumnSpec := [⟨"a", "int", "2", true, false⟩, ⟨"b", "int", "2", true, false⟩]

/-- Every expression has the value 2. -/
def two : Valuation ℕ := fun _ _ => some 2

/-- A row with `a` NULL and 5 in `b`. -/
def halfRow : Cells ℕ := fun c =>
  if c = idCol then some 1 else if c = foldIdent "b" then some 5 else none

theorem plain_two : Plain two twoColumns := ⟨fun _ _ _ => by simp [two], fun _ _ _ _ _ => rfl⟩

theorem names_twoColumns : foldIdent "a" ≠ foldIdent "b" ∧ foldIdent "a" ≠ idCol ∧
    foldIdent "b" ≠ idCol := by
  unfold idCol
  decide +kernel

theorem fills_iff_halfRow :
    (compositeStmt "t" twoColumns).sql = generateCompositeBackfill "t" twoColumns ∧
      (Fills two "t" 1 twoColumns [halfRow] ↔ Safe two twoColumns [halfRow]) :=
  fills_iff (List.cons_ne_nil _ _) Nat.one_pos plain_two

/-- **The 5 is overwritten.** -/
theorem not_fills : ∃ (eval : Valuation ℕ) (cols : List ColumnSpec) (rows : List (Cells ℕ)),
    cols ≠ [] ∧ Plain eval cols ∧ (cols.map fun col => foldIdent col.name).Nodup ∧
      (∀ r ∈ rows, r idCol ≠ none) ∧ ¬Fills eval "t" 1 cols rows := by
  obtain ⟨hab, ha, hb⟩ := names_twoColumns
  refine ⟨two, twoColumns, [halfRow], List.cons_ne_nil _ _, plain_two, by simp [twoColumns, hab],
    by simp [halfRow], fun h => ?_⟩
  have hopen : Open twoColumns halfRow := ⟨_, List.mem_cons_self, by simp [halfRow, hab, ha]⟩
  have hval := ((fills_iff_safe Nat.one_pos plain_two).mp h).agrees halfRow (by simp) hopen halfRow
    (by simp) rfl ⟨"b", "int", "2", true, false⟩ (by simp [twoColumns]) 5 (by simp [halfRow, hb])
  simp [two] at hval

end MigrationSafety.Ddl.Composite
