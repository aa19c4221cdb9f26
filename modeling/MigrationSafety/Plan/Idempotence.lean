import MigrationSafety.Lib.Records
import MigrationSafety.Plan.Validate

/-! # Validation, repeated

What `validate` returns it returns again (`validate_validate`): each rule that fills a field leaves what
it has filled in, and the checks hold of what they have let pass. A plan that fits a JSON column
(`Fits`) still does after validation (`fits_validate`). -/

namespace MigrationSafety.Plan.Idempotence

open MigrationSafety.Sql.Text MigrationSafety.Ddl.Generate MigrationSafety.Plan.Validate
open MigrationSafety.Lib.Records (NulFree IsInt64)

variable {p p' : MigrationPlan}

/-! ### The rules that fill fields -/

theorem orElse_orElse (l gen : List String) : orElse (orElse l gen) gen = orElse l gen := by
  unfold orElse
  split_ifs <;> rfl

theorem orText_orText (s gen : String) : orText (orText s gen) gen = orText s gen := by
  unfold orText
  split_ifs <;> rfl

theorem orInt_orInt (n dflt : ℤ) : orInt (orInt n dflt) dflt = orInt n dflt := by
  unfold orInt
  split_ifs <;> rfl

theorem fill_fill (b : Backfill) (out : Output) : (b.fill out).fill out = b.fill out := by
  unfold Backfill.fill
  simp only [orText_orText, orInt_orInt]

/-- Generated fragments are not generated again. -/
theorem prepare_prepare (p : MigrationPlan) :
    p.prepare.withDefaults.prepare = p.prepare.withDefaults := by
  unfold MigrationPlan.prepare
  by_cases hd : p.declarative
  · have hd' : p.generateDDL.withDefaults.declarative := hd
    rw [if_pos hd, if_pos hd']
    unfold MigrationPlan.generateDDL MigrationPlan.withDefaults
    simp only [orElse_orElse, fill_fill]
  · have hd' : ¬p.withDefaults.declarative := hd
    rw [if_neg hd, if_neg hd']

/-- An accepted plan has its defaults. -/
theorem withDefaults_of_accepted (h : Accepted p) : p.withDefaults = p := by
  have hstrategy : p.strategy.orDefault = p.strategy := by rw [h.strategy]; rfl
  have hcanary : p.canary.orDefault = p.canary := if_neg h.steps_ne_nil
  have hverify : p.verify.orDefault = p.verify := if_neg h.parityThreshold
  have hfailure : p.onFailure.orDefault = p.onFailure := by
    rcases h.onFailure with h | h <;> rw [h] <;> rfl
  unfold MigrationPlan.withDefaults
  rw [hstrategy, hcanary, hverify, hfailure]

/-- **The checks hold of an accepted plan.** -/
theorem validate_of_accepted (h : Accepted p) (hprep : p.prepare = p) : validate p = .ok p := by
  have hdefaults := withDefaults_of_accepted h
  have hstrategy : p.strategy.orDefault = .expandContract := by rw [h.strategy]; rfl
  have hsteps : badStep p.canary.orDefault.steps = none := by
    have hcanary : p.canary.orDefault = p.canary := if_neg h.steps_ne_nil
    rw [hcanary]
    exact badStep_eq_none.mpr h.steps
  have hfailure : ¬(p.onFailure.orDefault ≠ .rollback ∧ p.onFailure.orDefault ≠ .pause) := by
    rcases h.onFailure with h | h <;> rw [h] <;> decide
  have hcolumn : ¬(p.backfill.column ≠ "" ∧ identRe p.backfill.column = false) := fun hc => by
    simp [h.column hc.1] at hc
  have hexpand : ¬(p.expand = [] ∧ p.dropColumns = [] ∧ p.addColumns = []) := fun he => by
    rcases h.expand with hne | hne | hne
    · exact hne he.1
    · exact hne he.2.1
    · exact hne he.2.2
  have htable : p.table ≠ "" := by
    intro hempty
    have := h.table
    rw [hempty] at this
    cases this
  unfold validate validatePrepared
  rw [if_neg h.id, if_neg (not_le.mpr h.version), if_neg htable, h.table, if_neg (by decide), hprep,
    if_neg hcolumn, if_neg fun hs => h.sourceExpr hs.1 hs.2, hstrategy, if_neg (by decide),
    if_neg hexpand, hsteps]
  simp only [hfailure, if_false, hdefaults]

/-- **What is returned is returned again.** -/
theorem validate_validate (hv : validate p = .ok p') : validate p' = .ok p' := by
  obtain ⟨rfl, hacc⟩ := validate_ok hv
  exact validate_of_accepted hacc (prepare_prepare p)

/-! ### What fits a JSON column -/

def columnStrings (col : ColumnSpec) : List String := [col.name, col.type, col.expression]

/-- The texts of a plan. -/
def strings (p : MigrationPlan) : List String :=
  [p.id, p.table, p.backfill.column, p.backfill.sourceExpr, p.backfill.multiSQL, p.verify.mode] ++
    (p.expand ++ (p.contract ++ (p.rollback ++ (p.dropColumns ++ p.addColumns.flatMap columnStrings))))

/-- The integers of a plan. -/
def ints (p : MigrationPlan) : List ℤ :=
  [p.version, p.backfill.batchSize, p.backfill.throttleMs, p.canary.bakeSeconds, p.slo.maxP99LatencyMs,
    p.chaos.failCanaryAtStep] ++ p.canary.steps

/-- **The plan fits a JSON column**, as far as its types do not see to it. -/
structure Fits (p : MigrationPlan) : Prop where
  strings : ∀ s ∈ strings p, NulFree s
  ints : ∀ n ∈ ints p, IsInt64 n

theorem nulFree_empty : NulFree "" := by decide

@[simp] theorem nulFree_append {s t : String} : NulFree (s ++ t) ↔ NulFree s ∧ NulFree t := by
  simp [NulFree]

theorem nulFree_intercalate {sep : String} {l : List String} (hsep : NulFree sep)
    (h : ∀ s ∈ l, NulFree s) : NulFree (sep.intercalate l) := by
  induction l with
  | nil => exact nulFree_empty
  | cons s l ih =>
    obtain ⟨hs, hl⟩ := List.forall_mem_cons.mp h
    rcases eq_or_ne l [] with rfl | hne
    · simpa using hs
    · rw [String.intercalate_cons_of_ne_nil hne]
      exact nulFree_append.mpr ⟨nulFree_append.mpr ⟨hs, hsep⟩, ih hl⟩

theorem mem_of_mem_takeBytes {n : ℕ} {l : List Char} {c : Char} (h : c ∈ takeBytes n l) : c ∈ l := by
  induction l generalizing n with
  | nil => simp [takeBytes] at h
  | cons d l ih =>
    rw [takeBytes] at h
    split_ifs at h
    · rcases List.mem_cons.mp h with rfl | h
      · exact List.mem_cons_self
      · exact List.mem_cons_of_mem d (ih h)
    · cases h

section Generated
variable {table : String} {add : List ColumnSpec} {drop : List String} {col : ColumnSpec}

theorem nulFree_idxName (ht : NulFree table) (hc : NulFree col.name) : NulFree (idxName table col) := by
  have hidx : NulFree "idx_" := by decide
  have hsep : NulFree "_" := by decide
  have hall : NulFree ("idx_" ++ table ++ "_" ++ col.name) := by simp [ht, hc, hidx, hsep]
  unfold idxName truncateName NulFree
  rw [String.toList_ofList]
  exact fun h => hall (mem_of_mem_takeBytes h)

/-- The statements of a column. -/
theorem nulFree_column (ht : NulFree table) (hc : ∀ s ∈ columnStrings col, NulFree s) :
    NulFree (addColumnDDL table col) ∧ NulFree (createIndexDDL table col) ∧
      NulFree (setNotNullDDL table col) ∧ NulFree (dropIndexDDL table col) ∧
      NulFree (setClause col) ∧ NulFree (nullCheck col) := by
  simp only [columnStrings, List.forall_mem_cons] at hc
  obtain ⟨hname, htype, hexpr, -⟩ := hc
  have hidx := nulFree_idxName ht hname
  unfold addColumnDDL createIndexDDL setNotNullDDL dropIndexDDL setClause nullCheck
  simp only [nulFree_append, ht, hname, htype, hexpr, hidx]
  decide

theorem nulFree_dropColumnDDL {name : String} (ht : NulFree table) (hname : NulFree name) :
    NulFree (dropColumnDDL table name) := by
  unfold dropColumnDDL
  simp only [nulFree_append, ht, hname]
  decide

theorem nulFree_composite {cols : List ColumnSpec} (ht : NulFree table)
    (hcols : ∀ col ∈ cols, ∀ s ∈ columnStrings col, NulFree s) :
    NulFree (generateCompositeBackfill table cols) := by
  have hset : NulFree (", ".intercalate (cols.map setClause)) :=
    nulFree_intercalate (by decide) (List.forall_mem_map.mpr fun col hcol =>
      (nulFree_column ht (hcols col hcol)).2.2.2.2.1)
  have hnull : NulFree (" OR ".intercalate (cols.map nullCheck)) :=
    nulFree_intercalate (by decide) (List.forall_mem_map.mpr fun col hcol =>
      (nulFree_column ht (hcols col hcol)).2.2.2.2.2)
  unfold generateCompositeBackfill
  split_ifs
  · decide
  · simp only [nulFree_append, ht, hset, hnull]
    decide

/-- **What is generated from such texts is such a text.** -/
theorem nulFree_generate (ht : NulFree table) (hadd : ∀ col ∈ add, ∀ s ∈ columnStrings col, NulFree s)
    (hdrop : ∀ s ∈ drop, NulFree s) :
    (∀ s ∈ (generate table add drop).expand, NulFree s) ∧
      (∀ s ∈ (generate table add drop).contract, NulFree s) ∧
      (∀ s ∈ (generate table add drop).rollback, NulFree s) ∧
      NulFree (generate table add drop).backfillColumn ∧
      NulFree (generate table add drop).backfillExpr ∧
      NulFree (generate table add drop).backfillMulti := by
  have hexpr : ∀ col ∈ exprCols add, ∀ s ∈ columnStrings col, NulFree s :=
    fun col hcol => hadd col (List.mem_of_mem_filter hcol)
  have hname : ∀ col ∈ add, NulFree col.name := fun col hcol => hadd col hcol _ (by simp [columnStrings])
  unfold generate
  refine ⟨?_, ?_, ?_, ?_, ?_, nulFree_composite ht hexpr⟩
  · simp only [List.forall_mem_flatMap, List.forall_mem_cons]
    refine fun col hcol => ⟨(nulFree_column ht (hadd col hcol)).1, ?_⟩
    split_ifs
    · exact List.forall_mem_singleton.mpr (nulFree_column ht (hadd col hcol)).2.1
    · nofun
  · simp only [List.forall_mem_append, List.forall_mem_map]
    exact ⟨fun name hmem => nulFree_dropColumnDDL ht (hdrop name hmem), fun col hcol =>
      (nulFree_column ht (hadd col (List.mem_of_mem_filter hcol))).2.2.1⟩
  · simp only [List.forall_mem_flatMap, List.forall_mem_append, List.forall_mem_singleton]
    refine fun col hcol => ⟨?_, nulFree_dropColumnDDL ht (hname col hcol)⟩
    split_ifs
    · exact List.forall_mem_singleton.mpr (nulFree_column ht (hadd col hcol)).2.2.2.1
    · nofun
  · cases hcols : exprCols add with
    | nil => exact nulFree_empty
    | cons c cs => exact hexpr c (hcols ▸ List.mem_cons_self) _ (by simp [columnStrings])
  · cases hcols : exprCols add with
    | nil => exact nulFree_empty
    | cons c cs => exact hexpr c (hcols ▸ List.mem_cons_self) _ (by simp [columnStrings])

end Generated

theorem nulFree_orText {s gen : String} (hs : NulFree s) (hgen : NulFree gen) :
    NulFree (orText s gen) := by
  unfold orText
  split_ifs <;> assumption

theorem nulFree_orElse {l gen : List String} (hl : ∀ s ∈ l, NulFree s) (hgen : ∀ s ∈ gen, NulFree s) :
    ∀ s ∈ orElse l gen, NulFree s := by
  unfold orElse
  split_ifs <;> assumption

theorem isInt64_orInt {n dflt : ℤ} (hn : IsInt64 n) (hd : IsInt64 dflt) : IsInt64 (orInt n dflt) := by
  unfold orInt
  split_ifs <;> assumption

theorem fits_generateDDL (h : Fits p) : Fits p.generateDDL := by
  have hstrings := h.strings
  have hints := h.ints
  simp only [strings, ints, List.forall_mem_append, List.forall_mem_cons, List.forall_mem_flatMap]
    at hstrings hints
  obtain ⟨⟨hid, htable, hcol, hsrc, hmulti, hmode, -⟩, hexp, hcon, hroll, hdrop, hadd⟩ := hstrings
  obtain ⟨⟨hver, hbatch, hpause, hbake, hp99, hchaos, -⟩, hsteps⟩ := hints
  obtain ⟨gexp, gcon, groll, gcol, gsrc, gmulti⟩ := nulFree_generate htable hadd hdrop
  constructor
  · simp only [strings, List.forall_mem_append, List.forall_mem_cons, List.forall_mem_flatMap]
    exact ⟨⟨hid, htable, nulFree_orText hcol gcol, nulFree_orText hsrc gsrc, nulFree_orText hmulti gmulti,
      hmode, nofun⟩, nulFree_orElse hexp gexp, nulFree_orElse hcon gcon, nulFree_orElse hroll groll,
      hdrop, hadd⟩
  · simp only [ints, List.forall_mem_append, List.forall_mem_cons]
    exact ⟨⟨hver, isInt64_orInt hbatch (by decide), isInt64_orInt hpause (by decide), hbake, hp99, hchaos,
      nofun⟩, hsteps⟩

theorem fits_prepare (h : Fits p) : Fits p.prepare := by
  unfold MigrationPlan.prepare
  split_ifs
  · exact fits_generateDDL h
  · exact h

theorem fits_withDefaults (h : Fits p) : Fits p.withDefaults := by
  have hmode : p.verify.orDefault.mode = p.verify.mode := by unfold Verify.orDefault; split_ifs <;> rfl
  have hbake : p.canary.orDefault.bakeSeconds = p.canary.bakeSeconds := by
    unfold Canary.orDefault; split_ifs <;> rfl
  have hsteps : ∀ n ∈ p.canary.orDefault.steps, IsInt64 n := by
    unfold Canary.orDefault
    split_ifs
    · exact List.forall_iff_forall_mem.mp (show List.Forall IsInt64 [1, 5, 25, 100] by decide)
    · exact fun n hn => h.ints n (List.mem_append_right _ hn)
  have hstrings : strings p.withDefaults = strings p := by
    simp only [strings, MigrationPlan.withDefaults, hmode]
  refine ⟨hstrings ▸ h.strings, ?_⟩
  have hints := h.ints
  simp only [ints, MigrationPlan.withDefaults, List.forall_mem_append, hbake] at hints ⊢
  exact ⟨hints.1, hsteps⟩

/-- **A validated plan fits if the submitted one does.** -/
theorem fits_validate (hv : validate p = .ok p') (h : Fits p) : Fits p' := by
  obtain ⟨rfl, -⟩ := validate_ok hv
  exact fits_withDefaults (fits_prepare h)

theorem fits_twoColumnPlan : Fits twoColumnPlan where
  strings := List.forall_iff_forall_mem.mp
    (show List.Forall NulFree (Idempotence.strings twoColumnPlan) by decide +kernel)
  ints := List.forall_iff_forall_mem.mp
    (show List.Forall IsInt64 (Idempotence.ints twoColumnPlan) by decide +kernel)

end MigrationSafety.Plan.Idempotence
