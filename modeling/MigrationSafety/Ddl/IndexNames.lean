import MigrationSafety.Ddl.Undo

/-! # The names of the generated indexes

The name of an index joins table and column with `_` and is cut to 63 bytes, of which `idx_` takes four.
So two columns have different indexes if and only if what is joined differs in its first 59 bytes, apart
from upper and lower case (`distinct_iff`). It need not: `_` is a letter of identifiers as well
(`indexName_separator`), and a long table name leaves little of the column (`indexName_cut`). -/

namespace MigrationSafety.Ddl.IndexNames

open MigrationSafety.Sql.Text MigrationSafety.Ddl.Generate MigrationSafety.Ddl.Undo

variable {table t₁ t₂ : String} {col c₁ c₂ : ColumnSpec}

/-- Table and column, joined, as an unquoted name is read. -/
def joined (table : String) (col : ColumnSpec) : List Char :=
  (table ++ "_" ++ col.name).toList.map Char.toLower

theorem bytes_of_identRe {s : String} (h : identRe s = true) : ∀ c ∈ s.toList, c.utf8Size = 1 :=
  fun c hc => utf8Size_of_isIdentChar (List.all_eq_true.mp (all_of_identRe h) c hc)

/-- The text of a name that is one: its first 63 letters. -/
theorem toList_idxName (ht : identRe table = true) (hc : identRe col.name = true) :
    (idxName table col).toList = ("idx_" ++ table ++ "_" ++ col.name).toList.take 63 := by
  have hidx : ∀ c ∈ "idx_".toList, c.utf8Size = 1 := bytes_of_identRe (by decide)
  have hsep : ∀ c ∈ "_".toList, c.utf8Size = 1 := bytes_of_identRe (by decide)
  have hbytes : ∀ c ∈ ("idx_" ++ table ++ "_" ++ col.name).toList, c.utf8Size = 1 := by
    simp only [String.toList_append, List.forall_mem_append]
    exact ⟨⟨⟨hidx, bytes_of_identRe ht⟩, hsep⟩, bytes_of_identRe hc⟩
  unfold idxName truncateName
  rw [String.toList_ofList, takeBytes_eq_take hbytes]

/-- The name of an index is an identifier. -/
theorem identRe_idxName (ht : identRe table = true) (hc : identRe col.name = true) :
    identRe (idxName table col) = true := by
  have hcons : ("idx_" ++ table ++ "_" ++ col.name).toList =
      'i' :: ("dx_".toList ++ table.toList ++ "_".toList ++ col.name.toList) := by
    simp only [String.toList_append]
    rfl
  have hall : ("dx_".toList ++ table.toList ++ "_".toList ++ col.name.toList).all isIdentChar = true := by
    simp only [List.all_append, all_of_identRe ht, all_of_identRe hc, Bool.and_true]
    decide
  unfold identRe
  rw [toList_idxName ht hc, hcons, List.take_succ_cons]
  show (isIdentStart 'i' && List.all _ isIdentChar) = true
  rw [Bool.and_eq_true]
  exact ⟨by decide, List.all_eq_true.mpr fun c h => List.all_eq_true.mp hall c (List.mem_of_mem_take h)⟩

/-- **The name of an index**: four letters and the first 59 of the joined names. -/
theorem indexName_eq (ht : identRe table = true) (hc : identRe col.name = true) :
    indexName table col = "idx_".toList ++ (joined table col).take 59 := by
  have hname := toList_idxName ht hc
  have hlower : ∀ c ∈ (idxName table col).toList.map Char.toLower, c.utf8Size = 1 := by
    rw [List.forall_mem_map]
    exact fun c hc' => utf8Size_toLower (bytes_of_identRe (identRe_idxName ht hc) c hc')
  have hjoin : ("idx_" ++ table ++ "_" ++ col.name).toList.map Char.toLower =
      "idx_".toList ++ joined table col := by
    unfold joined
    simp only [String.toList_append, List.map_append, List.append_assoc]
    rfl
  unfold indexName foldIdent
  rw [takeBytes_eq_take hlower, hname, List.map_take, List.take_take, min_self, hjoin]
  exact @List.take_length_add_append _ "idx_".toList _ 59

/-! ### Collisions -/

/-- The separator does not tell where the table ends. -/
theorem indexName_separator (t u c : String) : indexName t { name := u ++ "_" ++ c } =
    indexName (t ++ "_" ++ u) { name := c } := by
  unfold indexName idxName
  simp only [String.append_assoc]

/-- Columns of one table that agree in what the cut leaves of them. -/
theorem indexName_cut (ht : identRe table = true) (h₁ : identRe c₁.name = true)
    (h₂ : identRe c₂.name = true)
    (h : c₁.name.toList.take (58 - table.length) = c₂.name.toList.take (58 - table.length)) :
    indexName table c₁ = indexName table c₂ := by
  have hjoined : ∀ c : ColumnSpec, (joined table c).take 59 =
      ((table.toList ++ ['_']).map Char.toLower).take 59 ++
        (c.name.toList.take (58 - table.length)).map Char.toLower := by
    intro c
    have hlen : 59 - ((table.toList ++ ['_']).map Char.toLower).length = 58 - table.length := by
      rw [List.length_map, List.length_append, String.length_toList]
      simp only [List.length_singleton]
      omega
    have hsep : "_".toList = ['_'] := by decide
    unfold joined
    rw [String.toList_append, String.toList_append, hsep, List.map_append, List.take_append, hlen,
      List.map_take]
  rw [indexName_eq ht h₁, indexName_eq ht h₂, hjoined, hjoined, h]

/-! ### Different columns, different indexes -/

/-- **Different columns have different indexes.** -/
def Distinct (t₁ : String) (c₁ : ColumnSpec) (t₂ : String) (c₂ : ColumnSpec) : Prop :=
  (t₁, c₁.name) ≠ (t₂, c₂.name) → indexName t₁ c₁ ≠ indexName t₂ c₂

/-- **When they have**: when the joined names differ in their first 59 bytes, apart from upper and lower
case. -/
theorem distinct_iff (ht₁ : identRe t₁ = true) (hc₁ : identRe c₁.name = true)
    (ht₂ : identRe t₂ = true) (hc₂ : identRe c₂.name = true) : Distinct t₁ c₁ t₂ c₂ ↔
      (t₁, c₁.name) = (t₂, c₂.name) ∨ (joined t₁ c₁).take 59 ≠ (joined t₂ c₂).take 59 := by
  unfold Distinct
  rw [indexName_eq ht₁ hc₁, indexName_eq ht₂ hc₂, ne_eq, ne_eq, List.append_right_inj, imp_iff_not_or,
    not_not]

/-- Two columns of one table. -/
theorem distinct_two : Distinct "t" { name := "b" } "t" { name := "c" } :=
  (distinct_iff (by decide) (by decide) (by decide) (by decide)).mpr (Or.inr (by decide))

/-- The column `b_c` of `a`, and the column `c` of `a_b`. -/
theorem not_distinct : ¬∀ (t₁ : String) (c₁ : ColumnSpec) (t₂ : String) (c₂ : ColumnSpec),
    identRe t₁ = true → t₁.length ≤ 63 → identRe c₁.name = true → c₁.name.length ≤ 63 →
    identRe t₂ = true → t₂.length ≤ 63 → identRe c₂.name = true → c₂.name.length ≤ 63 →
      Distinct t₁ c₁ t₂ c₂ := by
  intro h
  have hdistinct := h "a" { name := "b_c" } "a_b" { name := "c" } (by decide) (by decide) (by decide)
    (by decide) (by decide) (by decide) (by decide) (by decide)
  exact hdistinct (by decide) (indexName_separator "a" "b" "c")

end MigrationSafety.Ddl.IndexNames
