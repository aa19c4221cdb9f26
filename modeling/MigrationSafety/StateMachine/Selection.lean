import Mathlib.Data.List.Pairwise
import MigrationSafety.StateMachine.Faultless

/-! # The rows of a batch

What the three statements of a batch do to a table of which any part may be filled already: `selected`
takes the first rows that are NULL (`selected_split`), `updateRows` writes to the rows with these ids
and no others, and `maxId` looks at whatever is filled, by this batch or before. -/

namespace MigrationSafety.StateMachine.Selection

open MigrationSafety.Sql.Rows MigrationSafety.StateMachine.Faultless

variable {V : Type} {eval : Eval V} {rows : List (Row V)} {col expr : String} {c limit x : ℤ}
  {r : Row V} {ids : List ℤ}

/-! ### Selecting -/

/-- The beginning of a sorted list is what is at most its last element. -/
theorem mem_take_sorted {l : List ℤ} (hl : l.Pairwise (· ≤ ·)) (hne : l ≠ []) {k : ℕ} (hk : 0 < k) :
    ∃ m ∈ l, ∀ x ∈ l, x ∈ l.take k ↔ x ≤ m := by
  have htake : l.take k ≠ [] := by
    rw [Ne, List.take_eq_nil_iff]
    rintro (h | h)
    · exact hk.ne' h
    · exact hne h
  have hlast := List.getLast_mem htake
  refine ⟨(l.take k).getLast htake, List.mem_of_mem_take hlast, fun x hx => ⟨fun hmem => ?_, fun hle => ?_⟩⟩
  · exact (hl.sublist (List.take_sublist k l)).rel_getLast hmem
  · rw [← List.take_append_drop k l] at hx hl
    rcases List.mem_append.mp hx with hx | hx
    · exact hx
    · have hge := (List.pairwise_append.mp hl).2.2 _ hlast x hx
      rwa [le_antisymm hle hge]

theorem mem_candidates :
    x ∈ ((rows.filter fun r => (r.get col).isNone ∧ c < r.id).map Row.id).insertionSort (· ≤ ·) ↔
      ∃ r ∈ rows, r.get col = none ∧ c < r.id ∧ r.id = x := by
  simp [List.mem_insertionSort, and_assoc]

theorem mem_selected_imp (h : x ∈ selected rows col c limit) :
    ∃ r ∈ rows, r.get col = none ∧ c < r.id ∧ r.id = x :=
  mem_candidates.mp (List.mem_of_mem_take h)

/-- A batch takes nothing up to the cursor. -/
theorem notMem_selected (h : x ≤ c) : x ∉ selected rows col c limit := by
  intro hx
  obtain ⟨r, -, -, hc, rfl⟩ := mem_selected_imp hx
  omega

/-- **A batch takes the NULL rows after the cursor up to some id.** -/
theorem selected_split (hlimit : 0 < limit) (h : ∃ r ∈ rows, r.get col = none ∧ c < r.id) :
    ∃ m, (∃ r ∈ rows, r.get col = none ∧ c < r.id ∧ r.id = m) ∧
      ∀ r ∈ rows, r.get col = none → c < r.id →
        (r.id ∈ selected rows col c limit ↔ r.id ≤ m) := by
  have hne : ((rows.filter fun r => (r.get col).isNone ∧ c < r.id).map Row.id).insertionSort (· ≤ ·) ≠
      [] := by
    obtain ⟨r, hr, hnull, hc⟩ := h
    exact List.ne_nil_of_mem (mem_candidates.mpr ⟨r, hr, hnull, hc, rfl⟩)
  obtain ⟨m, hm, htake⟩ := mem_take_sorted (List.pairwise_insertionSort (· ≤ ·) _) hne
    (Int.lt_toNat.mpr hlimit)
  exact ⟨m, mem_candidates.mp hm, fun r hr hnull hc =>
    htake _ (mem_candidates.mpr ⟨r, hr, hnull, hc, rfl⟩)⟩

/-- The number of rows a batch updates is zero if and only if it takes none. -/
theorem countP_selected_eq_zero : (rows.countP fun row => row.id ∈ selected rows col c limit) = 0 ↔
    selected rows col c limit = [] := by
  rw [List.countP_eq_zero]
  constructor
  · intro h
    rw [List.eq_nil_iff_forall_not_mem]
    intro x hx
    obtain ⟨r, hr, -, -, rfl⟩ := mem_selected_imp hx
    exact h r hr (by simpa using hx)
  · intro h r _
    simp [h]

/-- A batch that takes no row finds none. -/
theorem not_null_of_selected_eq_nil (hlimit : 0 < limit) (h : selected rows col c limit = [])
    (hr : r ∈ rows) (hc : c < r.id) : r.get col ≠ none := by
  intro hnull
  obtain ⟨m, ⟨r', hr', hnull', hc', rfl⟩, hiff⟩ := selected_split hlimit ⟨r, hr, hnull, hc⟩
  have := (hiff r' hr' hnull' hc').mpr le_rfl
  rw [h] at this
  cases this

/-- A batch of one row takes only the first id. -/
theorem notMem_selected_one {q : Row V} (hq : q ∈ rows) (hr : r ∈ rows) (hqnull : q.get col = none)
    (hnull : r.get col = none) (hc : c < q.id) (hlt : q.id < r.id) : r.id ∉ selected rows col c 1 := by
  intro hmem
  obtain ⟨m, -, hiff⟩ := selected_split (c := c) Int.one_pos ⟨q, hq, hqnull, hc⟩
  have hle := (hiff r hr hnull (hc.trans hlt)).mp hmem
  have hmem' := (hiff q hq hqnull hc).mpr (by omega)
  have hlen : (selected rows col c 1).length ≤ 1 := List.length_take_le _ _
  rcases hsel : selected rows col c 1 with _ | ⟨x, _ | ⟨y, l⟩⟩
  · rw [hsel] at hmem
    cases hmem
  · rw [hsel, List.mem_singleton] at hmem hmem'
    omega
  · rw [hsel] at hlen
    simp at hlen

/-- What a batch of one row takes. -/
theorem mem_selected_one (hr : r ∈ rows) (hnull : r.get col = none) (hc : c < r.id)
    (hmin : ∀ q ∈ rows, q.get col = none → c < q.id → r.id ≤ q.id) :
    x ∈ selected rows col c 1 ↔ x = r.id := by
  constructor
  · intro hx
    obtain ⟨q, hq, hqnull, hqc, rfl⟩ := mem_selected_imp hx
    by_contra hne
    exact notMem_selected_one hr hq hnull hqnull hc (lt_of_le_of_ne (hmin q hq hqnull hqc) (Ne.symm hne)) hx
  · rintro rfl
    obtain ⟨m, ⟨q, hq, hqnull, hqc, rfl⟩, hiff⟩ := selected_split (c := c) Int.one_pos ⟨r, hr, hnull, hc⟩
    exact (hiff r hr hnull hc).mpr (hmin q hq hqnull hqc)

/-- A batch that is large enough takes every NULL row after the cursor. -/
theorem mem_selected_of_length_le (hlimit : rows.length ≤ limit) (hr : r ∈ rows)
    (hnull : r.get col = none) (hc : c < r.id) : r.id ∈ selected rows col c limit := by
  unfold selected
  rw [List.take_of_length_le]
  · exact mem_candidates.mpr ⟨r, hr, hnull, hc, rfl⟩
  · rw [List.length_insertionSort, List.length_map]
    exact (List.length_filter_le _ _).trans (by omega)

/-! ### Updating -/

theorem mem_updateRows : r ∈ updateRows eval rows col expr ids ↔
    ∃ r' ∈ rows, (if r'.id ∈ ids then r'.set col (eval expr r') else r') = r := List.mem_map

theorem id_update : (if r.id ∈ ids then r.set col (eval expr r) else r).id = r.id := by
  split_ifs <;> rfl

theorem map_id_updateRows : (updateRows eval rows col expr ids).map Row.id = rows.map Row.id := by
  unfold updateRows
  rw [List.map_map]
  exact List.map_congr_left fun r _ => id_update

/-- The ids of a table are positive, and exact as floating-point numbers. -/
def InRange (rows : List (Row V)) : Prop := ∀ r ∈ rows, 1 ≤ r.id ∧ r.id ≤ 2 ^ 53

theorem InRange.update (h : InRange rows) : InRange (updateRows eval rows col expr ids) := by
  intro u hu
  obtain ⟨r, hr, rfl⟩ := mem_updateRows.mp hu
  rw [id_update]
  exact h r hr

@[simp] theorem updateRows_nil : updateRows eval rows col expr [] = rows := by
  simp [updateRows]

/-- What an update does not name stays. -/
theorem mem_updateRows_of_notMem (hr : r ∈ rows) (hids : r.id ∉ ids) :
    r ∈ updateRows eval rows col expr ids :=
  mem_updateRows.mpr ⟨r, hr, if_neg hids⟩

/-- What is NULL after an update was NULL before, if the expression has a value on the rows updated. -/
theorem null_updateRows (heval : ∀ r ∈ rows, r.id ∈ ids → eval expr r ≠ none)
    (hr : r ∈ updateRows eval rows col expr ids) (hnull : r.get col = none) : r ∈ rows ∧ r.id ∉ ids := by
  obtain ⟨q, hq, rfl⟩ := mem_updateRows.mp hr
  split_ifs at hnull ⊢ with hin
  · rw [Row.get_set_self] at hnull
    exact absurd hnull (heval q hq hin)
  · exact ⟨hq, hin⟩

/-! ### The cursor -/

/-- The new cursor, if it is one: the greatest id of a filled row. -/
theorem maxId_spec (h : c < maxId rows col c) (hc : 0 ≤ c) :
    (∃ r ∈ rows, r.get col ≠ none ∧ r.id = maxId rows col c) ∧
      ∀ r ∈ rows, r.get col ≠ none → r.id ≤ maxId rows col c := by
  unfold maxId at h ⊢
  cases hmax : ((rows.filter fun r => (r.get col).isSome ∧ c < r.id).map Row.id).max? with
  | none =>
    rw [hmax] at h
    simp only [Option.getD_none] at h
    omega
  | some m =>
    rw [hmax] at h
    obtain ⟨hmem, hle⟩ := List.max?_eq_some_iff.mp hmax
    simp only [List.mem_map, List.mem_filter, decide_eq_true_eq] at hmem hle
    obtain ⟨r, ⟨hr, hsome, -⟩, rfl⟩ := hmem
    refine ⟨⟨r, hr, Option.isSome_iff_ne_none.mp hsome, rfl⟩, fun r' hr' hsome' => ?_⟩
    rcases le_or_gt r'.id c with hle' | hgt
    · exact hle'.trans h.le
    · exact hle _ ⟨r', ⟨hr', Option.isSome_iff_ne_none.mpr hsome', hgt⟩, rfl⟩

/-- A filled row after the cursor moves it. -/
theorem lt_maxId (hr : r ∈ rows) (hsome : r.get col ≠ none) (hc : c < r.id) :
    c < maxId rows col c := by
  have hmem : r.id ∈ (rows.filter fun r => (r.get col).isSome ∧ c < r.id).map Row.id :=
    List.mem_map.mpr ⟨r, by simp [hr, hc, Option.isSome_iff_ne_none, hsome], rfl⟩
  unfold maxId
  cases hmax : ((rows.filter fun r => (r.get col).isSome ∧ c < r.id).map Row.id).max? with
  | none =>
    rw [List.max?_eq_none_iff.mp hmax] at hmem
    cases hmem
  | some m => exact hc.trans_le ((List.max?_eq_some_iff.mp hmax).2 _ hmem)

/-- The greatest id of a filled row, if it is after the cursor. -/
theorem maxId_eq (hr : r ∈ rows) (hsome : r.get col ≠ none) (hc : 0 ≤ c) (hlt : c < r.id)
    (hmax : ∀ q ∈ rows, q.get col ≠ none → q.id ≤ r.id) : maxId rows col c = r.id := by
  obtain ⟨⟨q, hq, hqsome, hid⟩, hle⟩ := maxId_spec (lt_maxId hr hsome hlt) hc
  exact le_antisymm (hid ▸ hmax q hq hqsome) (hle r hr hsome)

end MigrationSafety.StateMachine.Selection
