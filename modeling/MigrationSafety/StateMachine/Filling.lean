import Mathlib.Data.List.Sublists
import MigrationSafety.StateMachine.Selection

/-! # A backfill from the first row on

A table whose column is NULL throughout, and nobody else writes to it: a batch fills the rows up to some
id and no others (`exists_batch`), so the backfill goes through the tables `filled c` for growing `c`.
`remaining` is the number of rows left; every batch lowers it (`remaining_lt`). -/

namespace MigrationSafety.StateMachine.Filling

open MigrationSafety.Sql.Rows MigrationSafety.StateMachine.Faultless
open MigrationSafety.StateMachine.Selection

variable {V : Type}

/-- The table with the rows up to `c` filled. -/
def filled (eval : Eval V) (rows : List (Row V)) (col expr : String) (c : ℤ) : List (Row V) :=
  rows.map fun r => if r.id ≤ c then r.set col (eval expr r) else r

/-- The rows after `c`. -/
def remaining (rows : List (Row V)) (c : ℤ) : ℕ := rows.countP fun r => c < r.id

variable {eval : Eval V} {rows : List (Row V)} {col expr : String} {c limit : ℤ} {r : Row V}

/-! ### The filled table -/

theorem mem_filled {row : Row V} : row ∈ filled eval rows col expr c ↔
    ∃ r ∈ rows, (if r.id ≤ c then r.set col (eval expr r) else r) = row := List.mem_map

theorem id_filled : (if r.id ≤ c then r.set col (eval expr r) else r).id = r.id := by
  split_ifs <;> rfl

/-- Before the first id nothing is filled. -/
theorem filled_of_lt (h : ∀ r ∈ rows, c < r.id) : filled eval rows col expr c = rows := by
  unfold filled
  conv_rhs => rw [← List.map_id rows]
  refine List.map_congr_left fun r hr => ?_
  rw [if_neg (not_le.mpr (h r hr))]
  rfl

/-- After `c` nothing is filled. -/
theorem mem_filled_of_lt (hr : r ∈ rows) (hc : c < r.id) : r ∈ filled eval rows col expr c :=
  mem_filled.mpr ⟨r, hr, if_neg (not_le.mpr hc)⟩

theorem mem_of_mem_filled (hr : r ∈ filled eval rows col expr c) (hc : c < r.id) : r ∈ rows := by
  obtain ⟨q, hq, rfl⟩ := mem_filled.mp hr
  rw [id_filled] at hc
  rwa [if_neg (not_le.mpr hc)]

theorem nullCount_filled (hexpr : ∀ r ∈ rows, eval expr r ≠ none) (hdone : ∀ r ∈ rows, r.id ≤ c) :
    nullCount (filled eval rows col expr c) col = 0 := by
  rw [nullCount_eq_zero]
  intro row hrow
  obtain ⟨r, hr, rfl⟩ := mem_filled.mp hrow
  rw [if_pos (hdone r hr), Row.get_set_self]
  exact hexpr r hr

theorem remaining_lt (hr : r ∈ rows) (hc : c < r.id) : remaining rows r.id < remaining rows c := by
  have hsub : (rows.filter fun q => r.id < q.id).Sublist (rows.filter fun q => c < q.id) :=
    List.monotone_filter_right rows fun q h => by
      simp only [decide_eq_true_eq] at h ⊢
      exact hc.trans h
  simp only [remaining, List.countP_eq_length_filter]
  refine lt_of_le_of_ne hsub.length_le fun heq => ?_
  have hmem : r ∈ rows.filter fun q => c < q.id := by simp [hr, hc]
  rw [← hsub.eq_of_length heq] at hmem
  simp at hmem

/-! ### A batch -/

section Batch
variable (hnull : ∀ r ∈ rows, r.get col = none)
include hnull

/-- A batch from `c` on, while rows are left: it takes what is after `c`, up to some row `q`. -/
theorem exists_selected (hlimit : 0 < limit) (hr : r ∈ rows) (hc : c < r.id) :
    ∃ q ∈ rows, c < q.id ∧ ∀ p ∈ rows,
      p.id ∈ selected (filled eval rows col expr c) col c limit ↔ c < p.id ∧ p.id ≤ q.id := by
  have hmem : r ∈ filled eval rows col expr c := mem_filled_of_lt hr hc
  obtain ⟨m, ⟨q, hq, -, hqc, rfl⟩, hiff⟩ := selected_split (c := c) hlimit ⟨r, hmem, hnull r hr, hc⟩
  refine ⟨q, mem_of_mem_filled hq hqc, hqc, fun p hp => ⟨fun h => ?_, fun h => ?_⟩⟩
  · obtain ⟨p', -, -, hc', hid⟩ := mem_selected_imp h
    have hpc : c < p.id := hid ▸ hc'
    exact ⟨hpc, (hiff p (mem_filled_of_lt hp hpc) (hnull p hp) hpc).mp h⟩
  · exact (hiff p (mem_filled_of_lt hp h.1) (hnull p hp) h.1).mpr h.2

/-- **A batch fills the rows up to some row `q`.** -/
theorem exists_batch (hlimit : 0 < limit) (hr : r ∈ rows) (hc : c < r.id) :
    ∃ q ∈ rows, c < q.id ∧
      selected (filled eval rows col expr c) col c limit ≠ [] ∧
      updateRows eval (filled eval rows col expr c) col expr
        (selected (filled eval rows col expr c) col c limit) = filled eval rows col expr q.id := by
  obtain ⟨q, hq, hqc, hids⟩ : ∃ q ∈ rows, c < q.id ∧ ∀ p ∈ rows,
      p.id ∈ selected (filled eval rows col expr c) col c limit ↔ c < p.id ∧ p.id ≤ q.id :=
    exists_selected hnull hlimit hr hc
  refine ⟨q, hq, hqc, List.ne_nil_of_mem ((hids q hq).mpr ⟨hqc, le_rfl⟩), ?_⟩
  unfold updateRows filled
  rw [List.map_map]
  refine List.map_congr_left fun p hp => ?_
  have hp' := hids p hp
  unfold filled at hp'
  simp only [Function.comp_apply, id_filled, hp']
  rcases le_or_gt p.id c with hle | hlt
  · rw [if_neg fun h => absurd hle (not_le.mpr h.1), if_pos hle, if_pos (hle.trans hqc.le)]
  · rw [if_neg (not_le.mpr hlt)]
    simp only [hlt, true_and]

/-- The cursor of the next batch. -/
theorem maxId_filled (hexpr : ∀ r ∈ rows, eval expr r ≠ none) (hr : r ∈ rows) (hc : 0 ≤ c)
    (hlt : c < r.id) : maxId (filled eval rows col expr r.id) col c = r.id := by
  have hmem : r.set col (eval expr r) ∈ filled eval rows col expr r.id :=
    mem_filled.mpr ⟨r, hr, if_pos le_rfl⟩
  show _ = (r.set col (eval expr r)).id
  refine maxId_eq hmem ?_ hc hlt ?_
  · rw [Row.get_set_self]
    exact hexpr r hr
  · intro row hrow hsome
    obtain ⟨q, hq, rfl⟩ := mem_filled.mp hrow
    rw [id_filled]
    by_contra hle
    rw [Row.id_set] at hle
    rw [if_neg hle] at hsome
    exact hsome (hnull q hq)

end Batch

/-- No row is left. -/
theorem selected_filled (hdone : ∀ r ∈ rows, r.id ≤ c) :
    selected (filled eval rows col expr c) col c limit = [] := by
  rw [List.eq_nil_iff_forall_not_mem]
  intro x hx
  obtain ⟨r, hr, -, hc, -⟩ := mem_selected_imp hx
  exact absurd (hdone r (mem_of_mem_filled hr hc)) (not_le.mpr hc)

end MigrationSafety.StateMachine.Filling
