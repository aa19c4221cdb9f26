import Mathlib.Algebra.BigOperators.Group.List.Basic
import Mathlib.Algebra.Group.Basic
import Mathlib.Data.List.Sort

/-! # Tilings

Half-open intervals, one beginning where the one before ends, tile the range from the start of the first
to the end of the last.

* `Tiles.countP_has`: each element of the range is in exactly one of the intervals.
* `Tiles.bounds`: the intervals lie in the range.
* `Tiles.sum`: their lengths add up to that of the range.
* `tiles_flatMap`: tilings of consecutive ranges, one after the other. -/

namespace MigrationSafety.Lib.Tilings

variable {α : Type}

/-- **A tiling** of the range from `a` to `b` by non-empty intervals. -/
def Tiles [LT α] (a : α) : List (α × α) → α → Prop
  | [], b => a = b
  | p :: l, b => p.1 = a ∧ a < p.2 ∧ Tiles p.2 l b

section Order
variable [LinearOrder α] {a b c x : α} {l l' : List (α × α)} {p : α × α}

/-- The element is in the interval. -/
def has (x : α) (p : α × α) : Bool := decide (p.1 ≤ x ∧ x < p.2)

theorem Tiles.le (h : Tiles a l b) : a ≤ b := by
  induction l generalizing a with
  | nil => exact h.le
  | cons p l ih =>
    obtain ⟨-, hlt, hl⟩ := h
    exact hlt.le.trans (ih hl)

theorem Tiles.append (h : Tiles a l b) (h' : Tiles b l' c) : Tiles a (l ++ l') c := by
  induction l generalizing a with
  | nil =>
    cases h
    exact h'
  | cons p l ih =>
    obtain ⟨hp, hlt, hl⟩ := h
    exact ⟨hp, hlt, ih hl⟩

theorem Tiles.bounds (h : Tiles a l b) (hp : p ∈ l) : a ≤ p.1 ∧ p.2 ≤ b := by
  induction l generalizing a with
  | nil => cases hp
  | cons q l ih =>
    obtain ⟨rfl, hlt, hl⟩ := h
    rcases List.mem_cons.mp hp with rfl | hp
    · exact ⟨le_rfl, hl.le⟩
    · obtain ⟨hle, hle'⟩ := ih hl hp
      exact ⟨hlt.le.trans hle, hle'⟩

/-- What is not in the range is in no interval. -/
theorem Tiles.countP_has_of_not (h : Tiles a l b) (hx : ¬(a ≤ x ∧ x < b)) : l.countP (has x) = 0 := by
  refine List.countP_eq_zero.mpr fun p hp hhas => hx ?_
  obtain ⟨hle, hlt⟩ := of_decide_eq_true hhas
  obtain ⟨ha, hb⟩ := h.bounds hp
  exact ⟨ha.trans hle, hlt.trans_le hb⟩

/-- **Exactly one**, by induction on the intervals: it is in the first, or after its end. -/
theorem Tiles.countP_has (h : Tiles a l b) (ha : a ≤ x) (hb : x < b) : l.countP (has x) = 1 := by
  induction l generalizing a with
  | nil =>
    cases h
    exact absurd hb (not_lt.mpr ha)
  | cons p l ih =>
    obtain ⟨rfl, hlt, hl⟩ := h
    by_cases hx : x < p.2
    · have hhas : has x p = true := decide_eq_true ⟨ha, hx⟩
      rw [List.countP_cons_of_pos hhas, hl.countP_has_of_not fun hrest => not_lt.mpr hrest.1 hx]
    · rw [List.countP_cons_of_neg (by simp [has, hx])]
      exact ih hl (not_lt.mp hx)

/-- **One after the other.** -/
theorem tiles_flatMap {n : ℕ} {g : ℕ → α} {f : ℕ → List (α × α)}
    (h : ∀ i < n, Tiles (g i) (f i) (g (i + 1))) : Tiles (g 0) ((List.range n).flatMap f) (g n) := by
  induction n with
  | zero => rfl
  | succ n ih =>
    rw [List.range_succ, List.flatMap_append, List.flatMap_singleton]
    exact (ih fun i hi => h i (Nat.lt_succ_of_lt hi)).append (h n (Nat.lt_succ_self n))

end Order

/-- **The lengths.** -/
theorem Tiles.sum [AddCommGroup α] [LT α] {a b : α} {l : List (α × α)} (h : Tiles a l b) :
    (l.map fun p => p.2 - p.1).sum = b - a := by
  induction l generalizing a with
  | nil =>
    cases h
    exact (sub_self _).symm
  | cons p l ih =>
    obtain ⟨rfl, -, hl⟩ := h
    rw [List.map_cons, List.sum_cons, ih hl, add_comm, sub_add_sub_cancel]

end MigrationSafety.Lib.Tilings
