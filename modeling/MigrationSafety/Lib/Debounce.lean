import Mathlib.Order.Basic
import Mathlib.Order.Nat
import Mathlib.Data.Nat.Notation

/-! # A debounced switch

A switch with two positions reads values one after the other and changes its position when `k` of them
in a row speak against it. It has one counter, which a change sets back; `changes_iff` says that the
counter is exact: the switch changes at a reading if and only if it and the `k - 1` before it were all
taken in the same position and all speak against it. -/

namespace MigrationSafety.Lib.Debounce

/-- A position, and how many readings in a row have spoken against it. -/
structure Switch where
  on : Bool
  count : ℕ

variable {α : Type} (k : ℕ) (against : Bool → α → Prop) [∀ b, DecidablePred (against b)]

/-- One reading. -/
def Switch.read (s : Switch) (x : α) : Switch :=
  if against s.on x then
    if k ≤ s.count + 1 then ⟨!s.on, 0⟩ else ⟨s.on, s.count + 1⟩
  else ⟨s.on, 0⟩

/-- The switch before the `n`-th of the readings `a`. -/
def Switch.before (s : Switch) (a : ℕ → α) : ℕ → Switch
  | 0 => s
  | n + 1 => (s.before a n).read k against (a n)

section
variable {k against} {s : Switch} {x : α} {a : ℕ → α} {n : ℕ}

@[simp] theorem before_zero : s.before k against a 0 = s := rfl

theorem before_succ : s.before k against a (n + 1) = (s.before k against a n).read k against (a n) :=
  rfl

theorem read_of_not (h : ¬against s.on x) : s.read k against x = ⟨s.on, 0⟩ := if_neg h

theorem read_of_lt (h : against s.on x) (hk : s.count + 1 < k) :
    s.read k against x = ⟨s.on, s.count + 1⟩ := by
  unfold Switch.read
  rw [if_pos h, if_neg (not_le.mpr hk)]

theorem read_of_le (h : against s.on x) (hk : k ≤ s.count + 1) : s.read k against x = ⟨!s.on, 0⟩ := by
  unfold Switch.read
  rw [if_pos h, if_pos hk]

/-- **A change**: the counter is full, and the reading speaks against the position. -/
theorem on_read_ne_iff : (s.read k against x).on ≠ s.on ↔ against s.on x ∧ k ≤ s.count + 1 := by
  unfold Switch.read
  split_ifs with h h' <;> simp [h] <;> omega

/-- The last `c` of the first `n` readings were taken in the position before the `n`-th, and speak
against it. -/
def Against (k : ℕ) (against : Bool → α → Prop) [∀ b, DecidablePred (against b)] (s : Switch)
    (a : ℕ → α) (n c : ℕ) : Prop :=
  c ≤ n ∧ ∀ j, n ≤ j + c → j < n →
    (s.before k against a j).on = (s.before k against a n).on ∧
      against (s.before k against a n).on (a j)

theorem against_zero : Against k against s a n 0 :=
  ⟨Nat.zero_le n, fun j h h' => absurd h (by omega)⟩

/-- One more reading. -/
theorem against_succ {c : ℕ} : Against k against s a (n + 1) (c + 1) ↔
    (s.before k against a (n + 1)).on = (s.before k against a n).on ∧
      against (s.before k against a n).on (a n) ∧ Against k against s a n c := by
  constructor
  · rintro ⟨hc, h⟩
    obtain ⟨hon, hx⟩ := h n (by omega) (by omega)
    refine ⟨hon.symm, hon ▸ hx, by omega, fun j hj hjn => ?_⟩
    have := h j (by omega) (by omega)
    rwa [← hon] at this
  · rintro ⟨hon, hx, hc, h⟩
    refine ⟨by omega, fun j hj hjn => ?_⟩
    rw [hon]
    rcases (Nat.lt_succ_iff_lt_or_eq.mp hjn) with hlt | rfl
    · exact h j (by omega) hlt
    · exact ⟨rfl, hx⟩

/-- **The counter is exact**: it counts the readings that have spoken against the position in a row. -/
theorem against_iff (hs : s.count = 0) {c : ℕ} :
    Against k against s a n c ↔ c ≤ (s.before k against a n).count := by
  induction n generalizing c with
  | zero =>
    refine ⟨fun h => h.1.trans (Nat.zero_le _), fun h => ?_⟩
    obtain rfl : c = 0 := by
      rw [before_zero] at h
      omega
    exact against_zero
  | succ n ih =>
    cases c with
    | zero => exact iff_of_true against_zero (Nat.zero_le _)
    | succ c =>
      rw [against_succ, ih, before_succ]
      by_cases hx : against (s.before k against a n).on (a n)
      · rcases Nat.lt_or_ge ((s.before k against a n).count + 1) k with hlt | hle
        · rw [read_of_lt hx hlt]
          simp [hx]
        · rw [read_of_le hx hle]
          simp
      · rw [read_of_not hx]
        simp [hx]

/-- **The switch changes at a reading if and only if** it and the `k - 1` before it were all taken in
the same position, and all speak against it. -/
theorem changes_iff (hs : s.count = 0) (hk : 0 < k) :
    (s.before k against a (n + 1)).on ≠ (s.before k against a n).on ↔ k ≤ n + 1 ∧
      ∀ j, n + 1 ≤ j + k → j ≤ n →
        (s.before k against a j).on = (s.before k against a n).on ∧
          against (s.before k against a n).on (a j) := by
  obtain ⟨k', rfl⟩ : ∃ k', k = k' + 1 := ⟨k - 1, by omega⟩
  have hread : (s.before (k' + 1) against a (n + 1)).on ≠ (s.before (k' + 1) against a n).on ↔
      against (s.before (k' + 1) against a n).on (a n) ∧
        k' + 1 ≤ (s.before (k' + 1) against a n).count + 1 := on_read_ne_iff
  rw [hread, Nat.add_le_add_iff_right, ← against_iff hs]
  constructor
  · rintro ⟨hx, hc, h⟩
    refine ⟨by omega, fun j hj hjn => ?_⟩
    rcases hjn.lt_or_eq with hlt | rfl
    · exact h j (by omega) hlt
    · exact ⟨rfl, hx⟩
  · rintro ⟨hc, h⟩
    exact ⟨(h n (by omega) le_rfl).2, by omega, fun j hj hjn => h j (by omega) hjn.le⟩

end

end MigrationSafety.Lib.Debounce
