import Mathlib.Data.List.Sort
import Mathlib.Order.WithBot

/-! # Sweeps

A sweep is an update of all elements whose key is among the first few keys of the pending elements, in
the order of the keys; an element may have no key, which comes last in the order and is never among
any. It is repeated until it hits nothing.

* `run_marked`: after some sweeps, exactly the elements with certain keys have been fixed.
* `loop_eq_some_iff`: if fixing leaves nothing pending, the loop ends, with every element fixed that has
  its key in common with a pending one. -/

namespace MigrationSafety.Lib.Sweeps

variable {R K : Type} [LinearOrder K]

/-- The keys of the elements, which of them are pending, and what fixing makes of them. -/
structure Sweep (R K : Type) where
  key : R → Option K
  pending : R → Bool
  fix : R → R

namespace Sweep

variable (s : Sweep R K) (limit : ℕ) (l : List R)

/-- The key of an element in the order of the keys, without a key last. -/
def rank (r : R) : WithTop K := s.key r

/-- The first keys of the pending elements. -/
def selected : List (WithTop K) :=
  (((l.filter s.pending).map s.rank).insertionSort (· ≤ ·)).take limit

/-- The key of the element is among the selected ones. -/
def hits (r : R) : Bool := (s.key r).isSome && decide (s.rank r ∈ s.selected limit l)

/-- **One sweep**, with the number of elements it hits. -/
def run : List R × ℕ :=
  (l.map fun r => if s.hits limit l r then s.fix r else r, l.countP (s.hits limit l))

/-- **Sweeps until nothing is hit**, with fuel. -/
def loop : ℕ → List R → Option (List R)
  | 0, _ => none
  | n + 1, l => if (s.run limit l).2 = 0 then some (s.run limit l).1 else loop n (s.run limit l).1

/-- The elements with these keys are fixed. -/
def marked (D : K → Bool) (r : R) : R := if (s.key r).any D then s.fix r else r

/-- The keys of the pending elements. -/
def keys (k : K) : Bool := l.any fun r => s.pending r && decide (s.key r = some k)

end Sweep

variable {s : Sweep R K} {limit n : ℕ} {l l' : List R} {D : K → Bool} {r : R} {k : K}

open Sweep

theorem keys_iff : s.keys l k = true ↔ ∃ r ∈ l, s.pending r = true ∧ s.key r = some k := by
  simp [keys]

/-- A selected key is the key of a pending element. -/
theorem keys_of_selected (h : (k : WithTop K) ∈ s.selected limit l) : s.keys l k = true := by
  have hmem := List.mem_of_mem_take h
  rw [List.mem_insertionSort, List.mem_map] at hmem
  obtain ⟨r, hr, hk⟩ := hmem
  obtain ⟨hr, hp⟩ := List.mem_filter.mp hr
  exact keys_iff.mpr ⟨r, hr, hp, hk⟩

/-- As long as a pending element has a key, some key is selected: the first one is at most its key. -/
theorem exists_selected (hl : 0 < limit) (hr : s.keys l k = true) :
    ∃ k' : K, (k' : WithTop K) ∈ s.selected limit l := by
  obtain ⟨r, hr, hp, hk⟩ := keys_iff.mp hr
  have hmem : (k : WithTop K) ∈ ((l.filter s.pending).map s.rank).insertionSort (· ≤ ·) := by
    rw [List.mem_insertionSort, List.mem_map]
    exact ⟨r, List.mem_filter.mpr ⟨hr, hp⟩, hk⟩
  have hsort := List.pairwise_insertionSort (· ≤ ·) ((l.filter s.pending).map s.rank)
  obtain ⟨m, rfl⟩ := Nat.exists_eq_add_of_lt hl
  unfold selected
  cases hlist : ((l.filter s.pending).map s.rank).insertionSort (· ≤ ·) with
  | nil => simp [hlist] at hmem
  | cons a rest =>
    rw [hlist] at hmem hsort
    have hle : a ≤ (k : WithTop K) := by
      rcases List.mem_cons.mp hmem with rfl | hmem
      · exact le_rfl
      · exact List.rel_of_pairwise_cons hsort hmem
    obtain ⟨k', rfl⟩ := WithTop.ne_top_iff_exists.mp (hle.trans_lt (WithTop.coe_lt_top k)).ne
    exact ⟨k', by simp⟩

theorem hits_iff : s.hits limit l r = true ↔
    ∃ k, s.key r = some k ∧ (k : WithTop K) ∈ s.selected limit l := by
  unfold hits rank
  cases hk : s.key r with
  | none => simp
  | some k => simp; rfl

/-! ### One sweep over marked elements -/

omit [LinearOrder K] in
theorem marked_of_any (h : (s.key r).any D = true) : s.marked D r = s.fix r := if_pos h

omit [LinearOrder K] in
theorem marked_of_not_any (h : ¬(s.key r).any D = true) : s.marked D r = r := if_neg h

section Fixed
variable (hfix : ∀ r, s.pending (s.fix r) = false) (hidem : ∀ r, s.fix (s.fix r) = s.fix r)

/-- The keys that have been fixed after another sweep. -/
def after (s : Sweep R K) (limit : ℕ) (l : List R) (D : K → Bool) (k : K) : Bool :=
  D k || decide ((k : WithTop K) ∈ s.selected limit (l.map (s.marked D)))

theorem any_after : (s.key r).any (after s limit l D) = true ↔
    (s.key r).any D = true ∨ s.hits limit (l.map (s.marked D)) r = true := by
  rw [hits_iff]
  cases s.key r <;> simp [after]

include hidem in
/-- **One sweep** fixes the elements with the selected keys, and leaves the others. -/
theorem run_marked :
    (s.run limit (l.map (s.marked D))).1 = l.map (s.marked (after s limit l D)) := by
  unfold run
  rw [List.map_map]
  refine List.map_congr_left fun r _ => ?_
  dsimp only [Function.comp_apply]
  by_cases hD : (s.key r).any D = true
  · rw [marked_of_any hD, hidem, ite_self, marked_of_any (any_after.mpr (Or.inl hD))]
  · rw [marked_of_not_any hD]
    split_ifs with hh
    · rw [marked_of_any (any_after.mpr (Or.inr hh))]
    · exact (marked_of_not_any fun h => hh ((any_after.mp h).resolve_left hD)).symm

omit [LinearOrder K] in
include hfix in
/-- What is pending has not been marked. -/
theorem not_any_of_pending (hp : s.pending (s.marked D r) = true) : ¬(s.key r).any D = true := by
  intro hD
  rw [marked_of_any hD, hfix] at hp
  cases hp

include hfix in
theorem keys_marked (h : s.keys (l.map (s.marked D)) k = true) : s.keys l k = true ∧ D k = false := by
  obtain ⟨r', hr', hp, hk⟩ := keys_iff.mp h
  obtain ⟨r, hr, rfl⟩ := List.mem_map.mp hr'
  have hD := not_any_of_pending hfix hp
  rw [marked_of_not_any hD] at hp hk
  refine ⟨keys_iff.mpr ⟨r, hr, hp, hk⟩, ?_⟩
  simpa [hk] using hD

/-- A sweep that hits nothing finds nothing pending with a key. -/
theorem keys_eq_false (hl : 0 < limit) (h : (s.run limit l).2 = 0) (k : K) : s.keys l k = false := by
  by_contra hk
  obtain ⟨k', hk'⟩ := exists_selected hl (Bool.not_eq_false _ ▸ hk)
  obtain ⟨r, hr, -, hrk⟩ := keys_iff.mp (keys_of_selected hk')
  exact List.countP_eq_zero.mp h r hr (hits_iff.mpr ⟨k', hrk, hk'⟩)

theorem run_of_not_hit (h : (s.run limit l).2 = 0) : (s.run limit l).1 = l := by
  refine (List.map_congr_left fun r hr => ?_).trans (List.map_id l)
  exact if_neg (List.countP_eq_zero.mp h r hr)

include hfix in
/-- Each sweep that hits something leaves fewer pending elements: one with the key it has hit was
pending. -/
theorem countP_run_lt (h : (s.run limit l).2 ≠ 0) :
    (s.run limit l).1.countP s.pending < l.countP s.pending := by
  obtain ⟨r, -, hr⟩ := List.countP_pos_iff.mp (Nat.pos_of_ne_zero h)
  obtain ⟨k, -, hk⟩ := hits_iff.mp hr
  obtain ⟨r', hr', hp, hk'⟩ := keys_iff.mp (keys_of_selected hk)
  have hpos : 0 < (l.filter (s.hits limit l)).countP s.pending :=
    List.countP_pos_iff.mpr ⟨r', List.mem_filter.mpr ⟨hr', hits_iff.mpr ⟨k, hk', hk⟩⟩, hp⟩
  have hleft : (s.run limit l).1.countP s.pending =
      (l.filter fun r => !s.hits limit l r).countP s.pending := by
    unfold run
    rw [List.countP_map, List.countP_filter]
    refine List.countP_congr fun r _ => ?_
    dsimp only [Function.comp_apply]
    split_ifs with hh <;> simp [hh, hfix]
  rw [hleft, List.countP_eq_countP_filter_add l s.pending (s.hits limit l)]
  simpa using hpos

include hfix hidem in
/-- **The result**, by induction on the sweeps: the keys that have been fixed so far are `D`. -/
theorem loop_marked (hl : 0 < limit) (hD : ∀ k, D k = true → s.keys l k = true)
    (h : s.loop limit n (l.map (s.marked D)) = some l') : l' = l.map (s.marked (s.keys l)) := by
  induction n generalizing D with
  | zero => cases h
  | succ n ih =>
    unfold loop at h
    split_ifs at h with hzero
    · rw [run_of_not_hit hzero] at h
      obtain rfl := Option.some.inj h
      have heq : D = s.keys l := by
        funext k
        refine Bool.eq_iff_iff.mpr ⟨hD k, fun hk => ?_⟩
        by_contra hnot
        obtain ⟨r, hr, hp, hrk⟩ := keys_iff.mp hk
        have hsame : s.marked D r = r := marked_of_not_any (by simpa [hrk] using hnot)
        have : s.keys (l.map (s.marked D)) k = true :=
          keys_iff.mpr ⟨r, List.mem_map.mpr ⟨r, hr, hsame⟩, hp, hrk⟩
        rw [keys_eq_false hl hzero] at this
        cases this
      rw [heq]
    · rw [run_marked hidem] at h
      refine ih (fun k hk => ?_) h
      rcases Bool.or_eq_true_iff.mp hk with hk | hk
      · exact hD k hk
      · exact (keys_marked hfix (keys_of_selected (of_decide_eq_true hk))).1

include hfix in
/-- The pending elements bound the sweeps. -/
theorem loop_total (hn : l.countP s.pending < n) : ∃ l', s.loop limit n l = some l' := by
  induction n generalizing l with
  | zero => cases hn
  | succ n ih =>
    unfold loop
    split_ifs with hzero
    · exact ⟨_, rfl⟩
    · have := countP_run_lt hfix hzero
      exact ih (by omega)

variable (limit l) in
include hfix in
theorem exists_loop : ∃ l', s.loop limit (l.countP s.pending + 1) l = some l' :=
  loop_total hfix (Nat.lt_succ_self _)

include hfix hidem in
/-- **Sweeps**: the loop ends, and every element has been fixed that has its key in common with one
that was pending. -/
theorem loop_eq_some_iff (hl : 0 < limit) :
    (∃ n, s.loop limit n l = some l') ↔ l' = l.map (s.marked (s.keys l)) := by
  have hnone : l.map (s.marked fun _ => false) = l := by
    refine (List.map_congr_left fun r _ => ?_).trans (List.map_id l)
    exact marked_of_not_any (by simp)
  constructor
  · rintro ⟨n, h⟩
    rw [← hnone] at h
    exact loop_marked hfix hidem hl (fun k hk => by cases hk) h
  · rintro rfl
    obtain ⟨l', h⟩ := exists_loop limit l hfix
    refine ⟨_, h.trans (congrArg some ?_)⟩
    rw [← hnone] at h
    exact loop_marked hfix hidem hl (fun k hk => by cases hk) h

end Fixed

end MigrationSafety.Lib.Sweeps
