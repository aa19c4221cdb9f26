import MigrationSafety.Shard.Cover

/-! # Offsets that overflow

The loop of a shard adds the batch size to its offset before it looks whether the offset is still in the
range. If that overflows, the loop goes on below zero; and at the end of the type there is no offset beyond
the range, so it goes on for ever.

* `loop_maxValue`: a range up to the last id there is.
* `loop_fits`: a loop that ends and stays above zero has not overflowed.
* `fitsAll_iff`: when all shards end and stay above zero. -/

namespace MigrationSafety.Shard.Overflow

open MigrationSafety.Lib.Tilings MigrationSafety.Lib.Words
open MigrationSafety.Shard.Backfill MigrationSafety.Shard.Cover

section Loop
variable {config : Config} {env : ℕ → Iteration} {maxID offset : Int64} {fuel k : ℕ}
  {result : ShardResult} {x : ShardResult × List Batch}

/-- Without failures a loop ends at the end of its range, or has one batch more than its rest. -/
theorem loop_quiet (hquiet : Quiet env)
    (h : loop config env maxID (fuel + 1) k offset result = some x) :
    (¬offset ≤ maxID ∧ x.2 = []) ∨
      (offset ≤ maxID ∧ ∃ result' y,
        loop config env maxID fuel (k + 1) (offset + config.BatchSize) result' = some y ∧
          x.2 = ⟨offset, batchEnd config maxID offset, none⟩ :: y.2) := by
  rcases loop_cases h with ⟨hoff, hnil⟩ | ⟨-, err, hdone, -⟩ | ⟨-, err, hbatch, -⟩ |
    ⟨hoff, -, -, y, hy, rfl⟩
  · exact Or.inl ⟨hoff, hnil⟩
  · rw [(hquiet k).1] at hdone
    cases hdone
  · rw [(hquiet k).2] at hbatch
    cases hbatch
  · exact Or.inr ⟨hoff, _, y, hy, rfl⟩

theorem err_of_quiet (hquiet : Quiet env) (h : loop config env maxID fuel k offset result = some x) :
    ∀ b ∈ x.2, b.err = none := by
  induction fuel generalizing k offset result x with
  | zero => cases h
  | succ fuel ih =>
    rcases loop_quiet hquiet h with ⟨-, hnil⟩ | ⟨-, result', y, hy, hcons⟩
    · rw [hnil]
      exact List.forall_mem_nil _
    · rw [hcons]
      exact List.forall_mem_cons.mpr ⟨rfl, ih hy⟩

/-- **A range up to the last id there is** has no end. -/
theorem loop_maxValue (hquiet : Quiet env) (hmax : maxID.toInt = 2 ^ 63 - 1) :
    loop config env maxID fuel k offset result = none := by
  induction fuel generalizing k offset result with
  | zero => rfl
  | succ fuel ih =>
    refine Option.eq_none_iff_forall_ne_some.mpr fun x h => ?_
    rcases loop_quiet hquiet h with ⟨hoff, -⟩ | ⟨-, result', y, hy, -⟩
    · have hle := offset.toInt_lt
      rw [Int64.le_iff_toInt_le] at hoff
      omega
    · rw [ih] at hy
      cases hy

/-- **A loop that ends and stays above zero**, by induction on the fuel: an overflow would be followed by a
batch that starts below zero. -/
theorem loop_fits (hquiet : Quiet env) (hB : 1 ≤ config.BatchSize.toInt) (hoff : 1 ≤ offset.toInt)
    (h : loop config env maxID fuel k offset result = some x)
    (hpos : ∀ b ∈ x.2, ∀ id : Int64, b.startID ≤ id → id < b.endID → 1 ≤ id) :
    Fits config offset.toInt (maxID.toInt + 1) := by
  have hmax : maxID.toInt + 1 < 2 ^ 63 := by
    have hlt := maxID.toInt_lt
    by_contra hover
    rw [loop_maxValue hquiet (by omega)] at h
    cases h
  induction fuel generalizing k offset result x with
  | zero => cases h
  | succ fuel ih =>
    rcases loop_quiet hquiet h with ⟨hend, -⟩ | ⟨hle, result', y, hy, hcons⟩
    · -- nothing starts in the range
      intro j hj
      rw [Int64.le_iff_toInt_le] at hend
      have hnonneg : 0 ≤ (j : ℤ) * config.BatchSize.toInt := mul_nonneg (Int.natCast_nonneg j) (by omega)
      omega
    · rw [Int64.le_iff_toInt_le] at hle
      by_cases hover : offset.toInt + config.BatchSize.toInt < 2 ^ 63
      · have hnext : (offset + config.BatchSize).toInt = offset.toInt + config.BatchSize.toInt :=
          toInt_add (by omega) hover
        have hrest := ih (by omega) hy fun b hb => hpos b (hcons ▸ List.mem_cons_of_mem _ hb)
        rw [hnext] at hrest
        intro j hj
        cases j with
        | zero => rwa [Nat.cast_zero, zero_add, one_mul]
        | succ j =>
          have hj' := hrest j
          push_cast at hj hj' ⊢
          rw [add_mul _ 1, one_mul] at hj ⊢
          rw [add_mul, one_mul] at hj' ⊢
          omega
      · have hnext := toInt_add_of_overflow (not_lt.mp hover)
        have hB' := config.BatchSize.toInt_lt
        have hneg : (offset + config.BatchSize).toInt < 0 := by
          have := offset.toInt_lt
          omega
        have hlow := (offset + config.BatchSize).le_toInt
        cases fuel with
        | zero => cases hy
        | succ fuel =>
          rcases loop_quiet hquiet hy with ⟨hend, -⟩ | ⟨-, result'', z, -, hcons'⟩
          · rw [Int64.le_iff_toInt_le] at hend
            omega
          · have hmem : ⟨offset + config.BatchSize, batchEnd config maxID (offset + config.BatchSize),
                none⟩ ∈ x.2 := by
              rw [hcons, hcons']
              exact List.mem_cons_of_mem _ List.mem_cons_self
            have hstop := @toInt_batchEnd config maxID (offset + config.BatchSize) hB (by omega) hmax
            have hone := hpos _ hmem (offset + config.BatchSize) (Int64.le_refl _)
              (by rw [Int64.lt_iff_toInt_lt, hstop]; omega)
            rw [Int64.le_iff_toInt_le, Int64.toInt_one] at hone
            omega

end Loop

/-! ### All shards -/

variable {config : Config} {env : ℕ → ℕ → Iteration}

theorem err_of_finishes {xs : List (ShardResult × List Batch)} (hquiet : ∀ i, Quiet (env i))
    (h : Finishes config env xs) : ∀ b ∈ xs.flatMap Prod.snd, b.err = none := by
  obtain ⟨fuel, hxs⟩ := h
  intro b hb
  obtain ⟨x, hx, hb⟩ := List.mem_flatMap.mp hb
  obtain ⟨i, -, hrun⟩ := exists_of_forall₂ (runShards_eq_some_iff.mp hxs).2.flip hx
  exact err_of_quiet (hquiet i) hrun b hb

/-- **All shards end and stay above zero** exactly if no offset overflows. -/
theorem fitsAll_iff (hT : 0 ≤ config.TotalRows.toInt) (hn : 1 ≤ config.ShardCount.toInt)
    (hB : 1 ≤ config.BatchSize.toInt) (hquiet : ∀ i, Quiet (env i)) :
    FitsAll config ↔ ∃ xs, Finishes config env xs ∧ ∀ b ∈ xs.flatMap Prod.snd, ∀ id : Int64,
      b.startID ≤ id → id < b.endID → 1 ≤ id := by
  constructor
  · intro hfits
    obtain ⟨xs, hxs, hall, -, -⟩ := shards_tile hT hn hB hfits hquiet
    refine ⟨xs, hxs, fun b hb id hstart hend => ?_⟩
    obtain ⟨hlow, -⟩ := hall.bounds (List.mem_map_of_mem hb)
    change 1 ≤ b.startID.toInt at hlow
    rw [Int64.le_iff_toInt_le] at hstart ⊢
    rw [Int64.toInt_one]
    omega
  · rintro ⟨xs, ⟨fuel, hxs⟩, hpos⟩ i hi
    obtain ⟨x, hx, hrun⟩ := exists_of_forall₂ (runShards_eq_some_iff.mp hxs).2
      (List.mem_range.mpr hi)
    obtain ⟨hmin, hlast⟩ := shardRange_eq hT hn hi
    have hone := (bound_le hT hn hi).1
    rw [← hmin, ← hlast]
    exact loop_fits (hquiet i) hB (by omega) hrun fun b hb => hpos b (List.mem_flatMap.mpr ⟨x, hx, hb⟩)

end MigrationSafety.Shard.Overflow
