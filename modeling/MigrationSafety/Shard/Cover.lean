import Mathlib.Algebra.Order.Ring.Int
import Mathlib.Tactic.Linarith
import MigrationSafety.Lib.Tilings
import MigrationSafety.Lib.Words
import MigrationSafety.Shard.Backfill

/-! # The batches cover the ids

Without a failure the batches of a shard tile its range, and the ranges of the shards tile the ids from 1
to the number of rows: the last one takes what the division leaves, and some are empty if there are fewer
rows than shards. Nothing overflows as long as the last batch may look beyond the rows.

* `loop_tiles`: the batches of a shard.
* `shardRange_eq`: where the range of a shard starts and ends.
* `covers`: every id is in exactly one batch. -/

namespace MigrationSafety.Shard.Cover

open MigrationSafety.Lib.Tilings MigrationSafety.Lib.Words
open MigrationSafety.Shard.Backfill

variable {config : Config} {maxID offset : Int64} {k fuel : ℕ} {result : ShardResult}

/-! ### One shard -/

/-- No batch fails, and the context is not cancelled. -/
def Quiet (env : ℕ → Iteration) : Prop := ∀ k, (env k).done = none ∧ processBatch (env k) = none

/-- The ids of a batch: `id >= $1 AND id < $2`. -/
def span (b : Batch) : ℤ × ℤ := (b.startID.toInt, b.endID.toInt)

/-- **No overflow** in the loop over the ids from `lo` to `hi`: neither the offsets of its batches nor the
one after them leave the type. -/
def Fits (config : Config) (lo hi : ℤ) : Prop :=
  ∀ j : ℕ, lo + j * config.BatchSize.toInt < hi → lo + (j + 1) * config.BatchSize.toInt < 2 ^ 63

theorem Fits.next {lo hi : ℤ} (h : Fits config lo hi) : Fits config (lo + config.BatchSize.toInt) hi := by
  intro j hj
  have hnext := h (j + 1)
  push_cast at hnext
  rw [add_assoc, ← one_add_mul, add_comm 1 (j : ℤ)] at hj
  rw [add_assoc, ← one_add_mul, add_comm 1 ((j : ℤ) + 1)]
  exact hnext hj

theorem Fits.lt {lo hi : ℤ} (h : Fits config lo hi) (hlt : lo < hi) :
    lo + config.BatchSize.toInt < 2 ^ 63 := by
  have hzero := h 0
  rw [Nat.cast_zero, zero_mul, add_zero, zero_add, one_mul] at hzero
  exact hzero hlt

/-- The last batch that starts in the range goes on to its end at least. -/
theorem Fits.hi_lt {lo hi : ℤ} (h : Fits config lo hi) (hB : 1 ≤ config.BatchSize.toInt) (hlt : lo < hi) :
    hi < 2 ^ 63 := by
  obtain ⟨j, hj⟩ : ∃ j : ℕ, (hi - 1 - lo) / config.BatchSize.toInt = j :=
    ⟨_, (Int.toNat_of_nonneg (Int.ediv_nonneg (by omega) (by omega))).symm⟩
  have hlow := Int.mul_ediv_self_le (x := hi - 1 - lo) (k := config.BatchSize.toInt) (by omega)
  have hhigh := Int.lt_mul_ediv_self_add (x := hi - 1 - lo) (k := config.BatchSize.toInt) (by omega)
  rw [hj, mul_comm] at hlow hhigh
  have hstop := h j (by omega)
  rw [add_mul, one_mul] at hstop
  omega

/-- A batch may start at the last id. -/
theorem fits_of_lt {lo hi : ℤ} (hmax : hi - 1 + config.BatchSize.toInt < 2 ^ 63) : Fits config lo hi := by
  intro j hj
  rw [add_mul, one_mul]
  omega

/-- The end of a batch: a whole batch, or the end of the range. -/
theorem toInt_batchEnd (hB : 1 ≤ config.BatchSize.toInt)
    (hnext : offset.toInt + config.BatchSize.toInt < 2 ^ 63) (hmax : maxID.toInt + 1 < 2 ^ 63) :
    (batchEnd config maxID offset).toInt =
      min (offset.toInt + config.BatchSize.toInt) (maxID.toInt + 1) := by
  have hlow := offset.le_toInt
  have hlow' := maxID.le_toInt
  have hstep : (offset + config.BatchSize).toInt = offset.toInt + config.BatchSize.toInt :=
    toInt_add (by omega) (by omega)
  have hlast : (maxID + 1).toInt = maxID.toInt + 1 :=
    (toInt_add (by rw [Int64.toInt_one]; omega) (by rw [Int64.toInt_one]; omega)).trans
      (by rw [Int64.toInt_one])
  unfold batchEnd
  split_ifs with h
  · rw [gt_iff_lt, Int64.lt_iff_toInt_lt, hstep, hlast] at h
    rw [hlast, min_eq_right h.le]
  · rw [gt_iff_lt, Int64.lt_iff_toInt_lt, hstep, hlast] at h
    rw [hstep, min_eq_left (not_lt.mp h)]

/-- **The batches of a shard** from an offset on, by induction on the fuel: they tile what is left of the
range, and their lengths are counted. -/
theorem loop_tiles {env : ℕ → Iteration} (hquiet : Quiet env) (hB : 1 ≤ config.BatchSize.toInt)
    (hfits : Fits config offset.toInt (maxID.toInt + 1)) (hoff : 0 ≤ offset.toInt)
    (hrows : 0 ≤ result.RowsProcessed.toInt)
    (hsum : result.RowsProcessed.toInt + max 0 (maxID.toInt + 1 - offset.toInt) < 2 ^ 63)
    (hfuel : max 0 (maxID.toInt + 1 - offset.toInt) < fuel) :
    ∃ x, loop config env maxID fuel k offset result = some x ∧
      Tiles (min offset.toInt (maxID.toInt + 1)) (x.2.map span) (maxID.toInt + 1) ∧
      x.1.RowsProcessed.toInt =
        result.RowsProcessed.toInt + max 0 (maxID.toInt + 1 - offset.toInt) ∧
      ∀ b ∈ x.2, b.err = none := by
  induction fuel generalizing k offset result with
  | zero => omega
  | succ fuel ih =>
    by_cases hle : offset ≤ maxID
    · have hle' : offset.toInt ≤ maxID.toInt := Int64.le_iff_toInt_le.mp hle
      have hlt := hfits.lt (by omega)
      have hstop := toInt_batchEnd hB hlt (hfits.hi_lt hB (by omega))
      have hnext : (offset + config.BatchSize).toInt = offset.toInt + config.BatchSize.toInt :=
        toInt_add (by omega) (by omega)
      have hlen : (batchEnd config maxID offset - offset).toInt =
          (batchEnd config maxID offset).toInt - offset.toInt := toInt_sub (by omega) (by omega)
      have hcount : (result.count (batchEnd config maxID offset - offset)).RowsProcessed.toInt =
          result.RowsProcessed.toInt + ((batchEnd config maxID offset).toInt - offset.toInt) := by
        unfold ShardResult.count
        rw [toInt_add (by omega) (by omega), hlen]
      obtain ⟨x, hx, htiles, hprocessed, herr⟩ := @ih (offset + config.BatchSize) (k + 1)
        (result.count (batchEnd config maxID offset - offset)) (by rw [hnext]; exact hfits.next) (by omega)
        (by omega) (by omega) (by omega)
      rw [loop_committed hle (hquiet k).1 (hquiet k).2, hx]
      refine ⟨_, rfl, ⟨?_, ?_, ?_⟩, ?_, List.forall_mem_cons.mpr ⟨rfl, herr⟩⟩
      · change offset.toInt = min _ _
        omega
      · change min _ _ < (batchEnd config maxID offset).toInt
        omega
      · change Tiles (batchEnd config maxID offset).toInt _ _
        rwa [hstop, ← hnext]
      · change x.1.RowsProcessed.toInt = _
        omega
    · rw [loop_end hle]
      rw [Int64.le_iff_toInt_le] at hle
      refine ⟨_, rfl, ?_, ?_, List.forall_mem_nil _⟩
      · exact min_eq_right (by omega)
      · dsimp only
        omega

/-! ### The ranges -/

/-- Where the range of a shard starts, and where that of the last one ends. -/
def bound (config : Config) (i : ℕ) : ℤ :=
  if i = config.ShardCount.toInt.toNat then config.TotalRows.toInt + 1
  else i * (config.TotalRows.toInt / config.ShardCount.toInt) + 1

/-- The ranges of the first shards do not go beyond the rows. -/
theorem mul_shardSize_le {i : ℕ} (hT : 0 ≤ config.TotalRows.toInt) (hn : 1 ≤ config.ShardCount.toInt)
    (hi : i ≤ config.ShardCount.toInt.toNat) :
    0 ≤ i * (config.TotalRows.toInt / config.ShardCount.toInt) ∧
      i * (config.TotalRows.toInt / config.ShardCount.toInt) ≤ config.TotalRows.toInt := by
  have hsize : 0 ≤ config.TotalRows.toInt / config.ShardCount.toInt := Int.ediv_nonneg hT (by omega)
  refine ⟨mul_nonneg (Int.natCast_nonneg i) hsize, ?_⟩
  calc (i : ℤ) * (config.TotalRows.toInt / config.ShardCount.toInt)
      ≤ config.ShardCount.toInt * (config.TotalRows.toInt / config.ShardCount.toInt) :=
        mul_le_mul_of_nonneg_right (by omega) hsize
    _ ≤ config.TotalRows.toInt := Int.mul_ediv_self_le (by omega)

/-- The multiples of the size do not overflow. -/
theorem toInt_ofNat_mul {i : ℕ} (hT : 0 ≤ config.TotalRows.toInt) (hn : 1 ≤ config.ShardCount.toInt)
    (hi : i ≤ config.ShardCount.toInt.toNat) :
    (Int64.ofNat i * (config.TotalRows / config.ShardCount)).toInt =
      i * (config.TotalRows.toInt / config.ShardCount.toInt) := by
  have hcount := config.ShardCount.toInt_lt
  have hrows := config.TotalRows.toInt_lt
  have hof : (Int64.ofNat i).toInt = i := Int64.toInt_ofNat_of_lt (by omega)
  obtain ⟨hlow, hhigh⟩ := mul_shardSize_le hT hn hi
  rw [toInt_mul (by rw [hof, toInt_div hT]; omega) (by rw [hof, toInt_div hT]; omega), hof,
    toInt_div hT]

theorem minID_shardRange (i : ℕ) : (shardRange config i).MinID =
    Int64.ofNat i * (config.TotalRows / config.ShardCount) + 1 := rfl

theorem maxID_shardRange (i : ℕ) : (shardRange config i).MaxID =
    if Int64.ofNat i = config.ShardCount - 1 then config.TotalRows
    else Int64.ofNat (i + 1) * (config.TotalRows / config.ShardCount) := rfl

/-- **The range of a shard** goes from one bound to the next. -/
theorem shardRange_eq {i : ℕ} (hT : 0 ≤ config.TotalRows.toInt) (hn : 1 ≤ config.ShardCount.toInt)
    (hi : i < config.ShardCount.toInt.toNat) :
    (shardRange config i).MinID.toInt = bound config i ∧
      (shardRange config i).MaxID.toInt + 1 = bound config (i + 1) := by
  have hcount := config.ShardCount.toInt_lt
  have hrows := config.TotalRows.toInt_lt
  have hsize : 0 ≤ config.TotalRows.toInt / config.ShardCount.toInt := Int.ediv_nonneg hT (by omega)
  obtain ⟨hlow, -⟩ := mul_shardSize_le hT hn hi.le
  obtain ⟨-, hhigh⟩ := mul_shardSize_le hT hn hi
  -- the first id of the range is not beyond its end, or the sizes are all zero
  have hfirst : (i : ℤ) * (config.TotalRows.toInt / config.ShardCount.toInt) + 1 < 2 ^ 63 := by
    rcases hsize.lt_or_eq with hpos | hzero
    · push_cast at hhigh
      rw [add_mul, one_mul] at hhigh
      omega
    · rw [← hzero, mul_zero]
      decide
  have hof : (Int64.ofNat i).toInt = i := Int64.toInt_ofNat_of_lt (by omega)
  have hlast : (config.ShardCount - 1).toInt = config.ShardCount.toInt - 1 :=
    toInt_sub (by rw [Int64.toInt_one]; omega) (by rw [Int64.toInt_one]; omega)
  constructor
  · have hmul := toInt_ofNat_mul hT hn hi.le
    rw [minID_shardRange, toInt_add (by rw [hmul, Int64.toInt_one]; omega) (by rw [hmul, Int64.toInt_one]; omega), hmul,
      Int64.toInt_one]
    unfold bound
    rw [if_neg (by omega)]
  · have hmul := toInt_ofNat_mul hT hn hi
    have hiff : Int64.ofNat i = config.ShardCount - 1 ↔ i + 1 = config.ShardCount.toInt.toNat := by
      rw [← Int64.toInt_inj, hof, hlast]
      omega
    rw [maxID_shardRange]
    unfold bound
    by_cases h : i + 1 = config.ShardCount.toInt.toNat
    · rw [if_pos (hiff.mpr h), if_pos h]
    · rw [if_neg (mt hiff.mp h), if_neg h, hmul]

theorem bound_zero (hn : 1 ≤ config.ShardCount.toInt) : bound config 0 = 1 := by
  unfold bound
  rw [if_neg (by omega), Nat.cast_zero, zero_mul, zero_add]

theorem bound_last : bound config config.ShardCount.toInt.toNat = config.TotalRows.toInt + 1 := if_pos rfl

/-- The bounds are in order, between 1 and the end. -/
theorem bound_le {i : ℕ} (hT : 0 ≤ config.TotalRows.toInt) (hn : 1 ≤ config.ShardCount.toInt)
    (hi : i < config.ShardCount.toInt.toNat) :
    1 ≤ bound config i ∧ bound config i ≤ bound config (i + 1) ∧
      bound config (i + 1) ≤ config.TotalRows.toInt + 1 := by
  have hsize : 0 ≤ config.TotalRows.toInt / config.ShardCount.toInt := Int.ediv_nonneg hT (by omega)
  obtain ⟨hlow, hhigh⟩ := mul_shardSize_le hT hn hi.le
  obtain ⟨hlow', hhigh'⟩ := mul_shardSize_le hT hn hi
  unfold bound
  rw [if_neg (by omega)]
  split_ifs
  · omega
  · push_cast at hhigh' ⊢
    rw [add_mul, one_mul] at hhigh' ⊢
    omega

theorem sum_range_sub (g : ℕ → ℤ) (n : ℕ) :
    ((List.range n).map fun i => g (i + 1) - g i).sum = g n - g 0 := by
  induction n with
  | zero => simp
  | succ n ih =>
    rw [List.sum_range_succ, ih]
    omega

/-! ### All shards -/

/-- No shard overflows. -/
def FitsAll (config : Config) : Prop :=
  ∀ i < config.ShardCount.toInt.toNat, Fits config (bound config i) (bound config (i + 1))

/-- The last batch may look beyond the rows. -/
theorem fitsAll_of_lt (hT : 0 ≤ config.TotalRows.toInt) (hn : 1 ≤ config.ShardCount.toInt)
    (hmax : config.TotalRows.toInt + config.BatchSize.toInt < 2 ^ 63) : FitsAll config := fun _ hi =>
  fits_of_lt (by have := (bound_le hT hn hi).2.2; omega)

/-- What a shard does without failures. -/
theorem runShard_tiles {env : ℕ → Iteration} {i : ℕ} (hquiet : Quiet env)
    (hT : 0 ≤ config.TotalRows.toInt) (hn : 1 ≤ config.ShardCount.toInt)
    (hB : 1 ≤ config.BatchSize.toInt) (hfits : FitsAll config) (hi : i < config.ShardCount.toInt.toNat) :
    ∃ x, runShard config env (config.TotalRows.toInt.toNat + 1) i (shardRange config i) = some x ∧
      Tiles (bound config i) (x.2.map span) (bound config (i + 1)) ∧
      x.1.RowsProcessed.toInt = bound config (i + 1) - bound config i ∧ ∀ b ∈ x.2, b.err = none := by
  obtain ⟨hmin, hlast⟩ := shardRange_eq hT hn hi
  obtain ⟨hone, hle, htop⟩ := bound_le hT hn hi
  have hrows := config.TotalRows.toInt_lt
  unfold runShard
  obtain ⟨x, hx, htiles, hrows, herr⟩ := @loop_tiles config (shardRange config i).MaxID
    (shardRange config i).MinID 0 (config.TotalRows.toInt.toNat + 1) ⟨i, config.TableName, 0, 0, none⟩ env
    hquiet hB (by rw [hmin, hlast]; exact hfits i hi) (by omega) le_rfl
    (by rw [Int64.toInt_zero]; omega) (by omega)
  refine ⟨x, hx, ?_, ?_, herr⟩
  · rwa [hlast, hmin, min_eq_left hle] at htiles
  · rw [hrows, Int64.toInt_zero]
    omega

/-- **The batches of all shards** tile the ids up to the number of rows, and are counted. -/
theorem shards_tile {env : ℕ → ℕ → Iteration} (hT : 0 ≤ config.TotalRows.toInt)
    (hn : 1 ≤ config.ShardCount.toInt) (hB : 1 ≤ config.BatchSize.toInt) (hfits : FitsAll config)
    (hquiet : ∀ i, Quiet (env i)) :
    ∃ xs, Finishes config env xs ∧
      Tiles 1 ((xs.flatMap Prod.snd).map span) (config.TotalRows.toInt + 1) ∧
      (∀ b ∈ xs.flatMap Prod.snd, b.err = none) ∧
      (xs.map fun x => x.1.RowsProcessed.toInt).sum = config.TotalRows.toInt := by
  choose! f hrun htiles hrows herr using fun i (hi : i < config.ShardCount.toInt.toNat) =>
    runShard_tiles (hquiet i) hT hn hB hfits hi
  have hxs : Finishes config env ((List.range config.ShardCount.toInt.toNat).map f) := by
    refine ⟨config.TotalRows.toInt.toNat + 1, runShards_eq_some_iff.mpr ⟨?_, ?_⟩⟩
    · rw [Int64.le_iff_toInt_le, Int64.toInt_zero]
      omega
    · refine List.forall₂_map_right_iff.mpr (List.forall₂_same.mpr fun i hi => ?_)
      exact hrun i (List.mem_range.mp hi)
  have hflat : ((List.range config.ShardCount.toInt.toNat).map f).flatMap Prod.snd =
      (List.range config.ShardCount.toInt.toNat).flatMap fun i => (f i).2 := List.flatMap_map _ _ _
  refine ⟨_, hxs, ?_, ?_, ?_⟩
  · -- the tilings of the ranges, one after the other
    have hall := tiles_flatMap htiles
    rwa [bound_zero hn, bound_last, ← List.map_flatMap, ← hflat] at hall
  · intro b hb
    rw [hflat] at hb
    obtain ⟨i, hi, hb⟩ := List.mem_flatMap.mp hb
    exact herr i (List.mem_range.mp hi) b hb
  · rw [List.map_map]
    have hsum := sum_range_sub (bound config) config.ShardCount.toInt.toNat
    rw [bound_zero hn, bound_last] at hsum
    have hcongr : (List.range config.ShardCount.toInt.toNat).map
        ((fun x => x.1.RowsProcessed.toInt) ∘ f) = (List.range config.ShardCount.toInt.toNat).map
          fun i => bound config (i + 1) - bound config i :=
      List.map_congr_left fun i hi => hrows i (List.mem_range.mp hi)
    rw [hcongr, hsum]
    omega

/-- **The sharded backfill**: without failures all shards come to an end, with one outcome. Every id up to
the number of rows is in exactly one batch, the batches contain no other id and are committed, and the
rows of the shards add up. -/
theorem covers {env : ℕ → ℕ → Iteration} (hT : 0 ≤ config.TotalRows.toInt)
    (hn : 1 ≤ config.ShardCount.toInt) (hB : 1 ≤ config.BatchSize.toInt)
    (hmax : config.TotalRows.toInt + config.BatchSize.toInt < 2 ^ 63) (hquiet : ∀ i, Quiet (env i)) :
    ∃ xs, Finishes config env xs ∧ (∀ ys, Finishes config env ys → ys = xs) ∧
      (∀ id, 1 ≤ id → id ≤ config.TotalRows.toInt →
        (xs.flatMap Prod.snd).countP (fun b => has id (span b)) = 1) ∧
      (∀ b ∈ xs.flatMap Prod.snd, b.err = none ∧
        ∀ id, has id (span b) = true → 1 ≤ id ∧ id ≤ config.TotalRows.toInt) ∧
      (xs.map fun x => x.1.RowsProcessed.toInt).sum = config.TotalRows.toInt := by
  obtain ⟨xs, hxs, hall, herr, hsum⟩ := shards_tile hT hn hB (fitsAll_of_lt hT hn hmax) hquiet
  refine ⟨xs, hxs, fun ys hys => hxs.unique hys, ?_, ?_, hsum⟩
  · intro id hlow hhigh
    rw [← hall.countP_has hlow (by omega), List.countP_map]
    rfl
  · intro b hb
    obtain ⟨hlow, hhigh⟩ := hall.bounds (List.mem_map_of_mem hb)
    refine ⟨herr b hb, fun id hid => ?_⟩
    obtain ⟨hstart, hend⟩ := of_decide_eq_true hid
    omega

theorem covers_default : ∃ xs, Finishes DefaultConfig (fun _ _ => {}) xs ∧
    (∀ ys, Finishes DefaultConfig (fun _ _ => {}) ys → ys = xs) ∧
    (∀ id, 1 ≤ id → id ≤ DefaultConfig.TotalRows.toInt →
      (xs.flatMap Prod.snd).countP (fun b => has id (span b)) = 1) ∧
    (∀ b ∈ xs.flatMap Prod.snd, b.err = none ∧
      ∀ id, has id (span b) = true → 1 ≤ id ∧ id ≤ DefaultConfig.TotalRows.toInt) ∧
    (xs.map fun x => x.1.RowsProcessed.toInt).sum = DefaultConfig.TotalRows.toInt :=
  covers (by decide) (by decide) (by decide) (by decide) fun _ _ => ⟨rfl, rfl⟩

end MigrationSafety.Shard.Cover
