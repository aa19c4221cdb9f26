import Mathlib.Data.Rat.Floor
import Mathlib.Tactic.FieldSimp
import Mathlib.Tactic.Linarith
import Mathlib.Tactic.Positivity
import MigrationSafety.Lib.Words

/-! # The number of shards

How many shards a backfill needs to be done in the target duration, if a batch takes the average time.
Durations are in nanoseconds, and their quotient is exact.

The rows are divided by the size of a batch, and the batches by those a shard has time for; both divisions
round down, so together they count the shards that are full (`toInt_calculateOptimalShards`). The rows
that are left have no shard: the target is met if and only if there are none, or one shard or 64 of them
are enough (`meetsTarget_iff`). -/

namespace MigrationSafety.Shard.Sizing

open MigrationSafety.Lib.Words

/-! ### The code -/

/-- `Duration.Seconds`. -/
def seconds (d : Int64) : ℚ := d.toInt / 1000000000

/-- `int64(x)`. -/
def toInt64 (x : ℚ) : Int64 := Int64.ofInt (if 0 ≤ x then ⌊x⌋ else ⌈x⌉)

def batchSize : Int64 := 10000

/-- The batches a shard has time for. -/
def batchesPerShard (targetDuration avgBatchTime : Int64) : Int64 :=
  let batches := toInt64 (seconds targetDuration / seconds avgBatchTime)
  if batches = 0 then 1 else batches

def CalculateOptimalShards (totalRows targetDuration avgBatchTime : Int64) : Int64 :=
  let totalBatches := totalRows / batchSize
  let optimalShards := totalBatches / batchesPerShard targetDuration avgBatchTime
  let optimalShards := if optimalShards < 1 then 1 else optimalShards
  if optimalShards > 64 then 64 else optimalShards

/-! ### The target -/

section Target
variable {totalRows targetDuration avgBatchTime : Int64}

/-- The batches that fit into the target duration, at least one. -/
def batches (targetDuration avgBatchTime : Int64) : ℤ :=
  if ⌊(targetDuration.toInt / avgBatchTime.toInt : ℚ)⌋ < 1 then 1
  else ⌊(targetDuration.toInt / avgBatchTime.toInt : ℚ)⌋

/-- The rows a shard processes in the target duration. -/
def rowsPerShard (targetDuration avgBatchTime : Int64) : ℤ := batches targetDuration avgBatchTime * 10000

/-- **The shards meet the target**: there are between 1 and 64 of them, fewer than 64 only if that is
enough, and not fewer for more rows. -/
def MeetsTarget (totalRows targetDuration avgBatchTime : Int64) : Prop :=
  let n := (CalculateOptimalShards totalRows targetDuration avgBatchTime).toInt
  1 ≤ n ∧ n ≤ 64 ∧ (n < 64 → totalRows.toInt ≤ n * rowsPerShard targetDuration avgBatchTime) ∧
    ∀ more : Int64, totalRows.toInt ≤ more.toInt →
      n ≤ (CalculateOptimalShards more targetDuration avgBatchTime).toInt

theorem seconds_div (targetDuration avgBatchTime : Int64) : seconds targetDuration / seconds avgBatchTime =
    (targetDuration.toInt / avgBatchTime.toInt : ℚ) := by
  unfold seconds
  rw [div_div_div_cancel_right₀ (by norm_num)]

theorem floor_div (ha : 0 < avgBatchTime.toInt) :
    ⌊(targetDuration.toInt / avgBatchTime.toInt : ℚ)⌋ = targetDuration.toInt / avgBatchTime.toInt := by
  obtain ⟨d, hd⟩ := Int.eq_ofNat_of_zero_le ha.le
  rw [hd]
  exact Rat.floor_intCast_div_natCast _ d

theorem one_le_batches : 1 ≤ batches targetDuration avgBatchTime := by
  unfold batches
  split_ifs <;> omega

theorem toInt_batchesPerShard (ht : 0 < targetDuration.toInt) (ha : 0 < avgBatchTime.toInt) :
    (batchesPerShard targetDuration avgBatchTime).toInt = batches targetDuration avgBatchTime := by
  have hpos : 0 ≤ targetDuration.toInt / avgBatchTime.toInt := Int.ediv_nonneg ht.le ha.le
  have hle : targetDuration.toInt / avgBatchTime.toInt ≤ targetDuration.toInt :=
    Int.ediv_le_self _ ht.le
  have hlt := targetDuration.toInt_lt
  have hnonneg : (0 : ℚ) ≤ targetDuration.toInt / avgBatchTime.toInt := by positivity
  have hfit : (toInt64 (seconds targetDuration / seconds avgBatchTime)).toInt =
      targetDuration.toInt / avgBatchTime.toInt := by
    rw [seconds_div, toInt64, if_pos hnonneg, floor_div ha]
    exact Int64.toInt_ofInt_of_le (by omega) (by omega)
  unfold batchesPerShard batches
  simp only [floor_div ha]
  split_ifs with hzero hlow hlow
  · rfl
  · rw [hzero] at hfit
    simp only [Int64.toInt_zero] at hfit
    omega
  · refine absurd (Int64.toInt_inj.mp ?_) hzero
    rw [hfit, Int64.toInt_zero]
    omega
  · exact hfit

theorem rowsPerShard_pos : 0 < rowsPerShard targetDuration avgBatchTime := by
  have hone : 1 ≤ batches targetDuration avgBatchTime := one_le_batches
  exact mul_pos (by omega) (by norm_num)

/-- Between 1 and 64. -/
def clamp (q : ℤ) : ℤ := if q < 1 then 1 else if 64 < q then 64 else q

theorem clamp_mono {q q' : ℤ} (h : q ≤ q') : clamp q ≤ clamp q' := by
  unfold clamp
  split_ifs <;> omega

theorem toInt_clamp (x : Int64) : (let n := if x < 1 then 1 else x; if n > 64 then 64 else n).toInt =
    clamp x.toInt := by
  have h1 : (1 : Int64).toInt = 1 := rfl
  have h64 : (64 : Int64).toInt = 64 := rfl
  unfold clamp
  simp only [Int64.lt_iff_toInt_lt, gt_iff_lt, apply_ite Int64.toInt, h1, h64]
  split_ifs <;> omega

/-- **The number of shards**: as many as the rows fill, between 1 and 64. -/
theorem toInt_calculateOptimalShards (hT : 0 ≤ totalRows.toInt) (ht : 0 < targetDuration.toInt)
    (ha : 0 < avgBatchTime.toInt) :
    (CalculateOptimalShards totalRows targetDuration avgBatchTime).toInt =
      clamp (totalRows.toInt / rowsPerShard targetDuration avgBatchTime) := by
  have hbatches : (totalRows / batchSize).toInt = totalRows.toInt / 10000 := toInt_div hT
  have hshards : (totalRows / batchSize / batchesPerShard targetDuration avgBatchTime).toInt =
      totalRows.toInt / rowsPerShard targetDuration avgBatchTime := by
    rw [toInt_div (by omega), hbatches, toInt_batchesPerShard ht ha, Int.ediv_ediv_of_nonneg (by omega),
      rowsPerShard, mul_comm]
  rw [← hshards]
  exact toInt_clamp _

/-- The shards that are full do the work of those that are needed. -/
theorem le_clamp_mul_iff {rows per : ℤ} (hper : 0 < per) (hrows : 0 ≤ rows) :
    (clamp (rows / per) < 64 → rows ≤ clamp (rows / per) * per) ↔
      rows < per ∨ per ∣ rows ∨ 64 * per ≤ rows := by
  rcases lt_or_ge rows per with hone | hone
  · -- a single shard, which is not full
    have hq : rows / per = 0 := Int.ediv_eq_zero_of_lt hrows hone
    rw [hq, show clamp 0 = 1 from rfl, one_mul]
    exact ⟨fun _ => Or.inl hone, fun _ _ => hone.le⟩
  · have hq : 1 ≤ rows / per := (Int.le_ediv_iff_mul_le hper).mpr (by linarith)
    rcases le_or_gt (64 * per) rows with hmany | hfew
    · have hq' : 64 ≤ rows / per := (Int.le_ediv_iff_mul_le hper).mpr hmany
      have hclamp : clamp (rows / per) = 64 := by
        unfold clamp
        split_ifs <;> omega
      rw [hclamp]
      exact ⟨fun _ => Or.inr (Or.inr hmany), fun _ h => absurd h (lt_irrefl _)⟩
    · have hq' : rows / per < 64 := Int.ediv_lt_of_lt_mul hper hfew
      have hclamp : clamp (rows / per) = rows / per := by
        unfold clamp
        split_ifs <;> omega
      rw [hclamp]
      constructor
      · intro h
        refine Or.inr (Or.inl ⟨rows / per, ?_⟩)
        linarith [h hq', Int.ediv_mul_le rows hper.ne']
      · rintro (h | h | h) _
        · exact absurd hone h.not_ge
        · exact (Int.ediv_mul_cancel h).ge
        · exact absurd hfew h.not_gt

theorem clamp_bounds (q : ℤ) : 1 ≤ clamp q ∧ clamp q ≤ 64 := by
  unfold clamp
  split_ifs <;> omega

/-- **The target is met** if and only if one shard is enough, the shards are full, or there are 64 of
them. -/
theorem meetsTarget_iff (hT : 0 ≤ totalRows.toInt) (ht : 0 < targetDuration.toInt)
    (ha : 0 < avgBatchTime.toInt) : MeetsTarget totalRows targetDuration avgBatchTime ↔
      totalRows.toInt < rowsPerShard targetDuration avgBatchTime ∨
      rowsPerShard targetDuration avgBatchTime ∣ totalRows.toInt ∨
      64 * rowsPerShard targetDuration avgBatchTime ≤ totalRows.toInt := by
  have hn : ∀ more : Int64, 0 ≤ more.toInt →
      (CalculateOptimalShards more targetDuration avgBatchTime).toInt =
        clamp (more.toInt / rowsPerShard targetDuration avgBatchTime) :=
    fun more hmore => toInt_calculateOptimalShards hmore ht ha
  unfold MeetsTarget
  rw [← le_clamp_mul_iff rowsPerShard_pos hT, hn totalRows hT]
  constructor
  · rintro ⟨-, -, henough, -⟩
    exact henough
  · intro henough
    obtain ⟨hone, hmax⟩ := clamp_bounds (totalRows.toInt / rowsPerShard targetDuration avgBatchTime)
    refine ⟨hone, hmax, henough, fun more hmore => ?_⟩
    rw [hn more (hT.trans hmore)]
    exact clamp_mono (Int.ediv_le_ediv rowsPerShard_pos hmore)

/-- 1.2 million rows in a minute, if a batch takes a second: two shards, both full. -/
theorem meetsTarget_minute : MeetsTarget 1200000 60000000000 1000000000 :=
  (meetsTarget_iff (by decide) (by decide) (by decide)).mpr (Or.inr (Or.inl (by decide +kernel)))

/-- **One shard for three batches** it has time for two of. -/
theorem not_meetsTarget : ¬MeetsTarget 30000 2000000000 1000000000 := by
  rintro ⟨-, -, henough, -⟩
  exact absurd (henough (by decide +kernel)) (by decide +kernel)

end Target

end MigrationSafety.Shard.Sizing
