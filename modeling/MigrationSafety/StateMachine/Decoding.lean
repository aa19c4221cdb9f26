import MigrationSafety.StateMachine.Handlers

/-! # The numbers of a checkpoint

The integers of a checkpoint are stored as decimal numbers and come back as `float64`. An `int64`
survives this if and only if it has at most 53 significant bits (`toInt64_ofInt_iff`). `resumed` is
what the backfill handler makes of a checkpoint. -/

namespace MigrationSafety.StateMachine.Decoding

open MigrationSafety.Lib.Effects MigrationSafety.Lib.Binary64
open MigrationSafety.StateMachine.Signature MigrationSafety.StateMachine.Handlers

/-- The values of an `int64`. -/
def InInt64 (n : ℤ) : Prop := -2 ^ 63 ≤ n ∧ n < 2 ^ 63

/-! ### A number -/

section
variable {n : ℤ}

/-- The conversion of a number that is an integer. -/
theorem toInt64_of_int {x : Float64} {k : ℤ} (hx : x.val = k) :
    toInt64 x = if -2 ^ 63 ≤ k ∧ k < 2 ^ 63 then k else -2 ^ 63 := by
  unfold toInt64
  rw [hx, Int.floor_intCast, Int.ceil_intCast, ite_self]

theorem toInt64_of_exact (hn : InInt64 n) (h : Exact n) : toInt64 (Float64.ofInt n) = n := by
  rw [toInt64_of_int (x := Float64.ofInt n) (round_of_exact h)]
  exact if_pos hn

/-- **An `int64` survives as a `float64` if and only if** it has at most 53 significant bits. -/
theorem toInt64_ofInt_iff (hn : InInt64 n) : toInt64 (Float64.ofInt n) = n ↔ Exact n := by
  refine ⟨fun h => ?_, toInt64_of_exact hn⟩
  obtain ⟨k, hk, hround⟩ := round_int n
  rw [toInt64_of_int (x := Float64.ofInt n) hround] at h
  split_ifs at h with hrange
  · rwa [← h]
  · -- what is out of range becomes the least number, which is a power of two
    exact ⟨-1, 63, by norm_num, by rw [← h]; norm_num⟩

end

/-! ### A checkpoint -/

/-- The variables of the loop, as the handler reads them. -/
def resumed (c : Checkpoint) : Progress where
  lastID := c.int64 "last_id"
  done := c.int64 "rows_done"
  batchNum := c.int64 "batch_num"

theorem resumed_decode (pr : Progress) : resumed pr.checkpoint.decode =
    ⟨toInt64 (Float64.ofInt pr.lastID), toInt64 (Float64.ofInt pr.done),
      toInt64 (Float64.ofInt pr.batchNum)⟩ := by
  simp [resumed, Progress.checkpoint, Checkpoint.decode, Checkpoint.int64, Json.decode,
    List.lookup_cons]

/-- Once it has counted the rows, the handler enters the loop with what it has read. -/
theorem backfillEnter_all (r : Record) : (backfillEnter r).All (fun _ => True)
    fun x => ∀ pr, x = .ok pr → pr = resumed r.checkpoint := by
  refine ⟨trivial, fun _ => ⟨trivial, fun x => ?_⟩⟩
  cases x with
  | none => exact fun _ h => nomatch h
  | some n =>
    rintro pr ⟨⟩
    rfl

theorem backfillEnter_returns (r : Record) :
    ∃ tr, Runs (backfillEnter r) tr (.ok (resumed r.checkpoint)) :=
  ⟨[⟨.newThrottle (backfillConfig r.plan), 0⟩, ⟨.countRemaining r.plan.table r.plan.backfill.column
    (r.checkpoint.int64 "last_id"), some 0⟩], After.cons (After.cons After.nil)⟩

end MigrationSafety.StateMachine.Decoding
