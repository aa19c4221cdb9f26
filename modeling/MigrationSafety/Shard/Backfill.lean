import Mathlib.Data.List.Forall2

/-! # The sharded backfill

The ids of a large table are cut into ranges, one for each shard, and every shard goes through its range
in batches, each in a transaction of its own. Integers have 64 bits. What the database and the context
answer is a parameter; the shards do not share anything but counters, so each runs by itself. The times
and rates of the result are left out, and so is its list of shard results, which the goroutines append to
without a lock. -/

namespace MigrationSafety.Shard.Backfill

/-- The configuration. -/
structure Config where
  TableName : String
  TotalRows : Int64
  ShardCount : Int64
  BatchSize : Int64
  Concurrency : Int64
  VerifyIntegrity : Bool

def DefaultConfig : Config where
  TableName := "large_table"
  TotalRows := 100000000
  ShardCount := 16
  BatchSize := 10000
  Concurrency := 16
  VerifyIntegrity := true

structure ShardRange where
  MinID : Int64
  MaxID : Int64

/-- The range of a shard. -/
def shardRange (config : Config) (i : ℕ) : ShardRange :=
  let shardSize := config.TotalRows / config.ShardCount
  { MinID := Int64.ofNat i * shardSize + 1
    MaxID :=
      if Int64.ofNat i = config.ShardCount - 1 then config.TotalRows
      else Int64.ofNat (i + 1) * shardSize }

/-- The ranges of all shards; without a shard the division panics, and with a negative number of them
`make`. -/
def calculateShardRanges (config : Config) : Option (List ShardRange) :=
  if config.ShardCount ≤ 0 then none
  else some ((List.range config.ShardCount.toInt.toNat).map (shardRange config))

/-! ### One shard -/

/-- What happens in an iteration of the loop: the context may be cancelled before the batch, and each of
the three calls of the batch may fail. -/
structure Iteration where
  done : Option String := none
  beginTx : Option String := none
  exec : Option String := none
  commit : Option String := none

/-- A batch that was started, and the error of `processBatch`: without one it was committed. -/
structure Batch where
  startID : Int64
  endID : Int64
  err : Option String

structure ShardResult where
  ShardID : ℕ
  TableName : String
  RowsProcessed : Int64
  BatchesProcessed : Int64
  Error : Option String
deriving Inhabited

/-- A batch of so many rows is counted. -/
def ShardResult.count (result : ShardResult) (rows : Int64) : ShardResult :=
  { result with
    RowsProcessed := result.RowsProcessed + rows
    BatchesProcessed := result.BatchesProcessed + 1 }

/-- The transaction of a batch. -/
def processBatch (it : Iteration) : Option String := it.beginTx.or (it.exec.or it.commit)

/-- The end of the batch that starts at `offset`. -/
def batchEnd (config : Config) (maxID offset : Int64) : Int64 :=
  if offset + config.BatchSize > maxID + 1 then maxID + 1 else offset + config.BatchSize

/-- **The loop of a shard** from the `k`-th iteration on, with fuel: its result, and the batches it has
started. -/
def loop (config : Config) (env : ℕ → Iteration) (maxID : Int64) :
    ℕ → ℕ → Int64 → ShardResult → Option (ShardResult × List Batch)
  | 0, _, _, _ => none
  | fuel + 1, k, offset, result =>
    if offset ≤ maxID then
      match (env k).done with
      | some err => some ({ result with Error := some err }, [])
      | none =>
        let stop := batchEnd config maxID offset
        match processBatch (env k) with
        | some err => some ({ result with Error := some err }, [⟨offset, stop, some err⟩])
        | none =>
          (loop config env maxID fuel (k + 1) (offset + config.BatchSize)
            (result.count (stop - offset))).map fun x => (x.1, ⟨offset, stop, none⟩ :: x.2)
    else some (result, [])

def runShard (config : Config) (env : ℕ → Iteration) (fuel shardID : ℕ) (r : ShardRange) :
    Option (ShardResult × List Batch) :=
  loop config env r.MaxID fuel 0 r.MinID
    { ShardID := shardID, TableName := config.TableName, RowsProcessed := 0, BatchesProcessed := 0,
      Error := none }

/-- All shards, the `i`-th with what happens to it. -/
def runShards (config : Config) (env : ℕ → ℕ → Iteration) (fuel : ℕ) :
    Option (List (ShardResult × List Batch)) := do
  let ranges ← calculateShardRanges config
  ranges.zipIdx.mapM fun x => runShard config (env x.2) fuel x.2 x.1

section Loop
variable {config : Config} {env : ℕ → Iteration} {maxID offset : Int64} {fuel k : ℕ}
  {result : ShardResult} {err : String}

theorem loop_end (h : ¬offset ≤ maxID) :
    loop config env maxID (fuel + 1) k offset result = some (result, []) := if_neg h

theorem loop_cancelled (h : offset ≤ maxID) (hdone : (env k).done = some err) :
    loop config env maxID (fuel + 1) k offset result = some ({ result with Error := some err }, []) := by
  rw [loop, if_pos h, hdone]

theorem loop_failed (h : offset ≤ maxID) (hdone : (env k).done = none)
    (hbatch : processBatch (env k) = some err) :
    loop config env maxID (fuel + 1) k offset result =
      some ({ result with Error := some err }, [⟨offset, batchEnd config maxID offset, some err⟩]) := by
  rw [loop, if_pos h, hdone]
  dsimp only
  rw [hbatch]

theorem loop_committed (h : offset ≤ maxID) (hdone : (env k).done = none)
    (hbatch : processBatch (env k) = none) :
    loop config env maxID (fuel + 1) k offset result =
      (loop config env maxID fuel (k + 1) (offset + config.BatchSize)
        (result.count (batchEnd config maxID offset - offset))).map fun x =>
          (x.1, ⟨offset, batchEnd config maxID offset, none⟩ :: x.2) := by
  rw [loop, if_pos h, hdone]
  dsimp only
  rw [hbatch]

/-- **An iteration**: the range is done, the context is cancelled, the batch fails, or the loop goes on. -/
theorem loop_cases {x : ShardResult × List Batch}
    (h : loop config env maxID (fuel + 1) k offset result = some x) :
    (¬offset ≤ maxID ∧ x.2 = []) ∨
    (offset ≤ maxID ∧ ∃ err, (env k).done = some err ∧ x.2 = []) ∨
    (offset ≤ maxID ∧ ∃ err, processBatch (env k) = some err ∧
      x.2 = [⟨offset, batchEnd config maxID offset, some err⟩]) ∨
    (offset ≤ maxID ∧ (env k).done = none ∧ processBatch (env k) = none ∧
      ∃ y, loop config env maxID fuel (k + 1) (offset + config.BatchSize)
          (result.count (batchEnd config maxID offset - offset)) = some y ∧
        x = (y.1, ⟨offset, batchEnd config maxID offset, none⟩ :: y.2)) := by
  by_cases hoff : offset ≤ maxID
  · refine Or.inr ?_
    cases hdone : (env k).done with
    | some err =>
      rw [loop_cancelled hoff hdone] at h
      cases h
      exact Or.inl ⟨hoff, err, rfl, rfl⟩
    | none =>
      cases hbatch : processBatch (env k) with
      | some err =>
        rw [loop_failed hoff hdone hbatch] at h
        cases h
        exact Or.inr (Or.inl ⟨hoff, err, rfl, rfl⟩)
      | none =>
        rw [loop_committed hoff hdone hbatch] at h
        obtain ⟨y, hy, rfl⟩ := Option.map_eq_some_iff.mp h
        exact Or.inr (Or.inr ⟨hoff, rfl, rfl, y, hy, rfl⟩)
  · rw [loop_end hoff] at h
    cases h
    exact Or.inl ⟨hoff, rfl⟩

/-- More fuel changes nothing. -/
theorem loop_mono {x : ShardResult × List Batch} (h : loop config env maxID fuel k offset result = some x)
    {fuel' : ℕ} (hle : fuel ≤ fuel') : loop config env maxID fuel' k offset result = some x := by
  induction fuel generalizing fuel' k offset result x with
  | zero => cases h
  | succ fuel ih =>
    obtain ⟨fuel', rfl⟩ : ∃ m, fuel' = m + 1 := ⟨fuel' - 1, by omega⟩
    by_cases hoff : offset ≤ maxID
    · cases hdone : (env k).done with
      | some err =>
        rw [loop_cancelled hoff hdone] at h ⊢
        exact h
      | none =>
        cases hbatch : processBatch (env k) with
        | some err =>
          rw [loop_failed hoff hdone hbatch] at h ⊢
          exact h
        | none =>
          rw [loop_committed hoff hdone hbatch] at h ⊢
          obtain ⟨y, hy, rfl⟩ := Option.map_eq_some_iff.mp h
          rw [ih hy (by omega)]
          rfl
    · rw [loop_end hoff] at h ⊢
      exact h

end Loop

variable {config : Config} {env : ℕ → ℕ → Iteration} {fuel : ℕ}

theorem zipIdx_map_range {β : Type} {f : ℕ → β} {n : ℕ} :
    ((List.range n).map f).zipIdx = (List.range n).map fun i => (f i, i) := by
  refine List.ext_getElem (by simp) fun i hi hi' => ?_
  simp

theorem mapM_eq_some_iff {β γ : Type} {f : β → Option γ} {l : List β} {l' : List γ} :
    l.mapM f = some l' ↔ List.Forall₂ (fun b c => f b = some c) l l' := by
  induction l generalizing l' with
  | nil =>
    rw [List.mapM_nil, List.forall₂_nil_left_iff]
    exact ⟨fun h => (Option.some.inj h).symm, fun h => h ▸ rfl⟩
  | cons b l ih =>
    rw [List.mapM_cons]
    constructor
    · intro h
      obtain ⟨c, hc, h⟩ := Option.bind_eq_some_iff.mp h
      obtain ⟨l'', hl, h⟩ := Option.bind_eq_some_iff.mp h
      obtain rfl := Option.some.inj h
      exact .cons hc (ih.mp hl)
    · rintro (_ | ⟨hc, hl⟩)
      exact Option.bind_eq_some_iff.mpr ⟨_, hc, Option.bind_eq_some_iff.mpr ⟨_, ih.mpr hl, rfl⟩⟩

theorem exists_of_forall₂ {β γ : Type} {R : β → γ → Prop} {l : List β} {l' : List γ} {b : β}
    (h : List.Forall₂ R l l') (hb : b ∈ l) : ∃ c ∈ l', R b c := by
  induction h with
  | nil => cases hb
  | cons hbc _ ih =>
    rcases List.mem_cons.mp hb with rfl | hb
    · exact ⟨_, List.mem_cons_self, hbc⟩
    · obtain ⟨c, hc, h⟩ := ih hb
      exact ⟨c, List.mem_cons_of_mem _ hc, h⟩

/-- **Shard by shard.** -/
theorem runShards_eq_some_iff {xs : List (ShardResult × List Batch)} :
    runShards config env fuel = some xs ↔ ¬config.ShardCount ≤ 0 ∧
      List.Forall₂ (fun i x => runShard config (env i) fuel i (shardRange config i) = some x)
        (List.range config.ShardCount.toInt.toNat) xs := by
  unfold runShards calculateShardRanges
  split_ifs with hcount
  · simp [hcount]
  · rw [Option.bind_eq_bind, Option.bind_some, zipIdx_map_range, mapM_eq_some_iff, List.forall₂_map_left_iff]
    exact (and_iff_right hcount).symm

/-- The shards come to an end with these results. -/
def Finishes (config : Config) (env : ℕ → ℕ → Iteration) (xs : List (ShardResult × List Batch)) : Prop :=
  ∃ fuel, runShards config env fuel = some xs

theorem runShards_mono {xs : List (ShardResult × List Batch)} (h : runShards config env fuel = some xs)
    {fuel' : ℕ} (hle : fuel ≤ fuel') : runShards config env fuel' = some xs := by
  rw [runShards_eq_some_iff] at h ⊢
  exact ⟨h.1, h.2.imp fun _ _ hx => loop_mono hx hle⟩

/-- There is one outcome. -/
theorem Finishes.unique {xs ys : List (ShardResult × List Batch)} (h : Finishes config env xs)
    (h' : Finishes config env ys) : ys = xs := by
  obtain ⟨fuel, hx⟩ := h
  obtain ⟨fuel', hy⟩ := h'
  have hx := runShards_mono hx (Nat.le_max_left fuel fuel')
  have hy := runShards_mono hy (Nat.le_max_right fuel fuel')
  exact Option.some.inj (hy.symm.trans hx)

/-! ### The result -/

/-- The answers to the two queries of the integrity check, an error or a number. -/
structure Check where
  duplicates : Except String Int64
  unprocessed : Except String Int64

def verifyIntegrity (q : Check) : Option String :=
  match q.duplicates with
  | .error err => some ("failed to check duplicates: " ++ err)
  | .ok duplicates =>
    if duplicates > 0 then some ("found " ++ toString duplicates ++ " duplicate rows")
    else
      match q.unprocessed with
      | .error err => some ("failed to check unprocessed rows: " ++ err)
      | .ok unprocessed =>
        if unprocessed > 0 then some ("found " ++ toString unprocessed ++ " unprocessed rows")
        else none

structure BackfillResult where
  TableName : String
  TotalRows : Int64
  RowsProcessed : Int64
  BatchesProcessed : Int64
  Errors : List String

/-- **The whole backfill**, with the batches that were started, one list for each shard. It does not
return if a shard does not, nor without a slot in the semaphore, and its error is always nil. -/
def RunShardedBackfill (config : Config) (env : ℕ → ℕ → Iteration) (q : Check) (fuel : ℕ) :
    Option (BackfillResult × List (List Batch)) := do
  if config.Concurrency ≤ 0 then none
  else
    let shards ← runShards config env fuel
    some
      ({ TableName := config.TableName
         TotalRows := config.TotalRows
         RowsProcessed := (shards.map fun x => x.1.RowsProcessed).sum
         BatchesProcessed := (shards.map fun x => x.1.BatchesProcessed).sum
         Errors := if config.VerifyIntegrity then (verifyIntegrity q).toList else [] },
       shards.map Prod.snd)

/-- **What it returns**: the errors are those of the integrity check. -/
theorem runShardedBackfill_eq_some {q : Check} {result : BackfillResult} {bss : List (List Batch)}
    (h : RunShardedBackfill config env q fuel = some (result, bss)) :
    ∃ xs, runShards config env fuel = some xs ∧ bss = xs.map Prod.snd ∧
      result.Errors = if config.VerifyIntegrity then (verifyIntegrity q).toList else [] := by
  rw [RunShardedBackfill, Option.ite_none_left_eq_some] at h
  obtain ⟨xs, hxs, h⟩ := Option.bind_eq_some_iff.mp h.2
  cases h
  exact ⟨xs, hxs, rfl, rfl⟩

/-- It returns when all shards do, with their counts. -/
theorem runShardedBackfill_of_runShards {q : Check} {xs : List (ShardResult × List Batch)}
    (hslots : ¬config.Concurrency ≤ 0) (h : runShards config env fuel = some xs) :
    RunShardedBackfill config env q fuel = some
      ({ TableName := config.TableName
         TotalRows := config.TotalRows
         RowsProcessed := (xs.map fun x => x.1.RowsProcessed).sum
         BatchesProcessed := (xs.map fun x => x.1.BatchesProcessed).sum
         Errors := if config.VerifyIntegrity then (verifyIntegrity q).toList else [] },
       xs.map Prod.snd) := by
  rw [RunShardedBackfill, if_neg hslots, h]
  rfl

end MigrationSafety.Shard.Backfill
