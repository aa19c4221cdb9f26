import MigrationSafety.Shard.Cover

/-! # What an empty list of errors says

A shard stops at its first failure and keeps it in its own result, which the result of the backfill does
not look at: `Errors` has the finding of the integrity check, if that is on.

* `committedAll_iff`: all batches are committed if and only if none fails.
* `honest_iff`: when an empty list of errors means that all batches are committed. -/

namespace MigrationSafety.Shard.Honesty

open MigrationSafety.Lib.Tilings
open MigrationSafety.Shard.Backfill MigrationSafety.Shard.Cover

/-! ### The batches there are -/

/-- The `k`-th batch of the loop that starts at `offset`, if the loop has so many. -/
def planned (config : Config) (maxID : Int64) : ℕ → Int64 → Option (Int64 × Int64)
  | 0, offset => if offset ≤ maxID then some (offset, batchEnd config maxID offset) else none
  | k + 1, offset =>
    if offset ≤ maxID then planned config maxID k (offset + config.BatchSize) else none

/-- The `k`-th batch of a shard. -/
def interval (config : Config) (i k : ℕ) : Option (Int64 × Int64) :=
  planned config (shardRange config i).MaxID k (shardRange config i).MinID

/-- **All batches of the shard are committed.** -/
def Committed (config : Config) (i : ℕ) (bs : List Batch) : Prop :=
  ∀ k p, interval config i k = some p → bs[k]? = some ⟨p.1, p.2, none⟩

/-- All batches of all shards, given those that were started. -/
def CommittedAll (config : Config) (bss : List (List Batch)) : Prop :=
  List.Forall₂ (Committed config) (List.range config.ShardCount.toInt.toNat) bss

/-- The context is not cancelled before the batch, and its transaction does not fail. -/
def Succeeds (it : Iteration) : Prop := it.done = none ∧ processBatch it = none

/-- **No failure** before or in any batch there is. -/
def Unfailing (config : Config) (env : ℕ → ℕ → Iteration) : Prop :=
  ∀ i < config.ShardCount.toInt.toNat, ∀ k p, interval config i k = some p → Succeeds (env i k)

section Loop
variable {config : Config} {env : ℕ → Iteration} {maxID offset : Int64} {fuel k : ℕ}
  {result : ShardResult} {x : ShardResult × List Batch}

variable (config) in
theorem planned_of_not_le (h : ¬offset ≤ maxID) (j : ℕ) : planned config maxID j offset = none := by
  cases j <;> exact if_neg h

theorem planned_zero (h : offset ≤ maxID) :
    planned config maxID 0 offset = some (offset, batchEnd config maxID offset) := if_pos h

theorem planned_succ (h : offset ≤ maxID) (j : ℕ) :
    planned config maxID (j + 1) offset = planned config maxID j (offset + config.BatchSize) := if_pos h

/-- **One shard**, by induction on the fuel: a batch that is not committed is the last that is started. -/
theorem loop_committed_iff (h : loop config env maxID fuel k offset result = some x) :
    (∀ j p, planned config maxID j offset = some p → x.2[j]? = some ⟨p.1, p.2, none⟩) ↔
      ∀ j p, planned config maxID j offset = some p → Succeeds (env (k + j)) := by
  induction fuel generalizing k offset result x with
  | zero => cases h
  | succ fuel ih =>
    rcases loop_cases h with ⟨hoff, -⟩ | ⟨hoff, err, hdone, hnil⟩ | ⟨hoff, err, hbatch, hlast⟩ |
      ⟨hoff, hdone, hbatch, y, hy, rfl⟩
    · have hnone := planned_of_not_le config hoff
      exact iff_of_true (fun j p hp => by rw [hnone] at hp; cases hp)
        fun j p hp => by rw [hnone] at hp; cases hp
    · refine iff_of_false (fun hall => ?_) fun hall => ?_
      · have := hall 0 _ (planned_zero hoff)
        rw [hnil] at this
        cases this
      · have := (hall 0 _ (planned_zero hoff)).1
        rw [Nat.add_zero, hdone] at this
        cases this
    · refine iff_of_false (fun hall => ?_) fun hall => ?_
      · have := hall 0 _ (planned_zero hoff)
        rw [hlast] at this
        cases this
      · have := (hall 0 _ (planned_zero hoff)).2
        rw [Nat.add_zero, hbatch] at this
        cases this
    · have hrest := ih hy
      constructor
      · intro hall j p hp
        cases j with
        | zero => exact ⟨hdone, hbatch⟩
        | succ j =>
          rw [planned_succ hoff] at hp
          have hshift : k + (j + 1) = k + 1 + j := by omega
          rw [hshift]
          exact hrest.mp (fun j p hp => hall (j + 1) p ((planned_succ hoff j).trans hp)) j p hp
      · intro hall j p hp
        cases j with
        | zero =>
          rw [planned_zero hoff] at hp
          cases hp
          rfl
        | succ j =>
          rw [planned_succ hoff] at hp
          refine hrest.mpr (fun j p hp => ?_) j p hp
          have hshift : k + 1 + j = k + (j + 1) := by omega
          rw [hshift]
          exact hall (j + 1) p ((planned_succ hoff j).trans hp)

/-- The batches that are started are those there are. -/
theorem planned_of_started (h : loop config env maxID fuel k offset result = some x) {j : ℕ} {b : Batch}
    (hb : x.2[j]? = some b) : planned config maxID j offset = some (b.startID, b.endID) := by
  induction fuel generalizing k offset result x j with
  | zero => cases h
  | succ fuel ih =>
    rcases loop_cases h with ⟨-, hnil⟩ | ⟨-, -, -, hnil⟩ | ⟨hoff, err, -, hlast⟩ |
      ⟨hoff, -, -, y, hy, rfl⟩
    · rw [hnil] at hb
      cases hb
    · rw [hnil] at hb
      cases hb
    · rw [hlast] at hb
      cases j with
      | zero =>
        cases hb
        exact planned_zero hoff
      | succ j => cases hb
    · cases j with
      | zero =>
        cases hb
        exact planned_zero hoff
      | succ j => exact (planned_succ hoff j).trans (ih hy hb)

end Loop

variable {config : Config} {env : ℕ → ℕ → Iteration} {q : Check} {fuel : ℕ} {result : BackfillResult}
  {bss : List (List Batch)}

/-! ### All shards -/

theorem forall₂_iff_forall {β γ : Type} {R P : β → γ → Prop} {Q : β → Prop} {l : List β} {l' : List γ}
    (h : List.Forall₂ R l l') (hiff : ∀ b c, R b c → (P b c ↔ Q b)) :
    List.Forall₂ P l l' ↔ ∀ b ∈ l, Q b := by
  induction h with
  | nil => exact iff_of_true .nil (List.forall_mem_nil _)
  | cons hbc _ ih => rw [List.forall₂_cons, List.forall_mem_cons, hiff _ _ hbc, ih]

/-- **All batches are committed if and only if none fails.** -/
theorem committedAll_iff {xs : List (ShardResult × List Batch)}
    (h : runShards config env fuel = some xs) :
    CommittedAll config (xs.map Prod.snd) ↔ Unfailing config env := by
  have hshard : ∀ i x, runShard config (env i) fuel i (shardRange config i) = some x →
      (Committed config i x.2 ↔ ∀ k p, interval config i k = some p → Succeeds (env i k)) := by
    intro i x hx
    have hloop := loop_committed_iff hx
    simp only [Nat.zero_add] at hloop
    exact hloop
  unfold CommittedAll Unfailing
  rw [List.forall₂_map_right_iff, forall₂_iff_forall (runShards_eq_some_iff.mp h).2 hshard]
  simp only [List.mem_range]

/-- **What is committed then**: every id up to the number of rows is in one of the batches. -/
theorem covered_of_committedAll (hT : 0 ≤ config.TotalRows.toInt) (hn : 1 ≤ config.ShardCount.toInt)
    (hB : 1 ≤ config.BatchSize.toInt)
    (hmax : config.TotalRows.toInt + config.BatchSize.toInt < 2 ^ 63) (h : CommittedAll config bss)
    {id : ℤ} (hlow : 1 ≤ id) (hhigh : id ≤ config.TotalRows.toInt) :
    ∃ bs ∈ bss, ∃ b ∈ bs, b.err = none ∧ has id (span b) = true := by
  -- the batches of a backfill without failures
  choose! f hrun htiles hrows herr using fun i (hi : i < config.ShardCount.toInt.toNat) =>
    @runShard_tiles config (fun _ => {}) i (fun _ => ⟨rfl, rfl⟩) hT hn hB (fitsAll_of_lt hT hn hmax) hi
  have hall := tiles_flatMap htiles
  rw [bound_zero hn, bound_last] at hall
  have hcount := hall.countP_has hlow (by omega)
  obtain ⟨p, hp, hid⟩ := List.countP_pos_iff.mp (hcount ▸ Nat.one_pos)
  obtain ⟨i, hi, hp⟩ := List.mem_flatMap.mp hp
  obtain ⟨b, hb, rfl⟩ := List.mem_map.mp hp
  obtain ⟨j, hj⟩ := List.mem_iff_getElem?.mp hb
  -- the same batch of this one
  have hplanned := planned_of_started (hrun i (List.mem_range.mp hi)) hj
  obtain ⟨bs, hbs, hcommitted⟩ := exists_of_forall₂ h hi
  exact ⟨bs, hbs, _, List.mem_of_getElem? (hcommitted j _ hplanned), rfl, hid⟩

/-! ### The errors -/

/-- **An honest result**: without errors in it, all batches are committed. -/
def Honest (config : Config) (result : BackfillResult) (bss : List (List Batch)) : Prop :=
  result.Errors = [] → CommittedAll config bss

theorem honest_iff_unfailing (h : RunShardedBackfill config env q fuel = some (result, bss)) :
    Honest config result bss ↔
      Unfailing config env ∨ (config.VerifyIntegrity = true ∧ verifyIntegrity q ≠ none) := by
  obtain ⟨xs, hxs, rfl, herrors⟩ := runShardedBackfill_eq_some h
  unfold Honest
  rw [committedAll_iff hxs, herrors]
  by_cases hfinding : config.VerifyIntegrity = true ∧ verifyIntegrity q ≠ none
  · obtain ⟨err, herr⟩ := Option.ne_none_iff_exists'.mp hfinding.2
    refine iff_of_true (fun hnil => ?_) (Or.inr hfinding)
    rw [if_pos hfinding.1, herr] at hnil
    cases hnil
  · have hnil : (if config.VerifyIntegrity then (verifyIntegrity q).toList else []) = [] := by
      split_ifs with hon
      · rw [not_not.mp fun hne => hfinding ⟨hon, hne⟩]
        rfl
      · rfl
    rw [or_iff_left hfinding]
    exact ⟨fun hall => hall hnil, fun hall _ => hall⟩

/-- **An empty list of errors** means that all batches are committed, if and only if none fails or the
integrity check is on and finds something; for a table in range, all ids are in committed batches then. -/
theorem honest_iff (h : RunShardedBackfill config env q fuel = some (result, bss)) :
    (Honest config result bss ↔
      Unfailing config env ∨ (config.VerifyIntegrity = true ∧ verifyIntegrity q ≠ none)) ∧
    (0 ≤ config.TotalRows.toInt → 1 ≤ config.ShardCount.toInt → 1 ≤ config.BatchSize.toInt →
      config.TotalRows.toInt + config.BatchSize.toInt < 2 ^ 63 → CommittedAll config bss →
      ∀ id, 1 ≤ id → id ≤ config.TotalRows.toInt →
        ∃ bs ∈ bss, ∃ b ∈ bs, b.err = none ∧ has id (span b) = true) :=
  ⟨honest_iff_unfailing h, fun hT hn hB hmax hall _ hlow hhigh =>
    covered_of_committedAll hT hn hB hmax hall hlow hhigh⟩

/-- A table of ten rows, in three shards with batches of two. -/
def tenRows : Config where
  TableName := "t"
  TotalRows := 10
  ShardCount := 3
  BatchSize := 2
  Concurrency := 3
  VerifyIntegrity := true

/-- The integrity check finds nothing. -/
def clean : Check := ⟨.ok 0, .ok 0⟩

theorem honest_iff_tenRows : ∃ result bss,
    RunShardedBackfill tenRows (fun _ _ => {}) clean 20 = some (result, bss) ∧
    (Honest tenRows result bss ↔
      Unfailing tenRows (fun _ _ => {}) ∨
        (tenRows.VerifyIntegrity = true ∧ verifyIntegrity clean ≠ none)) ∧
    (0 ≤ tenRows.TotalRows.toInt → 1 ≤ tenRows.ShardCount.toInt → 1 ≤ tenRows.BatchSize.toInt →
      tenRows.TotalRows.toInt + tenRows.BatchSize.toInt < 2 ^ 63 → CommittedAll tenRows bss →
      ∀ id, 1 ≤ id → id ≤ tenRows.TotalRows.toInt →
        ∃ bs ∈ bss, ∃ b ∈ bs, b.err = none ∧ has id (span b) = true) := by
  have hrun : (RunShardedBackfill tenRows (fun _ _ => {}) clean 20).isSome = true := by
    decide +kernel
  obtain ⟨⟨result, bss⟩, h⟩ := Option.isSome_iff_exists.mp hrun
  exact ⟨result, bss, h, honest_iff h⟩

/-- The commit of the first batch fails. -/
def failing : ℕ → ℕ → Iteration
  | 0, 0 => { commit := some "connection reset" }
  | _, _ => {}

/-- **A failed shard and no errors.** -/
theorem not_honest : ∃ (config : Config) (env : ℕ → ℕ → Iteration) (q : Check) (fuel : ℕ)
    (result : BackfillResult) (bss : List (List Batch)),
    RunShardedBackfill config env q fuel = some (result, bss) ∧ ¬Honest config result bss := by
  have hrun : (RunShardedBackfill { tenRows with VerifyIntegrity := false } failing clean 20).isSome =
      true := by
    decide +kernel
  obtain ⟨⟨result, bss⟩, h⟩ := Option.isSome_iff_exists.mp hrun
  refine ⟨_, _, _, _, result, bss, h, fun hhonest => ?_⟩
  rcases (honest_iff_unfailing h).mp hhonest with hall | ⟨hon, -⟩
  · have hfirst := hall 0 (by decide) 0 (1, 3) (by decide +kernel)
    cases hfirst.2
  · cases hon

end MigrationSafety.Shard.Honesty
