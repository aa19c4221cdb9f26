import MigrationSafety.LoadTest.Engine
import MigrationSafety.Shard.Overflow

/-! # The two batch engines

The load test and the sharded backfill are to process the same ids of a table, those up to the number of
rows, and to report this number. The sharded backfill cuts its last batch at the end of the range; the load
test does not, neither in the UPDATE nor in the count.

* `loadTestUpdates_iff`: the load test does so if the batch size divides the number of rows.
* `shardedUpdates_iff`: the sharded backfill does so if no offset overflows.
* `agree_iff`: when the engines agree. -/

namespace MigrationSafety.LoadTest.Agreement

open MigrationSafety.Lib.Paths MigrationSafety.Lib.WorkQueue MigrationSafety.Lib.Tilings
open MigrationSafety.Lib.Words
open MigrationSafety.LoadTest.Engine
open MigrationSafety.Shard.Backfill (Batch Check Iteration Finishes)
open MigrationSafety.Shard.Cover (Quiet FitsAll)

/-- The ids up to the number of rows. -/
def upTo (rows id : Int64) : Prop := 1 ≤ id ∧ id ≤ rows

instance (rows : Int64) : DecidablePred (upTo rows) := fun id =>
  inferInstanceAs (Decidable (1 ≤ id ∧ id ≤ rows))

theorem upTo_iff {rows id : Int64} : upTo rows id ↔ 1 ≤ id.toInt ∧ id.toInt ≤ rows.toInt := by
  unfold upTo
  rw [Int64.le_iff_toInt_le, Int64.le_iff_toInt_le, Int64.toInt_one]

/-- **Batches that tile the ids** have each of them in one. -/
theorem exists_has_iff {β : Type} {bs : List β} {span : β → ℤ × ℤ} {rows id : Int64}
    (h : Tiles 1 (bs.map span) (rows.toInt + 1)) :
    (∃ b ∈ bs, has id.toInt (span b) = true) ↔ upTo rows id := by
  rw [upTo_iff]
  constructor
  · rintro ⟨b, hb, hid⟩
    obtain ⟨hlow, hhigh⟩ := h.bounds (List.mem_map_of_mem hb)
    obtain ⟨hstart, hend⟩ := of_decide_eq_true hid
    omega
  · rintro ⟨hlow, hhigh⟩
    have hcount := h.countP_has (x := id.toInt) hlow (by omega)
    obtain ⟨p, hp, hid⟩ := List.countP_pos_iff.mp (hcount ▸ Nat.one_pos)
    obtain ⟨b, hb, rfl⟩ := List.mem_map.mp hp
    exact ⟨b, hb, hid⟩

/-! ### The load test -/

/-- **The load test**, when no batch fails: it does not panic, and however its goroutines go on they come to
an end; then the rows up to the number of rows have been processed, and are counted. -/
structure LoadTestUpdates (config : LoadTestConfig) : Prop where
  makes : Makes config
  bounded : ∃ N, ∀ es (s : Goroutines config),
    Path (SmoothStep (batchChan config) none) (start 0) es s → es.length ≤ N
  progress : ∀ es (s : Goroutines config), Path (SmoothStep (batchChan config) none) (start 0) es s →
    ¬s.Stopped → ∃ e t, SmoothStep (batchChan config) none s e t
  updates : ∀ t q out, RunLoadTest config t q (Event.Smooth none) none out →
    ∃ result, out = .ok (result, process (upTo config.TotalRows) t) ∧
      result.RowsProcessed = config.TotalRows

section LoadTest
variable {config : LoadTestConfig} {offset : Int64}

/-- The ids of a batch that does not overflow. -/
def span (config : LoadTestConfig) (offset : Int64) : ℤ × ℤ :=
  (offset.toInt + 1, offset.toInt + config.BatchSize.toInt + 1)

theorem inBatch_iff {id : Int64} (hB : 1 ≤ config.BatchSize.toInt)
    (hnext : offset.toInt + config.BatchSize.toInt < 2 ^ 63) :
    inBatch config offset id ↔ has id.toInt (span config offset) = true := by
  have hlow := offset.le_toInt
  unfold inBatch has span
  rw [Int64.lt_iff_toInt_lt, Int64.le_iff_toInt_le, toInt_add (by omega) hnext, decide_eq_true_eq]
  constructor
  · rintro ⟨hstart, hend⟩
    exact ⟨by dsimp only; omega, by dsimp only; omega⟩
  · rintro ⟨hstart, hend⟩
    dsimp only at hstart hend
    omega

/-- **The batches, if the batch size divides the number of rows**, by induction on their number: they tile
the ids. -/
theorem exists_given (hB : 1 ≤ config.BatchSize.toInt) (offset : Int64) (m : ℕ) (hoff : 0 ≤ offset.toInt)
    (hm : offset.toInt + m * config.BatchSize.toInt = config.TotalRows.toInt) :
    ∃ l, Path (Gives (producer config)) offset l config.TotalRows ∧ l.length = m ∧
      Tiles (offset.toInt + 1) (l.map (span config)) (config.TotalRows.toInt + 1) ∧
      ∀ a ∈ l, a.toInt + config.BatchSize.toInt < 2 ^ 63 := by
  have hrows := config.TotalRows.toInt_lt
  induction m generalizing offset with
  | zero =>
    rw [Nat.cast_zero, zero_mul, add_zero] at hm
    obtain rfl := Int64.toInt_inj.mp hm
    exact ⟨[], Path.nil, rfl, rfl, List.forall_mem_nil _⟩
  | succ m ih =>
    push_cast at hm
    rw [add_mul, one_mul] at hm
    have hnonneg : 0 ≤ (m : ℤ) * config.BatchSize.toInt := mul_nonneg (Int.natCast_nonneg m) (by omega)
    have hnext : (offset + config.BatchSize).toInt = offset.toInt + config.BatchSize.toInt :=
      toInt_add (by omega) (by omega)
    obtain ⟨l, hl, hlen, htiles, hfits⟩ := ih (offset + config.BatchSize) (by omega) (by omega)
    have hlt : offset < config.TotalRows := Int64.lt_iff_toInt_lt.mpr (by omega)
    refine ⟨offset :: l, Path.cons (gives_iff.mpr ⟨hlt, rfl, rfl⟩) hl, by rw [List.length_cons, hlen],
      ⟨rfl, ?_, ?_⟩, List.forall_mem_cons.mpr ⟨by omega, hfits⟩⟩
    · change offset.toInt + 1 < offset.toInt + config.BatchSize.toInt + 1
      omega
    · rwa [hnext] at htiles

/-- **The other way round**, by induction on the batches: if none goes beyond the ids, the last one ends at
the last id. An overflow would be followed by a batch that starts below zero. -/
theorem dvd_of_given (hB : 1 ≤ config.BatchSize.toInt) {l : List Int64} {x : Int64}
    (h : Path (Gives (producer config)) offset l x) (hend : producer config x = none)
    (hoff : 0 ≤ offset.toInt) (hle : offset.toInt ≤ config.TotalRows.toInt)
    (hdvd : config.BatchSize.toInt ∣ offset.toInt)
    (hin : ∀ a ∈ l, ∀ id, inBatch config a id → upTo config.TotalRows id) :
    config.BatchSize.toInt ∣ config.TotalRows.toInt := by
  have hsize := config.BatchSize.toInt_lt
  induction l generalizing offset with
  | nil =>
    obtain rfl := path_nil.mp h
    rw [producer_eq_none, Int64.lt_iff_toInt_lt] at hend
    have hlast : config.TotalRows.toInt = x.toInt := by omega
    rwa [hlast]
  | cons a l ih =>
    obtain ⟨u, hu, hrest⟩ := path_cons.mp h
    obtain ⟨hlt, rfl, rfl⟩ := gives_iff.mp hu
    rw [Int64.lt_iff_toInt_lt] at hlt
    have hbound := offset.toInt_lt
    by_cases hover : offset.toInt + config.BatchSize.toInt < 2 ^ 63
    · have hnext : (offset + config.BatchSize).toInt = offset.toInt + config.BatchSize.toInt :=
        toInt_add (by omega) hover
      have hup := hin offset List.mem_cons_self (offset + config.BatchSize)
        ⟨by rw [Int64.lt_iff_toInt_lt]; omega, Int64.le_refl _⟩
      refine ih hrest (by omega) ?_ ?_ fun b hb => hin b (List.mem_cons_of_mem _ hb)
      · exact (upTo_iff.mp hup).2
      · rw [hnext]
        exact dvd_add hdvd (dvd_refl _)
    · have hnext := toInt_add_of_overflow (not_lt.mp hover)
      cases l with
      | nil =>
        obtain rfl := path_nil.mp hrest
        rw [producer_eq_none, Int64.lt_iff_toInt_lt] at hend
        omega
      | cons b l =>
        obtain ⟨v, hv, -⟩ := path_cons.mp hrest
        obtain ⟨-, rfl, -⟩ := gives_iff.mp hv
        have hone : (offset + config.BatchSize + 1).toInt = (offset + config.BatchSize).toInt + 1 := by
          rw [toInt_add (by rw [Int64.toInt_one]; omega) (by rw [Int64.toInt_one]; omega), Int64.toInt_one]
        have hstop : (offset + config.BatchSize + config.BatchSize).toInt =
            (offset + config.BatchSize).toInt + config.BatchSize.toInt := toInt_add (by omega) (by omega)
        have hup := hin _ (List.mem_cons_of_mem _ List.mem_cons_self) (offset + config.BatchSize + 1)
          ⟨by rw [Int64.lt_iff_toInt_lt]; omega, by rw [Int64.le_iff_toInt_le]; omega⟩
        have := (upTo_iff.mp hup).1
        omega

end LoadTest

section LoadTest
variable {config : LoadTestConfig}

theorem makes_iff (hC : 1 ≤ config.Concurrency.toInt) :
    Makes config ↔ config.Concurrency.toInt < 2 ^ 62 := by
  have htwo : (2 : Int64).toInt = 2 := by decide
  have hlt := config.Concurrency.toInt_lt
  unfold Makes
  rw [Int64.le_iff_toInt_le, Int64.le_iff_toInt_le, Int64.toInt_zero, Int64.toInt_mul, htwo]
  constructor
  · rintro ⟨-, hplaces⟩
    by_contra hover
    have hneg : (config.Concurrency.toInt * 2).bmod (2 ^ 64) = config.Concurrency.toInt * 2 - 2 ^ 64 := by
      rw [← Int.sub_bmod_right]
      exact Int.bmod_eq_of_le (by omega) (by omega)
    omega
  · intro h
    refine ⟨by omega, ?_⟩
    rw [Int.bmod_eq_of_le (by omega) (by omega)]
    omega

/-- There are places in the channel, and a slot for every consumer. -/
theorem places_pos (hC : 1 ≤ config.Concurrency.toInt) (hmakes : Makes config) :
    0 < (batchChan config).capacity ∧ 0 < (batchChan config).slots := by
  have htwo : (2 : Int64).toInt = 2 := by decide
  have hlt := (makes_iff hC).mp hmakes
  unfold batchChan
  dsimp only
  rw [Int64.toInt_mul, htwo, Int.bmod_eq_of_le (by omega) (by omega)]
  omega

/-- **The load test** processes and counts the ids if and only if the batch size divides their number. -/
theorem loadTestUpdates_iff (hT : 1 ≤ config.TotalRows.toInt) (hB : 1 ≤ config.BatchSize.toInt)
    (hC : 1 ≤ config.Concurrency.toInt) : LoadTestUpdates config ↔
      config.BatchSize.toInt ∣ config.TotalRows.toInt ∧ config.Concurrency.toInt < 2 ^ 62 := by
  have hn : 0 < config.Concurrency.toInt.toNat := by omega
  constructor
  · rintro ⟨hmakes, ⟨N, hbound⟩, -, hupdates⟩
    refine ⟨?_, (makes_iff hC).mp hmakes⟩
    obtain ⟨hcap, hslots⟩ := places_pos hC hmakes
    obtain ⟨es, s, h, hstop⟩ := exists_stopped hcap hslots hbound
    obtain ⟨l, x, hgiven, hend, hperm, hdone⟩ := perm_of_stopped h hn hstop
    have htable : ∀ t, process (fun id => ∃ offset ∈ s.done.map Prod.fst, inBatch config offset id) t =
        process (upTo config.TotalRows) t := by
      intro t
      obtain ⟨result, hout, -⟩ := hupdates t ⟨.ok 0, .ok 0⟩ _ (.finished hmakes h hstop)
      rw [← tableAfter_eq hdone]
      exact congrArg Prod.snd (Except.ok.inj hout)
    refine dvd_of_given hB hgiven hend le_rfl (by rw [Int64.toInt_zero]; omega) (dvd_zero _)
      fun a ha id hid => ?_
    exact (iff_of_process_eq htable id).mp ⟨a, hperm.mem_iff.mpr ha, hid⟩
  · rintro ⟨⟨m, hm⟩, hC'⟩
    have hmakes := (makes_iff hC).mpr hC'
    obtain ⟨hcap, hslots⟩ := places_pos hC hmakes
    have hnonneg : 0 ≤ m := by
      by_contra hneg
      have := Int.mul_nonpos_of_nonneg_of_nonpos (a := config.BatchSize.toInt) (b := m) (by omega) (by omega)
      omega
    obtain ⟨l, hl, hlen, htiles, hfits⟩ := exists_given hB 0 m.toNat le_rfl
      (by rw [Int64.toInt_zero, Int.toNat_of_nonneg hnonneg, zero_add, hm, mul_comm])
    have hend : producer config config.TotalRows = none := producer_eq_none.mpr Int64.lt_irrefl
    refine ⟨hmakes, ⟨_, fun es s h => length_le h hl hend⟩,
      fun es s _ hlive => progress hcap hslots hlive none, ?_⟩
    rintro t q _ (_ | ⟨-, h, hstop⟩)
    obtain ⟨l', x, hgiven, hend', hperm, hdone⟩ := perm_of_stopped h hn hstop
    obtain rfl := given_unique hgiven hend' hl hend
    refine ⟨_, congrArg Except.ok (Prod.ext rfl ?_), ?_⟩
    · change tableAfter _ t = _
      rw [tableAfter_eq hdone]
      refine process_congr (fun id => ?_) t
      rw [Int64.toInt_zero, zero_add] at htiles
      rw [← exists_has_iff htiles]
      constructor
      · rintro ⟨a, ha, hid⟩
        have ha := hperm.mem_iff.mp ha
        exact ⟨a, ha, (inBatch_iff hB (hfits a ha)).mp hid⟩
      · rintro ⟨a, ha, hid⟩
        exact ⟨a, hperm.mem_iff.mpr ha, (inBatch_iff hB (hfits a ha)).mpr hid⟩
    · have hcount := hperm.length_eq
      rw [List.length_map, hlen] at hcount
      rw [rowsProcessed_eq hdone, hcount, Int.toNat_of_nonneg hnonneg, mul_comm, ← hm, Int64.ofInt_toInt]

end LoadTest

/-! ### The sharded backfill -/

/-- `id >= $1 AND id < $2` -/
def inShardBatch (b : Batch) (id : Int64) : Prop := b.startID ≤ id ∧ id < b.endID

instance (b : Batch) : DecidablePred (inShardBatch b) := fun id =>
  inferInstanceAs (Decidable (b.startID ≤ id ∧ id < b.endID))

/-- What a batch of a shard makes of the table. -/
def applyBatch (t : Table) (b : Batch) : Table :=
  match b.err with
  | none => process (inShardBatch b) t
  | some _ => t

/-- **The sharded backfill**, when no batch fails: it comes to an end, and in whatever order its batches have
been committed, the rows up to the number of rows have been processed, and are counted. -/
def ShardedUpdates (config : Shard.Backfill.Config) : Prop :=
  ∀ env, (∀ i, Quiet (env i)) → ∀ q, ∃ fuel result bss,
    Shard.Backfill.RunShardedBackfill config env q fuel = some (result, bss) ∧
      (∀ bs : List Batch, bs.Perm bss.flatten →
        ∀ t, bs.foldl applyBatch t = process (upTo config.TotalRows) t) ∧
      result.RowsProcessed = config.TotalRows

section Sharded
variable {config : Shard.Backfill.Config}

theorem inShardBatch_iff {b : Batch} {id : Int64} :
    inShardBatch b id ↔ has id.toInt (Shard.Cover.span b) = true := by
  unfold inShardBatch has Shard.Cover.span
  rw [Int64.le_iff_toInt_le, Int64.lt_iff_toInt_lt, decide_eq_true_eq]

theorem foldl_applyBatch {bs : List Batch} (herr : ∀ b ∈ bs, b.err = none) (t : Table) :
    bs.foldl applyBatch t = process (fun id => ∃ b ∈ bs, inShardBatch b id) t := by
  rw [← foldl_process]
  refine List.foldl_ext _ _ t fun t b hb => ?_
  unfold applyBatch
  rw [herr b hb]

/-- **The sharded backfill** processes and counts the ids if and only if no offset overflows. -/
theorem shardedUpdates_iff (hT : 1 ≤ config.TotalRows.toInt) (hB : 1 ≤ config.BatchSize.toInt)
    (hC : 1 ≤ config.Concurrency.toInt) (hn : 1 ≤ config.ShardCount.toInt) :
    ShardedUpdates config ↔ FitsAll config := by
  constructor
  · intro h
    have hquiet : ∀ i : ℕ, Quiet ((fun _ _ => {} : ℕ → ℕ → Iteration) i) := fun _ _ => ⟨rfl, rfl⟩
    obtain ⟨fuel, result, bss, hrun, hupdates, -⟩ := h _ hquiet ⟨.ok 0, .ok 0⟩
    obtain ⟨xs, hxs, rfl, -⟩ := Shard.Backfill.runShardedBackfill_eq_some hrun
    refine (Shard.Overflow.fitsAll_iff (by omega) hn hB hquiet).mpr ⟨xs, ⟨fuel, hxs⟩, ?_⟩
    intro b hb id hstart hend
    have herr := Shard.Overflow.err_of_finishes hquiet ⟨fuel, hxs⟩
    have htable := hupdates _ (List.Perm.refl _)
    rw [← List.flatMap_def] at htable
    simp only [foldl_applyBatch herr] at htable
    exact ((iff_of_process_eq htable id).mp ⟨b, hb, hstart, hend⟩).1
  · intro hfits env hquiet q
    obtain ⟨xs, ⟨fuel, hxs⟩, hall, herr, hsum⟩ :=
      Shard.Cover.shards_tile (by omega) hn hB hfits hquiet
    have hslots : ¬config.Concurrency ≤ 0 := by
      rw [Int64.le_iff_toInt_le, Int64.toInt_zero]
      omega
    have hrun := Shard.Backfill.runShardedBackfill_of_runShards (q := q) hslots hxs
    refine ⟨fuel, _, _, hrun, fun bs hbs t => ?_, ?_⟩
    · rw [← List.flatMap_def] at hbs
      rw [foldl_applyBatch fun b hb => herr b (hbs.mem_iff.mp hb)]
      refine process_congr (fun id => ?_) t
      rw [← exists_has_iff hall]
      exact exists_congr fun b => and_congr hbs.mem_iff inShardBatch_iff
    · have hofInt := ofInt_sum (xs.map fun x => x.1.RowsProcessed)
      rw [List.map_map] at hofInt
      have hcomp : (Int64.toInt ∘ fun x : Shard.Backfill.ShardResult × List Batch => x.1.RowsProcessed) =
          fun x => x.1.RowsProcessed.toInt := rfl
      rw [hcomp, hsum, Int64.ofInt_toInt] at hofInt
      exact hofInt.symm

end Sharded

/-! ### Both -/

/-- The sharded backfill of the same table. -/
def sharded (config : LoadTestConfig) (shards : Int64) : Shard.Backfill.Config where
  TableName := config.TableName
  TotalRows := config.TotalRows
  ShardCount := shards
  BatchSize := config.BatchSize
  Concurrency := config.Concurrency
  VerifyIntegrity := config.VerifyIntegrity

/-- **The engines agree**: both process the ids up to the number of rows, and report it. -/
def Agree (config : LoadTestConfig) (shards : Int64) : Prop :=
  LoadTestUpdates config ∧ ShardedUpdates (sharded config shards)

/-- **The engines agree if and only if the batch size divides the number of rows**, as long as nothing
overflows. -/
theorem agree_iff {config : LoadTestConfig} {shards : Int64} (hT : 1 ≤ config.TotalRows.toInt)
    (hB : 1 ≤ config.BatchSize.toInt) (hC : 1 ≤ config.Concurrency.toInt) (hn : 1 ≤ shards.toInt) :
    Agree config shards ↔ config.BatchSize.toInt ∣ config.TotalRows.toInt ∧
      config.Concurrency.toInt < 2 ^ 62 ∧ FitsAll (sharded config shards) := by
  have hsharded := @shardedUpdates_iff (sharded config shards) hT hB hC hn
  unfold Agree
  rw [loadTestUpdates_iff hT hB hC, hsharded, and_assoc]

theorem agree_iff_default : Agree DefaultLoadTestConfig 16 ↔
    DefaultLoadTestConfig.BatchSize.toInt ∣ DefaultLoadTestConfig.TotalRows.toInt ∧
      DefaultLoadTestConfig.Concurrency.toInt < 2 ^ 62 ∧ FitsAll (sharded DefaultLoadTestConfig 16) :=
  agree_iff (by decide) (by decide) (by decide) (by decide)

/-- Ten rows in batches of four. -/
def tenRows : LoadTestConfig where
  TableName := "t"
  TotalRows := 10
  BatchSize := 4
  Concurrency := 1
  VerifyIntegrity := true

/-- **The load test goes beyond the rows.** -/
theorem not_agree : ¬∀ (config : LoadTestConfig) (shards : Int64), 1 ≤ config.TotalRows.toInt →
    1 ≤ config.BatchSize.toInt → 1 ≤ config.Concurrency.toInt → 1 ≤ shards.toInt →
      Agree config shards := by
  intro h
  have hagree := (h tenRows 1 (by decide) (by decide) (by decide) (by decide)).1
  have hdvd := ((loadTestUpdates_iff (by decide) (by decide) (by decide)).mp hagree).1
  exact absurd hdvd (by decide)

end MigrationSafety.LoadTest.Agreement
