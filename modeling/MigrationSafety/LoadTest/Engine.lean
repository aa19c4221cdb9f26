import Mathlib.Data.List.Perm.Basic
import MigrationSafety.Lib.WorkQueue
import MigrationSafety.Shard.Cover

/-! # The load test

The load test updates a table in batches too, but its batches go from offset zero on through a channel, and
any number of consumers take them from there. What it leaves of the table depends on the batches that were
done, in their order; that order is up to the goroutines. Times, rates and the metrics are left out, and so
is that the table is dropped when the result is there.

* `process_process`, `foldl_process`: updates one after the other.
* `rowsProcessed_eq`: the count of a run without failures. -/

namespace MigrationSafety.LoadTest.Engine

open MigrationSafety.Lib.Paths MigrationSafety.Lib.WorkQueue
open MigrationSafety.Shard.Backfill (Check)

/-- The configuration. -/
structure LoadTestConfig where
  TableName : String
  TotalRows : Int64
  BatchSize : Int64
  Concurrency : Int64
  VerifyIntegrity : Bool

def DefaultLoadTestConfig : LoadTestConfig where
  TableName := "load_test_large"
  TotalRows := 100000000
  BatchSize := 10000
  Concurrency := 16
  VerifyIntegrity := true

/-! ### The table -/

/-- A row; the status may be NULL. -/
structure Row where
  id : Int64
  status : Option String
deriving DecidableEq

abbrev Table := List Row

def Row.process (p : Int64 → Prop) [DecidablePred p] (r : Row) : Row :=
  if p r.id ∧ r.status = some "pending" then { r with status := some "processed" } else r

/-- **The UPDATE of a batch**: of the rows with an id in `p`, those that are pending are processed. -/
def process (p : Int64 → Prop) [DecidablePred p] (t : Table) : Table := t.map (Row.process p)

section Process
variable {p q : Int64 → Prop} [DecidablePred p] [DecidablePred q]

theorem process_congr (h : ∀ id, p id ↔ q id) (t : Table) : process p t = process q t := by
  unfold process Row.process
  simp only [h]

/-- A row is processed once. -/
theorem process_process (t : Table) : process q (process p t) = process (fun id => p id ∨ q id) t := by
  unfold process
  rw [List.map_map]
  refine List.map_congr_left fun r _ => ?_
  change Row.process q (Row.process p r) = _
  unfold Row.process
  by_cases hr : r.status = some "pending" <;> by_cases hp : p r.id <;> simp [hr, hp]

/-- What an update makes of a pending row says whether its id is meant. -/
theorem process_pending (id : Int64) : process p [⟨id, some "pending"⟩] =
    [⟨id, some (if p id then "processed" else "pending")⟩] := by
  unfold process Row.process
  by_cases hp : p id <;> simp [hp]

/-- **Updates that always have the same result** are for the same ids. -/
theorem iff_of_process_eq (h : ∀ t, process p t = process q t) (id : Int64) : p id ↔ q id := by
  have hid := h [⟨id, some "pending"⟩]
  rw [process_pending, process_pending] at hid
  by_cases hp : p id <;> by_cases hq : q id <;> simp [hp, hq] at hid ⊢

/-- **One update after the other.** -/
theorem foldl_process {β : Type} {P : β → Int64 → Prop} [∀ b, DecidablePred (P b)] (l : List β)
    (t : Table) : l.foldl (fun t b => process (P b) t) t = process (fun id => ∃ b ∈ l, P b id) t := by
  induction l generalizing t with
  | nil =>
    unfold process
    refine (List.map_id'' (fun r => ?_) t).symm
    simp [Row.process]
  | cons b l ih =>
    rw [List.foldl_cons, ih, process_process]
    exact process_congr (fun id => by rw [List.exists_mem_cons_iff]) t

end Process

/-! ### The engine -/

/-- The producer at an offset: the offset of a batch, and where it goes on. -/
def producer (config : LoadTestConfig) (offset : Int64) : Option (Int64 × Int64) :=
  if offset < config.TotalRows then some (offset, offset + config.BatchSize) else none

/-- The channel of the batches, with twice as many places as there are consumers. -/
def batchChan (config : LoadTestConfig) : Config Int64 Int64 where
  next := producer config
  capacity := (config.Concurrency * 2).toInt.toNat
  slots := config.Concurrency.toInt.toNat

/-- A batch is done with the error of `processBatch`, if any. -/
abbrev Goroutines (config : LoadTestConfig) :=
  State Int64 Int64 (Option String) config.Concurrency.toInt.toNat

abbrev Act (config : LoadTestConfig) := Event (Option String) config.Concurrency.toInt.toNat

/-- `id > $1 AND id <= $2` -/
def inBatch (config : LoadTestConfig) (offset id : Int64) : Prop :=
  offset < id ∧ id ≤ offset + config.BatchSize

instance (config : LoadTestConfig) (offset : Int64) : DecidablePred (inBatch config offset) :=
  fun id => inferInstanceAs (Decidable (offset < id ∧ id ≤ offset + config.BatchSize))

/-- `processBatch`: a batch with an error is rolled back. -/
def processBatch (config : LoadTestConfig) (t : Table) : Int64 × Option String → Table
  | (offset, none) => process (inBatch config offset) t
  | (_, some _) => t

structure LoadTestResult where
  TableName : String
  TotalRows : Int64
  RowsProcessed : Int64
  BatchesProcessed : Int64
  ErrorCount : Int64
  Errors : List String

/-- The batches without an error. -/
def succeeded {config : LoadTestConfig} (s : Goroutines config) : List (Int64 × Option String) :=
  s.done.filter fun b => b.2.isNone

/-- The result when the consumers have returned. The integrity check is that of the sharded backfill. -/
def result (config : LoadTestConfig) (s : Goroutines config) (q : Check) : LoadTestResult where
  TableName := config.TableName
  TotalRows := config.TotalRows
  RowsProcessed := ((succeeded s).map fun _ => config.BatchSize).sum
  BatchesProcessed := Int64.ofNat (succeeded s).length
  ErrorCount := Int64.ofNat (s.done.length - (succeeded s).length)
  Errors := if config.VerifyIntegrity then (Shard.Backfill.verifyIntegrity q).toList else []

/-- What the batches have made of the table. -/
def tableAfter {config : LoadTestConfig} (s : Goroutines config) (t : Table) : Table :=
  s.done.foldl (processBatch config) t

/-- `make` panics where a channel would have a negative number of places. -/
def Makes (config : LoadTestConfig) : Prop := 0 ≤ config.Concurrency ∧ 0 ≤ config.Concurrency * 2

/-- **A call**, with the table there is, the answers to the integrity check, the events that may happen and
the answer to CREATE TABLE: the result and the table it leaves, for every order in which its goroutines may
go on. -/
inductive RunLoadTest (config : LoadTestConfig) (t : Table) (q : Check) (ok : Act config → Prop) :
    Option String → Except String (LoadTestResult × Table) → Prop
  | notCreated {err : String} :
      RunLoadTest config t q ok (some err) (.error ("failed to create test table: " ++ err))
  | finished {es : List (Act config)} {s : Goroutines config} (hmakes : Makes config)
      (hrun : Path (fun s e u => Step (batchChan config) s e u ∧ ok e) (start 0) es s)
      (hstop : s.Stopped) :
      RunLoadTest config t q ok none (.ok (result config s q, tableAfter s t))

/-! ### Runs without failures -/

variable {config : LoadTestConfig} {es : List (Act config)} {s : Goroutines config}

theorem gives_iff {offset a next : Int64} : Gives (producer config) offset a next ↔
    offset < config.TotalRows ∧ offset = a ∧ offset + config.BatchSize = next := by
  unfold Gives producer
  split_ifs with h
  · simp [h]
  · simp [h]

theorem producer_eq_none {offset : Int64} : producer config offset = none ↔ ¬offset < config.TotalRows := by
  unfold producer
  split_ifs with h <;> simp [h]

/-- **The table** when no batch has failed: what is in a batch that is done has been processed. -/
theorem tableAfter_eq (hdone : ∀ b ∈ s.done, b.2 = none) (t : Table) :
    tableAfter s t = process (fun id => ∃ offset ∈ s.done.map Prod.fst, inBatch config offset id) t := by
  unfold tableAfter
  rw [← foldl_process, List.foldl_map]
  refine List.foldl_ext _ _ t fun t b hb => ?_
  obtain ⟨offset, err⟩ := b
  obtain rfl : err = none := hdone _ hb
  rfl

/-- **The count** when no batch has failed: a whole batch each time. -/
theorem rowsProcessed_eq (hdone : ∀ b ∈ s.done, b.2 = none) (q : Check) :
    (result config s q).RowsProcessed = Int64.ofInt (s.done.length * config.BatchSize.toInt) := by
  have hall : succeeded s = s.done := List.filter_eq_self.mpr fun b hb => by rw [hdone b hb]; rfl
  have hconst : (Int64.toInt ∘ fun _ : Int64 × Option String => config.BatchSize) =
      fun _ => config.BatchSize.toInt := rfl
  change ((succeeded s).map fun _ => config.BatchSize).sum = _
  rw [hall, ← Lib.Words.ofInt_sum, List.map_map, hconst, List.map_const', List.sum_replicate,
    nsmul_eq_mul]

end MigrationSafety.LoadTest.Engine
