import MigrationSafety.Server.Migrations
import MigrationSafety.StateMachine.Decoding

/-! # Checkpoints in the store

What the backfill handler reads from the store is what was saved there if and only if none of the
three numbers loses a bit on the way (`round_trip_iff`). -/

namespace MigrationSafety.Server.RoundTrip

open MigrationSafety.Lib.Effects MigrationSafety.Lib.Binary64 MigrationSafety.Plan.Validate
open MigrationSafety.StateMachine.Signature MigrationSafety.StateMachine.Handlers
open MigrationSafety.StateMachine.Decoding MigrationSafety.Server.Migrations

/-! ### The store -/

/-- A backfill that starts on the record of the store enters its loop with `pr`. -/
def Restores (s : Store) (id : Id) (pr : Progress) : Prop :=
  ∃ rec, s.load id = some rec ∧ ∀ tr pr', Runs (backfillEnter rec) tr (.ok pr') → pr' = pr

section
variable {s : Store} {id : Id} {row : Row} {pr : Progress}

theorem restores_iff (hrow : s.rows id = some row) :
    Restores s id pr ↔ resumed row.checkpoint.decode = pr := by
  have hload : s.load id = some _ := Store.load_eq_some.mpr ⟨row, hrow, rfl⟩
  constructor
  · rintro ⟨rec, hrec, h⟩
    obtain rfl := Option.some.inj (hload.symm.trans hrec)
    obtain ⟨tr, htr⟩ := backfillEnter_returns _
    exact h tr _ htr
  · exact fun h => ⟨_, hload, fun tr pr' htr => ((backfillEnter_all _).runs htr).1 pr' rfl |>.trans h⟩

/-- **The round trip of a checkpoint**: what is saved is what is read if and only if its three numbers
have at most 53 significant bits each. -/
theorem round_trip_iff (hrow : s.rows id = some row) (hlast : InInt64 pr.lastID)
    (hdone : InInt64 pr.done) (hbatch : InInt64 pr.batchNum) :
    ((∀ state, Restores (s.saveCheckpoint id state pr.checkpoint) id pr) ∧
      ∀ src dst terminal, Restores (s.saveState id src dst pr.checkpoint terminal) id pr) ↔
    Exact pr.lastID ∧ Exact pr.done ∧ Exact pr.batchNum := by
  have hrestored : resumed pr.checkpoint.decode = pr ↔
      Exact pr.lastID ∧ Exact pr.done ∧ Exact pr.batchNum := by
    rw [resumed_decode, ← toInt64_ofInt_iff hlast, ← toInt64_ofInt_iff hdone,
      ← toInt64_ofInt_iff hbatch]
    obtain ⟨lastID, done, batchNum⟩ := pr
    simp
  have hcheckpoint : ∀ state, (s.saveCheckpoint id state pr.checkpoint).rows id = some _ := fun state => by
    unfold Store.saveCheckpoint
    rw [Store.rows_modify_self, hrow, Option.map_some]
  have hstate : ∀ src dst terminal,
      (s.saveState id src dst pr.checkpoint terminal).rows id = some _ := fun src dst terminal => by
    unfold Store.saveState
    rw [Store.rows_modify_self, hrow, Option.map_some]
  rw [← hrestored]
  constructor
  · exact fun h => (restores_iff (hcheckpoint .backfilling)).mp (h.1 .backfilling)
  · exact fun h => ⟨fun state => (restores_iff (hcheckpoint state)).mpr h, fun src dst terminal =>
      (restores_iff (hstate src dst terminal)).mpr h⟩

end

/-- A store with one migration. -/
def oneMigration : Store :=
  (Store.empty.createMigration ⟨_, (validate_ok validate_backfillPlan).2⟩).2

/-- Twenty rows, up to the id 20. -/
theorem round_trip_twenty :
    (∀ state, Restores (oneMigration.saveCheckpoint 0 state (Progress.checkpoint ⟨20, 20, 1⟩)) 0
        ⟨20, 20, 1⟩) ∧
      ∀ src dst terminal, Restores (oneMigration.saveState 0 src dst (Progress.checkpoint ⟨20, 20, 1⟩)
        terminal) 0 ⟨20, 20, 1⟩ :=
  (round_trip_iff rfl ⟨by norm_num, by norm_num⟩ ⟨by norm_num, by norm_num⟩
    ⟨by norm_num, by norm_num⟩).mpr
      ⟨exact_of_abs_le (by norm_num), exact_of_abs_le (by norm_num), exact_of_abs_le (by norm_num)⟩

/-- The id after `2 ^ 53`: the handler resumes one row too early. -/
theorem not_round_trip : ¬∀ (s : Store) (id : Id) (row : Row) (pr : Progress), s.rows id = some row →
    InInt64 pr.lastID → InInt64 pr.done → InInt64 pr.batchNum →
      (∀ state, Restores (s.saveCheckpoint id state pr.checkpoint) id pr) ∧
        ∀ src dst terminal, Restores (s.saveState id src dst pr.checkpoint terminal) id pr := by
  intro h
  have hrestores := (h oneMigration 0 _ ⟨2 ^ 53 + 1, 1, 1⟩ rfl ⟨by norm_num, by norm_num⟩
    ⟨by norm_num, by norm_num⟩ ⟨by norm_num, by norm_num⟩).1 .backfilling
  have hlast := congrArg Progress.lastID ((restores_iff rfl).mp hrestores)
  rw [resumed_decode] at hlast
  exact absurd hlast (by decide +kernel)

end MigrationSafety.Server.RoundTrip
