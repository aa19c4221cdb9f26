import MigrationSafety.StateMachine.BackfillRuns
import MigrationSafety.StateMachine.Selection

/-! # What a backfill touches

A batch names its rows by their ids, so it writes to every row that shares its id with one that is
NULL. `framed_runs` says what follows from this for a whole backfill; where the ids are distinct, it
fills NULLs with the value of the expression and does nothing else, and writes at most once to a row
whose expression has a value (`frame_of_nodup`). `Framed.batched` is the step of one batch. -/

namespace MigrationSafety.StateMachine.Frame

open MigrationSafety.Lib.Effects MigrationSafety.Lib.Restarts
open MigrationSafety.Plan.Validate MigrationSafety.Sql.Rows
open MigrationSafety.StateMachine.Signature MigrationSafety.StateMachine.Run
open MigrationSafety.StateMachine.Faultless (selected updateRows)
open MigrationSafety.StateMachine.Selection MigrationSafety.StateMachine.BackfillRuns

variable {V : Type}

theorem set_set (r : Row V) (col : String) (v w : Option V) : (r.set col v).set col w = r.set col w := by
  unfold Row.set
  congr 1
  funext c
  dsimp only
  split_ifs <;> rfl

/-! ### Rows -/

/-- The expression does not depend on the column it fills. -/
def Steady (S : Setting V) : Prop := ∀ r v, S.eval S.expr (r.set S.col v) = S.eval S.expr r

/-- Some row with this id is NULL. -/
def NullAt (S : Setting V) (rows : List (Row V)) (x : ℤ) : Prop :=
  ∃ r ∈ rows, r.id = x ∧ r.get S.col = none

/-- The expression has a value on every row with this id. -/
def ValuedAt (S : Setting V) (rows : List (Row V)) (x : ℤ) : Prop :=
  ∀ r ∈ rows, r.id = x → S.eval S.expr r ≠ none

/-- The row is as it was, or its column has become the value of the expression where some row with the
same id was NULL. -/
def Kept (S : Setting V) (rows : List (Row V)) (r₀ r : Row V) : Prop :=
  r = r₀ ∨ NullAt S rows r₀.id ∧ r = r₀.set S.col (S.eval S.expr r₀)

/-- Some batch has updated the rows with this id. -/
def Touched (s : Stored V) (x : ℤ) : Prop := ∃ ids ∈ s.batches, x ∈ ids

section
variable {S : Setting V} {rows rows' : List (Row V)} {r₀ r : Row V} {ids : List ℤ}

theorem Kept.id (h : Kept S rows r₀ r) : r.id = r₀.id := by
  rcases h with rfl | ⟨-, rfl⟩ <;> rfl

theorem Kept.eval (hpure : Steady S) (h : Kept S rows r₀ r) :
    S.eval S.expr r = S.eval S.expr r₀ := by
  rcases h with rfl | ⟨-, rfl⟩
  · rfl
  · exact hpure _ _

/-- The row is written to. -/
theorem Kept.fill (hpure : Steady S) (h : Kept S rows r₀ r) (hnull : NullAt S rows r₀.id) :
    Kept S rows r₀ (r.set S.col (S.eval S.expr r)) := by
  rcases h with rfl | ⟨-, rfl⟩
  · exact Or.inr ⟨hnull, rfl⟩
  · rw [hpure, set_set]
    exact Or.inr ⟨hnull, rfl⟩

/-- A NULL has been there from the start. -/
theorem Kept.null (h : Kept S rows r₀ r) (hr₀ : r₀ ∈ rows) (hnull : r.get S.col = none) :
    NullAt S rows r.id := by
  rcases h with rfl | ⟨hnull₀, rfl⟩
  · exact ⟨_, hr₀, rfl, hnull⟩
  · exact hnull₀

/-- Every row was there from the start. -/
theorem exists_kept (h : List.Forall₂ (Kept S rows) rows rows') (hr : r ∈ rows') :
    ∃ r₀ ∈ rows, Kept S rows r₀ r := by
  obtain ⟨i, hi, rfl⟩ := List.getElem_of_mem hr
  exact ⟨_, List.getElem_mem (h.length_eq ▸ hi), h.get (h.length_eq ▸ hi) hi⟩

/-- An update of rows with NULLs among them. -/
theorem kept_updateRows (hpure : Steady S) (h : List.Forall₂ (Kept S rows) rows rows')
    (hids : ∀ x ∈ ids, NullAt S rows x) :
    List.Forall₂ (Kept S rows) rows (updateRows S.eval rows' S.col S.expr ids) := by
  unfold updateRows
  rw [List.forall₂_map_right_iff, List.forall₂_iff_get]
  refine ⟨h.length_eq, fun i hi hi' => ?_⟩
  have hkept := h.get hi hi'
  split_ifs with hin
  · exact hkept.fill hpure (hkept.id ▸ hids _ hin)
  · exact hkept

end

/-! ### The invariant -/

/-- What a backfill from `rows` leaves. -/
structure Framed (S : Setting V) (rows : List (Row V)) (s : Stored V) : Prop where
  kept : List.Forall₂ (Kept S rows) rows s.rows
  once : ∀ x, ValuedAt S rows x → s.batches.countP (x ∈ ·) ≤ 1
  /-- A batch leaves no NULL where the expression has a value. -/
  spent : ∀ r ∈ s.rows, ValuedAt S rows r.id → Touched s r.id → r.get S.col ≠ none

section
variable {S : Setting V} {rows : List (Row V)} {s : Stored V}

theorem framed_init : Framed S rows (S.init rows) where
  kept := List.forall₂_same.mpr fun _ _ => Or.inl rfl
  once := fun _ _ => Nat.zero_le 1
  spent := fun _ _ _ ⟨_, hids, _⟩ => by cases hids

/-- A batch only takes what was NULL from the start. -/
theorem Framed.null_of_selected (h : Framed S rows s) {c limit x : ℤ}
    (hx : x ∈ selected s.rows S.col c limit) : NullAt S rows x := by
  obtain ⟨r, hr, hnull, -, rfl⟩ := mem_selected_imp hx
  obtain ⟨r₀, hr₀, hkept⟩ := exists_kept h.kept hr
  exact hkept.null hr₀ hnull

/-- A batch does not take again what has a value. -/
theorem Framed.not_touched (h : Framed S rows s) {c limit x : ℤ} (hval : ValuedAt S rows x)
    (hx : x ∈ selected s.rows S.col c limit) : ¬Touched s x := by
  obtain ⟨r, hr, hnull, -, rfl⟩ := mem_selected_imp hx
  exact fun ht => h.spent r hr hval ht hnull

/-- **One batch.** -/
theorem Framed.batched (hpure : Steady S) (h : Framed S rows s) (c limit : ℤ) :
    Framed S rows (S.batched s c limit) where
  kept := kept_updateRows hpure h.kept fun _ => h.null_of_selected
  once := by
    intro x hval
    change (s.batches ++ [selected s.rows S.col c limit]).countP _ ≤ 1
    rw [List.countP_append, List.countP_singleton]
    split_ifs with hx
    · have hzero : s.batches.countP (x ∈ ·) = 0 := by
        refine List.countP_eq_zero.mpr fun ids hids hin => ?_
        exact h.not_touched hval (by simpa using hx) ⟨ids, hids, by simpa using hin⟩
      omega
    · exact h.once x hval
  spent := by
    rintro u hu hval ⟨ids, hids, hin⟩
    obtain ⟨r, hr, rfl⟩ := mem_updateRows.mp hu
    rw [id_update] at hval hin
    by_cases hsel : r.id ∈ selected s.rows S.col c limit
    · obtain ⟨r₀, hr₀, hkept⟩ := exists_kept h.kept hr
      rw [if_pos hsel, Row.get_set_self, hkept.eval hpure]
      exact hval r₀ hr₀ hkept.id.symm
    · rw [if_neg hsel]
      rcases List.mem_append.mp hids with hids | hids
      · exact h.spent r hr hval ⟨ids, hids, hin⟩
      · rw [List.mem_singleton.mp hids] at hin
        exact absurd hin hsel

/-- Nothing is asked of the points of the loop. -/
def anywhere (S : Setting V) (ok : Event engine → Prop) : Outline S ok where
  Head := fun _ _ => True
  Filled := fun _ _ _ => True
  Moved := fun _ _ => True
  Again := fun _ _ => True
  Done := fun _ _ => True
  pause := fun _ _ _ _ => trivial
  last := fun _ _ _ _ _ _ _ => trivial
  fill := fun _ _ _ _ _ _ _ => trivial
  move := fun _ _ _ _ _ => trivial
  stay := fun _ _ _ _ _ => trivial
  save := fun _ _ _ => trivial

theorem recovers_anywhere (hpure : Steady S) :
    (anywhere S fun _ => True).Recovers (fun _ => True) (Framed S rows) where
  again := fun _ _ _ => trivial
  resume := fun _ _ _ _ => trivial
  batch := fun _ _ _ h _ _ => h.batched hpure _ _
  save := fun _ _ h _ => ⟨h.kept, h.once, h.spent⟩
  leave := fun _ _ h _ => ⟨h.kept, h.once, h.spent⟩

section
variable {delay : ℤ} {as : List (Move engine Bool Pt)} {m : Machine engine (Stored V) Exit}

/-- The invariant of every run, with any number of crashes and restarts. -/
theorem framed_runs (hpure : Steady S)
    (hrun : S.Runs delay (fun _ => True) (fun _ => True) ⟨S.init rows, none⟩ as m) :
    Framed S rows m.world :=
  ((recovers_anywhere hpure).runs hrun framed_init).world

/-- **A backfill touches only what it must.** -/
theorem frame (hpure : Steady S)
    (hrun : S.Runs delay (fun _ => True) (fun _ => True) ⟨S.init rows, none⟩ as m) :
    List.Forall₂ (Kept S rows) rows m.world.rows ∧
      ∀ r ∈ rows, ValuedAt S rows r.id → m.world.batches.countP (r.id ∈ ·) ≤ 1 :=
  ⟨(framed_runs hpure hrun).kept, fun r _ => (framed_runs hpure hrun).once r.id⟩

/-- With distinct ids the other rows do not matter. -/
theorem frame_of_nodup (hpure : Steady S) (hrows : (rows.map Row.id).Nodup)
    (hrun : S.Runs delay (fun _ => True) (fun _ => True) ⟨S.init rows, none⟩ as m) :
    List.Forall₂ (fun r₀ r => r = r₀ ∨ r₀.get S.col = none ∧ r = r₀.set S.col (S.eval S.expr r₀))
        rows m.world.rows ∧
      ∀ r ∈ rows, S.eval S.expr r ≠ none → m.world.batches.countP (r.id ∈ ·) ≤ 1 := by
  have h := framed_runs hpure hrun
  constructor
  · rw [List.forall₂_iff_get]
    refine ⟨h.kept.length_eq, fun i hi hi' => ?_⟩
    rcases h.kept.get hi hi' with heq | ⟨⟨q, hq, hid, hnull⟩, heq⟩
    · exact Or.inl heq
    · rw [List.inj_on_of_nodup_map hrows hq (List.get_mem _ _) hid] at hnull
      exact Or.inr ⟨hnull, heq⟩
  · intro r hr heval
    refine h.once r.id fun q hq hid => ?_
    rwa [List.inj_on_of_nodup_map hrows hq hr hid]

end

end

/-! ### Two rows -/

/-- The first batch of a backfill. -/
theorem reaches_first_batch (S : Setting V) (rows : List (Row V)) (limit : ℤ) (hle : 0 ≤ limit) :
    ∃ as m, S.Runs 0 (fun _ => True) (fun _ => True) ⟨S.init rows, none⟩ as m ∧
      m.world = S.batched (S.init rows) 0 limit := by
  have hok : FreeBut fun _ => True := fun _ _ => trivial
  obtain ⟨_, hfirst⟩ := reaches_first (S := S) 0 (fun _ => True) hok rows trivial
  obtain ⟨_, hbatch⟩ := reaches_batch (S := S) (r := S.record (S.init rows)) 0 (fun _ => True) hok trivial
    hle rfl (S.init rows) ⟨0, 0, 0⟩
  exact ⟨_, _, hfirst.append hbatch, rfl⟩

theorem frame_two : ∃ as m, constant.Runs 0 (fun _ => True) (fun _ => True)
    ⟨constant.init [row 1 none, row 2 (some 3)], none⟩ as m ∧
      (m.world.rows.map fun r => r.get "b") = [some 7, some 3] ∧
      List.Forall₂ (Kept constant [row 1 none, row 2 (some 3)]) [row 1 none, row 2 (some 3)]
        m.world.rows := by
  obtain ⟨as, m, hrun, hworld⟩ :=
    reaches_first_batch constant [row 1 none, row 2 (some 3)] 1 (by decide)
  exact ⟨as, m, hrun, by rw [hworld]; decide +kernel, (frame (fun _ _ => rfl) hrun).1⟩

/-- **A filled row is overwritten**: it shares its id with one that is NULL. -/
theorem overwritten : Steady constant ∧ ∃ as m, constant.Runs 0 (fun _ => True) (fun _ => True)
    ⟨constant.init [row 1 none, row 1 (some 3)], none⟩ as m ∧
      ¬List.Forall₂ (fun r₀ r => r = r₀ ∨ r₀.get constant.col = none ∧
          r = r₀.set constant.col (constant.eval constant.expr r₀))
        [row 1 none, row 1 (some 3)] m.world.rows := by
  obtain ⟨as, ⟨s, c⟩, hrun, rfl⟩ :=
    reaches_first_batch constant [row 1 none, row 1 (some 3)] 1 (by decide)
  refine ⟨fun _ _ => rfl, as, ⟨_, c⟩, hrun, fun h => ?_⟩
  rcases h.get (i := 1) (by decide) Nat.one_lt_two with heq | ⟨hnull, -⟩
  · have hget : ((constant.batched (constant.init [row 1 none, row 1 (some 3)]) 0 1).rows.get
        ⟨1, Nat.one_lt_two⟩).get "b" = (row 1 (some 3)).get "b" := congrArg (fun r => r.get "b") heq
    exact absurd hget (by decide +kernel)
  · exact absurd hnull (by decide +kernel)

end MigrationSafety.StateMachine.Frame
