import MigrationSafety.StateMachine.BackfillRuns
import MigrationSafety.StateMachine.Selection

/-! # Does a backfill fill everything?

The new cursor is the greatest id of a filled row, not of a row of the batch. A row that was filled
before the backfill, in between those that were not, takes the cursor past the NULLs below it, and the
backfill ends without them. `Tidy` says that there is no such row; it is kept by every batch
(`Good.batched`), and a backfill is complete whatever the sizes of its batches and wherever it is
interrupted if and only if the table it starts on is tidy (`complete_iff`). -/

namespace MigrationSafety.StateMachine.Completeness

open MigrationSafety.Lib.Effects MigrationSafety.Lib.Restarts MigrationSafety.Lib.Binary64
open MigrationSafety.Plan.Validate MigrationSafety.Sql.Rows
open MigrationSafety.StateMachine.Signature MigrationSafety.StateMachine.Handlers
open MigrationSafety.StateMachine.Run MigrationSafety.StateMachine.Decoding
open MigrationSafety.StateMachine.Faultless (selected updateRows maxId)
open MigrationSafety.StateMachine.Selection MigrationSafety.StateMachine.BackfillRuns

variable {V : Type}

/-- Every filled row is below all NULLs but the first. -/
def Tidy (S : Setting V) (rows : List (Row V)) : Prop :=
  ∀ a ∈ rows, ∀ a' ∈ rows, a.get S.col = none → a'.get S.col = none → a.id < a'.id →
    ∀ b ∈ rows, b.get S.col ≠ none → b.id < a'.id

/-- Every filled row is below all NULLs. -/
def Cleared (S : Setting V) (rows : List (Row V)) : Prop :=
  ∀ a ∈ rows, a.get S.col = none → ∀ b ∈ rows, b.get S.col ≠ none → b.id < a.id

/-- The expression has a value wherever a batch may write. -/
def Valued (S : Setting V) (rows : List (Row V)) : Prop :=
  ∀ a ∈ rows, a.get S.col = none → ∀ r ∈ rows, r.id = a.id → S.eval S.expr r ≠ none

/-- What holds between a table and a cursor that has passed no NULL. -/
structure Good (S : Setting V) (rows : List (Row V)) (c : ℤ) : Prop where
  ids : InRange rows
  valued : Valued S rows
  tidy : Tidy S rows
  bound : 0 ≤ c ∧ c ≤ 2 ^ 53
  after : ∀ r ∈ rows, r.get S.col = none → c < r.id

section
variable {S : Setting V} {rows : List (Row V)} {c c' limit : ℤ} {r : Row V}

/-! ### One batch -/

theorem Valued.value (h : Valued S rows) : ∀ r ∈ rows, r.id ∈ selected rows S.col c limit →
    S.eval S.expr r ≠ none := by
  intro r hr hsel
  obtain ⟨a, ha, hnull, -, hid⟩ := mem_selected_imp hsel
  exact h a ha hnull r hr hid.symm

/-- What is NULL after a batch. -/
theorem Valued.null (h : Valued S rows)
    (hr : r ∈ updateRows S.eval rows S.col S.expr (selected rows S.col c limit))
    (hnull : r.get S.col = none) : r ∈ rows ∧ r.id ∉ selected rows S.col c limit :=
  null_updateRows h.value hr hnull

theorem Valued.batched (h : Valued S rows) :
    Valued S (updateRows S.eval rows S.col S.expr (selected rows S.col c limit)) := by
  intro a ha hnull u hu hid
  obtain ⟨ha', hsel⟩ := h.null ha hnull
  obtain ⟨r, hr, rfl⟩ := mem_updateRows.mp hu
  rw [id_update] at hid
  rw [if_neg (hid ▸ hsel)]
  exact h a ha' hnull r hr hid

/-- **A batch leaves all filled rows below all NULLs.** -/
theorem Good.cleared (h : Good S rows c) (hlimit : 1 ≤ limit) :
    Cleared S (updateRows S.eval rows S.col S.expr (selected rows S.col c limit)) := by
  intro a ha hnull u hu hsome
  obtain ⟨ha', hsel⟩ := h.valued.null ha hnull
  obtain ⟨m, ⟨q, hq, hqnull, -, rfl⟩, hiff⟩ :=
    selected_split (c := c) (by omega : 0 < limit) ⟨a, ha', hnull, h.after a ha' hnull⟩
  have hlt : q.id < a.id := by
    rw [hiff a ha' hnull (h.after a ha' hnull)] at hsel
    exact not_le.mp hsel
  obtain ⟨b, hb, rfl⟩ := mem_updateRows.mp hu
  rw [id_update]
  by_cases hin : b.id ∈ selected rows S.col c limit
  · -- it was filled by this batch, which ends at `q`
    obtain ⟨b', hb', hb'null, hb'c, hid⟩ := mem_selected_imp hin
    have := (hiff b' hb' hb'null hb'c).mp (hid ▸ hin)
    omega
  · rw [if_neg hin] at hsome
    exact h.tidy q hq a ha' hqnull hnull hlt b hb hsome

theorem Cleared.tidy (h : Cleared S rows) : Tidy S rows :=
  fun _ _ a' ha' _ hnull _ b hb hsome => h a' ha' hnull b hb hsome

theorem Good.batched (h : Good S rows c) (h' : Good S rows c') (hlimit : 1 ≤ limit) :
    Good S (updateRows S.eval rows S.col S.expr (selected rows S.col c' limit)) c where
  ids := h.ids.update
  valued := h.valued.batched
  tidy := (h'.cleared hlimit).tidy
  bound := h.bound
  after := fun _ hr hnull => h.after _ (h.valued.null hr hnull).1 hnull

/-- The cursor moves to the greatest id of a filled row. -/
theorem Good.move (h : Good S rows c) (hclear : Cleared S rows) (hlt : c < maxId rows S.col c) :
    Good S rows (maxId rows S.col c) := by
  obtain ⟨⟨b, hb, hsome, hid⟩, -⟩ := maxId_spec hlt h.bound.1
  refine { h with bound := ?_, after := fun r hr hnull => ?_ }
  · rw [← hid]
    have := h.ids b hb
    omega
  · rw [← hid]
    exact hclear r hr hnull b hb hsome

/-- A batch that is not empty fills a row after the cursor. -/
theorem Valued.exists_filled (h : Valued S rows) (hne : selected rows S.col c limit ≠ []) :
    ∃ r ∈ updateRows S.eval rows S.col S.expr (selected rows S.col c limit),
      r.get S.col ≠ none ∧ c < r.id := by
  obtain ⟨x, hx⟩ := List.exists_mem_of_ne_nil _ hne
  obtain ⟨r, hr, hnull, hc, rfl⟩ := mem_selected_imp hx
  refine ⟨_, mem_updateRows.mpr ⟨r, hr, if_pos hx⟩, ?_, hc⟩
  rw [Row.get_set_self]
  exact h.value r hr hx

/-- A batch that updates no row finds no NULL. -/
theorem Good.full (h : Good S rows c) (hlimit : 1 ≤ limit) (hnil : selected rows S.col c limit = []) :
    ∀ r ∈ updateRows S.eval rows S.col S.expr (selected rows S.col c limit), r.get S.col ≠ none := by
  rw [hnil, updateRows_nil]
  intro r hr hnull
  exact not_null_of_selected_eq_nil (by omega) hnil hr (h.after r hr hnull) hnull

end

/-! ### The backfill of a tidy table -/

section
variable {S : Setting V} {rows : List (Row V)} {s : Stored V} {pr : Progress}

/-- What holds at the points of the loop. -/
def tidying (S : Setting V) : Outline S Sized where
  Head := fun s pr => Good S s.rows pr.lastID
  Filled := fun s pr _ => Good S s.rows pr.lastID ∧ Cleared S s.rows ∧
    ∃ r ∈ s.rows, r.get S.col ≠ none ∧ pr.lastID < r.id
  Moved := fun s pr => Good S s.rows pr.lastID
  Again := fun s pr => Good S s.rows pr.lastID
  Done := fun s pr => Good S s.rows pr.lastID ∧ ∀ r ∈ s.rows, r.get S.col ≠ none
  pause := fun _ _ h _ => h
  last := fun _ _ _ h hlimit _ hn =>
    ⟨h.batched h hlimit, h.full hlimit (countP_selected_eq_zero.mp hn)⟩
  fill := fun _ _ _ h hlimit _ hn => ⟨h.batched h hlimit, h.cleared hlimit,
    h.valued.exists_filled fun hnil => hn (countP_selected_eq_zero.mpr hnil)⟩
  move := fun _ _ _ h hlt => h.1.move h.2.1 hlt
  stay := fun _ _ _ ⟨_, _, _, hr, hsome, hlt⟩ hle => absurd hle (not_le.mpr (lt_maxId hr hsome hlt))
  save := fun _ _ h => h

/-- The cursor comes back from the store as it went. -/
theorem Good.resumed (h : Good S rows pr.lastID) :
    Good S rows (resumed pr.checkpoint.decode).lastID := by
  have hid : (Decoding.resumed pr.checkpoint.decode).lastID = pr.lastID := by
    rw [resumed_decode]
    have hbound := h.bound
    refine toInt64_of_exact ⟨by omega, by omega⟩ (exact_of_abs_le ?_)
    rw [abs_of_nonneg hbound.1]
    exact hbound.2
  rwa [hid]

theorem recovers_tidying (S : Setting V) : (tidying S).Recovers (fun _ => True)
    fun s => Good S s.rows (resumed s.checkpoint.decode).lastID where
  again := fun _ _ h => h
  resume := fun _ h _ _ => h
  batch := fun _ _ _ h hhead hlimit => h.batched hhead hlimit
  save := fun _ _ _ h => h.resumed
  leave := fun _ _ _ h => h.1.resumed

theorem good_init (hids : InRange rows) (hexpr : ∀ r ∈ rows, S.eval S.expr r ≠ none)
    (htidy : Tidy S rows) : Good S rows 0 where
  ids := hids
  valued := fun _ _ _ r hr _ => hexpr r hr
  tidy := htidy
  bound := by norm_num
  after := fun r hr _ => by
    have := hids r hr
    omega

/-- **The backfill is complete**: in every run, with batches of at least one row and any number of
crashes and restarts, no NULL is left when the handler returns. -/
def Complete (S : Setting V) (rows : List (Row V)) : Prop :=
  ∀ (delay : ℤ) (as : List (Move engine Bool Pt)) (m : Machine engine (Stored V) Exit) (id : Id)
    (src dst : State) (checkpoint : Checkpoint) (terminal : Bool),
    S.Runs delay Sized (fun _ => True) ⟨S.init rows, none⟩ as m →
      m.Asks (.saveState id src dst checkpoint terminal) → nullCount m.world.rows S.col = 0

theorem complete_of_tidy (hids : InRange rows) (hexpr : ∀ r ∈ rows, S.eval S.expr r ≠ none)
    (htidy : Tidy S rows) : Complete S rows := by
  intro delay as m id src dst checkpoint terminal hrun hop
  have hinit : Good S (S.init rows).rows (resumed (S.init rows).checkpoint.decode).lastID := by
    rw [show resumed (S.init rows).checkpoint.decode = ⟨0, 0, 0⟩ from resumed_init (S := S) rows]
    exact good_init hids hexpr htidy
  obtain ⟨pr, -, hfull⟩ := (recovers_tidying S).done hrun hinit trivial hop
  exact nullCount_eq_zero.mpr hfull

/-! ### The backfill of any other table -/

/-- A batch that takes every NULL after the cursor leaves none there. -/
theorem Valued.selected_eq_nil (h : Valued S rows) {c c' limit limit' : ℤ} (hlimit : rows.length ≤ limit)
    (hle : c ≤ c') : selected (updateRows S.eval rows S.col S.expr (selected rows S.col c limit)) S.col
      c' limit' = [] := by
  rw [List.eq_nil_iff_forall_not_mem]
  intro x hx
  obtain ⟨r, hr, hnull, hc, rfl⟩ := mem_selected_imp hx
  obtain ⟨hr', hnot⟩ := h.null hr hnull
  exact hnot (mem_selected_of_length_le hlimit hr' hnull (by omega))

/-- From a cursor that has passed a NULL on, the loop can end without filling it. -/
theorem reaches_incomplete (delay : ℤ) {r : Record} (hr : r.plan = S.plan) (hvalued : Valued S s.rows)
    (pr : Progress) {q : Row V} (hq : q ∈ s.rows) (hle : q.id ≤ pr.lastID) :
    ∃ as m, S.Runs delay Sized (fun _ => True) ⟨s, some (body delay S.id (.batch r pr))⟩ as m ∧
      q ∈ m.world.rows ∧ ∃ checkpoint, m.Asks (.saveState S.id .backfilling .verifying checkpoint false) := by
  have hlimit : Sized ⟨.getBatchSize, (s.rows.length + 1 : ℤ)⟩ := by
    change (1 : ℤ) ≤ s.rows.length + 1
    omega
  have hone : Sized ⟨.getBatchSize, (1 : ℤ)⟩ := le_refl (1 : ℤ)
  have hstay : q ∈ (S.batched s pr.lastID (s.rows.length + 1)).rows :=
    mem_updateRows_of_notMem hq (notMem_selected hle)
  by_cases hn : S.affected s pr.lastID (s.rows.length + 1) = 0
  · obtain ⟨as, m, hrun, hworld, hop⟩ := reaches_end delay (fun _ => True) freeBut_sized hlimit (by omega)
      hr pr hn
    exact ⟨as, m, hrun, hworld ▸ hstay, _, hop⟩
  · obtain ⟨b, hb, hsome, hlt⟩ :=
      hvalued.exists_filled fun hnil => hn (countP_selected_eq_zero.mpr hnil)
    have hmax := lt_maxId hb hsome hlt
    obtain ⟨as, hturn⟩ := reaches_turn delay (fun _ => True) freeBut_sized hlimit (by omega) hr pr hn
      rfl hmax
    set y := maxId (S.batched s pr.lastID (s.rows.length + 1)).rows S.col pr.lastID
    set pr' : Progress := ⟨y, pr.done + S.affected s pr.lastID (s.rows.length + 1), pr.batchNum + 1⟩
    set t := (S.batched s pr.lastID (s.rows.length + 1)).saved pr'
    -- no NULL is left after the cursor
    have hend : S.affected t pr'.lastID 1 = 0 :=
      countP_selected_eq_zero.mpr (hvalued.selected_eq_nil (by omega) hmax.le)
    obtain ⟨as', m, hrun, hworld, hop⟩ := reaches_end delay (fun _ => True) freeBut_sized hone (by omega)
      hr pr' hend
    refine ⟨_, m, hturn.append hrun, ?_, _, hop⟩
    rw [hworld]
    exact mem_updateRows_of_notMem hstay (notMem_selected (hle.trans hmax.le))

/-- A batch of one row, with a filled row above the next NULL. -/
theorem reaches_past (delay : ℤ) (hids : InRange rows) (hexpr : ∀ r ∈ rows, S.eval S.expr r ≠ none)
    {a a' b : Row V} (ha : a ∈ rows) (ha' : a' ∈ rows) (hb : b ∈ rows) (hnull : a.get S.col = none)
    (hnull' : a'.get S.col = none) (hsome : b.get S.col ≠ none) (hlt : a.id < a'.id) (hle : a'.id ≤ b.id) :
    ∃ as m, S.Runs delay Sized (fun _ => True) ⟨S.init rows, none⟩ as m ∧ a' ∈ m.world.rows ∧
      ∃ checkpoint, m.Asks (.saveState S.id .backfilling .verifying checkpoint false) := by
  have hone : Sized ⟨.getBatchSize, (1 : ℤ)⟩ := le_refl (1 : ℤ)
  have hpos : ∀ r ∈ rows, 0 < r.id := fun r hr => by
    have := hids r hr
    omega
  have hvalued : Valued S rows := fun _ _ _ r hr _ => hexpr r hr
  obtain ⟨_, hfirst⟩ := reaches_first (S := S) delay (fun _ => True) freeBut_sized rows trivial
  have hstay : a' ∈ (S.batched (S.init rows) 0 1).rows :=
    mem_updateRows_of_notMem ha' (notMem_selected_one ha ha' hnull hnull' (hpos a ha) hlt)
  -- the cursor moves past `a'`
  obtain ⟨b', hb', hsome', hid⟩ : ∃ b' ∈ (S.batched (S.init rows) 0 1).rows,
      b'.get S.col ≠ none ∧ b'.id = b.id := by
    refine ⟨_, mem_updateRows.mpr ⟨b, hb, rfl⟩, ?_, id_update⟩
    split_ifs
    · rw [Row.get_set_self]
      exact hexpr b hb
    · exact hsome
  have hbpos : 0 < b'.id := hid ▸ hpos b hb
  have hmax := lt_maxId hb' hsome' hbpos
  have hpast := (maxId_spec hmax le_rfl).2 b' hb' hsome'
  have hn : S.affected (S.init rows) 0 1 ≠ 0 := fun hzero =>
    not_null_of_selected_eq_nil one_pos (countP_selected_eq_zero.mp hzero) ha (hpos a ha) hnull
  have hplan : (S.record (S.init rows)).plan = S.plan := rfl
  obtain ⟨_, hturn⟩ := reaches_turn delay (fun _ => True) freeBut_sized hone (by omega) hplan ⟨0, 0, 0⟩ hn
    rfl hmax
  set t := S.batched (S.init rows) 0 1
  set pr : Progress := ⟨maxId t.rows S.col 0, 0 + S.affected (S.init rows) 0 1, 0 + 1⟩
  obtain ⟨_, m, hrun, hmem, hop⟩ := reaches_incomplete (s := t.saved pr) delay hplan hvalued.batched pr
    hstay ((hle.trans_eq hid.symm).trans hpast)
  exact ⟨_, m, (hfirst.append hturn).append hrun, hmem, hop⟩

theorem tidy_of_complete (hids : InRange rows) (hexpr : ∀ r ∈ rows, S.eval S.expr r ≠ none)
    (h : Complete S rows) : Tidy S rows := by
  intro a ha a' ha' hnull hnull' hlt b hb hsome
  by_contra hge
  obtain ⟨as, m, hrun, hmem, checkpoint, hop⟩ :=
    reaches_past 0 hids hexpr ha ha' hb hnull hnull' hsome hlt (not_lt.mp hge)
  exact nullCount_eq_zero.mp (h 0 as m _ _ _ _ _ hrun hop) a' hmem hnull'

/-- **When a backfill is complete**: when every row that is filled already lies below all NULLs but the
first. -/
theorem complete_iff (hids : ∀ r ∈ rows, 1 ≤ r.id ∧ r.id ≤ 2 ^ 53)
    (hexpr : ∀ r ∈ rows, S.eval S.expr r ≠ none) : Complete S rows ↔ Tidy S rows :=
  ⟨tidy_of_complete hids hexpr, complete_of_tidy hids hexpr⟩

end

theorem complete_two : Complete constant [row 1 none, row 2 (some 3)] := by
  refine (complete_iff (by decide +kernel) (by decide)).mpr ?_
  unfold Tidy
  decide +kernel

/-- Row 3 takes the cursor past row 2. -/
theorem not_complete : ¬Complete constant [row 1 none, row 2 none, row 3 (some 3)] := by
  intro h
  have hids : InRange [row 1 none, row 2 none, row 3 (some 3)] := by
    unfold InRange
    decide +kernel
  exact absurd (tidy_of_complete hids (by decide) h) (by unfold Tidy; decide +kernel)

end MigrationSafety.StateMachine.Completeness
