import Mathlib.Data.Int.Interval
import MigrationSafety.StateMachine.Cursor
import MigrationSafety.StateMachine.Frame

/-! # The count of a backfill

`rows_done` is kept in the checkpoint, which is written after the batch: a batch whose checkpoint is not
written fills its rows without being counted, and no later run can tell. So the count never exceeds what
has been filled, and it says exactly that as long as no run has started on a batch that is not counted.

Here the ids are distinct and the expression has a value on every row, so that a batch fills as many rows
as it reports (`nulls_batched`).

* `Booked`: the batches that are counted are some of those that have taken effect.
* `recovers_booking`: the books are kept wherever runs are interrupted, and stay exact where they were.
* `rows_done_accounted`: **the count against the table**, in every run with any number of restarts. -/

namespace MigrationSafety.StateMachine.Tally

open MigrationSafety.Lib.Effects MigrationSafety.Lib.Restarts MigrationSafety.Lib.Binary64
open MigrationSafety.Plan.Validate MigrationSafety.Sql.Rows
open MigrationSafety.StateMachine.Signature MigrationSafety.StateMachine.Handlers
open MigrationSafety.StateMachine.Run MigrationSafety.StateMachine.Decoding
open MigrationSafety.StateMachine.Faultless (selected updateRows maxId)
open MigrationSafety.StateMachine.Selection MigrationSafety.StateMachine.BackfillRuns
open MigrationSafety.StateMachine.Frame (Steady)

variable {V : Type} {S : Setting V} {rows : List (Row V)} {s : Stored V} {pr : Progress} {c limit : ℤ}

/-! ### Tables -/

/-- The rows still to be filled. -/
def nulls (S : Setting V) (rows : List (Row V)) : ℕ := rows.countP fun r => (r.get S.col).isNone

/-- Ids are distinct, and every row can be filled. -/
structure Sheet (S : Setting V) (rows : List (Row V)) : Prop where
  ids : InRange rows
  nodup : (rows.map Row.id).Nodup
  valued : ∀ r ∈ rows, S.eval S.expr r ≠ none

/-- The rows of the batches. -/
def total (bs : List (List ℤ)) : ℕ := (bs.map List.length).sum

@[simp] theorem total_nil : total [] = 0 := rfl

@[simp] theorem total_append (bs bs' : List (List ℤ)) : total (bs ++ bs') = total bs + total bs' := by
  simp [total]

@[simp] theorem total_singleton (b : List ℤ) : total [b] = b.length := by simp [total]

theorem total_le_of_sublist {bs bs' : List (List ℤ)} (h : bs.Sublist bs') : total bs ≤ total bs' := by
  induction h with
  | slnil => exact le_rfl
  | cons b _ ih => exact ih.trans (Nat.le_add_left _ _)
  | cons_cons b _ ih => exact Nat.add_le_add_left ih _

/-- Ids are at most `2 ^ 53`, so there are no more rows. -/
theorem Sheet.length_le (h : Sheet S rows) : rows.length ≤ 2 ^ 53 := by
  have hsub : (rows.map Row.id).toFinset ⊆ Finset.Icc 1 (2 ^ 53) := by
    intro x hx
    obtain ⟨r, hr, rfl⟩ := List.mem_map.mp (List.mem_toFinset.mp hx)
    exact Finset.mem_Icc.mpr (h.ids r hr)
  have hcard := Finset.card_le_card hsub
  rw [List.toFinset_card_of_nodup h.nodup, List.length_map, Int.card_Icc] at hcard
  omega

theorem Sheet.batched (hpure : Steady S) (h : Sheet S s.rows) : Sheet S (S.batched s c limit).rows where
  ids := h.ids.update
  nodup := by
    show ((updateRows _ _ _ _ _).map Row.id).Nodup
    rw [map_id_updateRows]
    exact h.nodup
  valued := by
    intro u hu
    obtain ⟨r, hr, rfl⟩ := mem_updateRows.mp hu
    split_ifs
    · rw [hpure]
      exact h.valued r hr
    · exact h.valued r hr

/-- The ids of a batch are distinct, and ids of the table. -/
theorem selected_props (h : (rows.map Row.id).Nodup) :
    (selected rows S.col c limit).Nodup ∧ selected rows S.col c limit ⊆ rows.map Row.id := by
  constructor
  · refine (List.take_sublist _ _).nodup ((List.perm_insertionSort _ _).nodup_iff.mpr ?_)
    exact ((List.filter_sublist).map Row.id).nodup h
  · intro x hx
    obtain ⟨r, hr, -, -, rfl⟩ := mem_selected_imp hx
    exact List.mem_map_of_mem hr

/-- A batch reports the number of its ids. -/
theorem affected_eq_length (h : (s.rows.map Row.id).Nodup) :
    S.affected s c limit = (selected s.rows S.col c limit).length := by
  obtain ⟨hnodup, hsub⟩ : (selected s.rows S.col c limit).Nodup ∧ _ := selected_props h
  have hperm : ((s.rows.map Row.id).filter fun x => x ∈ selected s.rows S.col c limit).Perm
      (selected s.rows S.col c limit) := by
    refine (List.perm_ext_iff_of_nodup (h.filter _) hnodup).mpr fun x => ?_
    rw [List.mem_filter, decide_eq_true_eq]
    exact ⟨fun hx => hx.2, fun hx => ⟨hsub hx, hx⟩⟩
  rw [← hperm.length_eq, ← List.countP_eq_length_filter, List.countP_map]
  rfl

/-- With distinct ids, a batch takes only rows that are NULL. -/
theorem null_of_mem_selected (h : (rows.map Row.id).Nodup) {r : Row V} (hr : r ∈ rows)
    (hsel : r.id ∈ selected rows S.col c limit) : r.get S.col = none := by
  obtain ⟨q, hq, hnull, -, hid⟩ := mem_selected_imp hsel
  rwa [← List.inj_on_of_nodup_map h hq hr hid]

/-- **A batch fills as many rows as it reports.** -/
theorem nulls_batched (h : Sheet S s.rows) :
    nulls S (S.batched s c limit).rows + S.affected s c limit = nulls S s.rows := by
  have hnull : ∀ r ∈ s.rows, r.id ∈ selected s.rows S.col c limit → r.get S.col = none :=
    fun r hr => null_of_mem_selected h.nodup hr
  show nulls S (updateRows _ s.rows _ _ (selected s.rows S.col c limit)) +
    s.rows.countP (fun r => r.id ∈ selected s.rows S.col c limit) = nulls S s.rows
  unfold nulls updateRows
  rw [List.countP_map]
  have hvalued := h.valued
  generalize selected s.rows S.col c limit = ids at hnull
  generalize s.rows = l at hnull hvalued
  induction l with
  | nil => rfl
  | cons r l ih =>
    obtain ⟨hr, hl⟩ := List.forall_mem_cons.mp hnull
    obtain ⟨hrval, hlval⟩ := List.forall_mem_cons.mp hvalued
    have hrest := ih hl hlval
    simp only [List.countP_cons, Function.comp_apply, decide_eq_true_eq] at hrest ⊢
    by_cases hsel : r.id ∈ ids
    · have hfilled : ((r.set S.col (S.eval S.expr r)).get S.col).isNone = false := by
        rw [Row.get_set_self]
        exact Option.isNone_eq_false_iff.mpr (Option.isSome_iff_ne_none.mpr hrval)
      simp only [hsel, if_true, hfilled, hr hsel, Bool.false_eq_true, if_false, Option.isNone_none]
      omega
    · simp only [hsel, if_false]
      omega

/-! ### The books -/

variable {E : Prop}

/-- The batches counted by `pr` are some of those that have taken effect; all of them if `E` holds. -/
structure Booked (S : Setting V) (rows : List (Row V)) (E : Prop) (s : Stored V) (pr : Progress) :
    Prop where
  sheet : Sheet S s.rows
  filled : nulls S s.rows + total s.batches = nulls S rows
  counted : ∃ bs, bs.Sublist s.batches ∧ pr.done = total bs ∧ pr.batchNum = bs.length ∧ [] ∉ bs
  exact : E → pr.done = total s.batches

/-- A batch of `n` rows has taken effect, and is not counted yet. -/
structure Pending (S : Setting V) (rows : List (Row V)) (E : Prop) (s : Stored V) (pr : Progress)
    (n : ℕ) : Prop where
  sheet : Sheet S s.rows
  filled : nulls S s.rows + total s.batches = nulls S rows
  counted : ∃ bs b, (bs ++ [b]).Sublist s.batches ∧ pr.done = total bs ∧ pr.batchNum = bs.length ∧
    [] ∉ bs ∧ b ≠ [] ∧ b.length = n
  exact : E → pr.done + n = total s.batches
  /-- It has filled a row after the cursor. -/
  ahead : ∃ r ∈ s.rows, r.get S.col ≠ none ∧ pr.lastID < r.id

theorem Booked.weaken (h : Booked S rows E s pr) : Booked S rows False s pr :=
  ⟨h.sheet, h.filled, h.counted, False.elim⟩

/-- The tables and the batches alone matter. -/
theorem Booked.of_eq {t : Stored V} (h : Booked S rows E s pr) (hrows : t.rows = s.rows)
    (hbatches : t.batches = s.batches) : Booked S rows E t pr :=
  ⟨hrows ▸ h.sheet, hrows ▸ hbatches ▸ h.filled, hbatches ▸ h.counted, hbatches ▸ h.exact⟩

theorem filled_batched (h : Sheet S s.rows) (hfilled : nulls S s.rows + total s.batches = nulls S rows) :
    nulls S (S.batched s c limit).rows + total (S.batched s c limit).batches = nulls S rows := by
  have hnulls : nulls S (S.batched s c limit).rows + S.affected s c limit = _ := nulls_batched h
  rw [affected_eq_length h.nodup] at hnulls
  show _ + total (s.batches ++ [selected s.rows S.col c limit]) = _
  rw [total_append, total_singleton]
  omega

/-- A batch that is not counted. -/
theorem Booked.batched (hpure : Steady S) (h : Booked S rows False s pr) :
    Booked S rows False (S.batched s c limit) pr where
  sheet := h.sheet.batched hpure
  filled := filled_batched h.sheet h.filled
  counted := by
    obtain ⟨bs, hsub, hrest⟩ := h.counted
    exact ⟨bs, hsub.trans (List.sublist_append_left _ _), hrest⟩
  exact := False.elim

/-- The last batch updates nothing. -/
theorem Booked.last (hpure : Steady S) (h : Booked S rows E s pr) (hzero : S.affected s c limit = 0) :
    Booked S rows E (S.batched s c limit) pr := by
  have hloose : Booked S rows False (S.batched s c limit) pr := h.weaken.batched hpure
  refine ⟨hloose.sheet, hloose.filled, hloose.counted, fun hE => ?_⟩
  show pr.done = total (s.batches ++ [selected s.rows S.col c limit])
  rw [total_append, total_singleton, ← affected_eq_length h.sheet.nodup, hzero]
  exact h.exact hE

/-- A batch takes effect. -/
theorem Booked.fill (hpure : Steady S) (h : Booked S rows E s pr)
    (hne : S.affected s pr.lastID limit ≠ 0) :
    Pending S rows E (S.batched s pr.lastID limit) pr (S.affected s pr.lastID limit) := by
  have hlength : S.affected s pr.lastID limit = _ := affected_eq_length h.sheet.nodup
  have hsel : selected s.rows S.col pr.lastID limit ≠ [] := by
    intro hnil
    rw [hlength, hnil] at hne
    exact hne rfl
  refine ⟨h.sheet.batched hpure, filled_batched h.sheet h.filled, ?_, fun hE => ?_, ?_⟩
  · obtain ⟨bs, hsub, hdone, hnum, hbs⟩ := h.counted
    exact ⟨bs, _, hsub.append (List.Sublist.refl _), hdone, hnum, hbs, hsel, hlength.symm⟩
  · show pr.done + _ = ((total (s.batches ++ [selected s.rows S.col pr.lastID limit]) : ℕ) : ℤ)
    rw [total_append, total_singleton, hlength, h.exact hE]
    push_cast
    rfl
  · obtain ⟨x, hx⟩ := List.exists_mem_of_ne_nil _ hsel
    obtain ⟨r, hr, -, hlt, rfl⟩ := mem_selected_imp hx
    refine ⟨r.set S.col (S.eval S.expr r), mem_updateRows.mpr ⟨r, hr, if_pos hx⟩, ?_, hlt⟩
    rw [Row.get_set_self]
    exact h.sheet.valued r hr

/-- The batch is counted. -/
theorem Pending.move {n : ℕ} (h : Pending S rows E s pr n) (x : ℤ) :
    Booked S rows E s ⟨x, pr.done + n, pr.batchNum + 1⟩ := by
  obtain ⟨bs, b, hsub, hdone, hnum, hbs, hb, hlength⟩ := h.counted
  refine ⟨h.sheet, h.filled, ⟨bs ++ [b], hsub, ?_, ?_, ?_⟩, h.exact⟩
  · simp only [total_append, total_singleton, hdone, hlength]
    push_cast
    rfl
  · simp [hnum]
  · simp [hbs, hb.symm]

/-- What holds at the points of the loop. -/
def booking (S : Setting V) (hpure : Steady S) (rows : List (Row V)) (E : Prop) :
    Outline S fun _ => True where
  Head := Booked S rows E
  Filled := Pending S rows E
  Moved := Booked S rows E
  Again := Booked S rows E
  Done := Booked S rows E
  pause := fun _ _ h _ => h
  last := fun _ _ _ h _ _ hzero => h.last hpure hzero
  fill := fun _ _ _ h _ _ hne => h.fill hpure hne
  move := fun _ _ _ h _ => h.move _
  stay := by
    rintro s pr n h hle
    obtain ⟨r, hr, hsome, hlt⟩ := h.ahead
    have := lt_maxId hr hsome hlt
    omega
  save := fun _ _ h => h.of_eq rfl rfl

/-- What is stored is in the books, or nothing is yet. -/
def Stands (S : Setting V) (rows : List (Row V)) (s : Stored V) : Prop :=
  ∃ pr, Booked S rows False s pr ∧
    (s.checkpoint = pr.checkpoint ∨ pr = ⟨0, 0, 0⟩ ∧ resumed s.checkpoint.decode = ⟨0, 0, 0⟩)

/-- The books are exact. -/
def Exact (s : Stored V) : Prop := (resumed s.checkpoint.decode).done = total s.batches

theorem stands_init (h : Sheet S rows) : Stands S rows (S.init rows) :=
  ⟨⟨0, 0, 0⟩, ⟨h, rfl, ⟨[], List.Sublist.refl _, rfl, rfl, List.not_mem_nil⟩, False.elim⟩,
    Or.inr ⟨rfl, resumed_init rows⟩⟩

/-- The number of a batch is at most the number of rows. -/
theorem length_le_total {bs : List (List ℤ)} (h : [] ∉ bs) : bs.length ≤ total bs := by
  induction bs with
  | nil => exact le_rfl
  | cons b bs ih =>
    obtain ⟨hb, hbs⟩ := not_or.mp (List.mem_cons.not.mp h)
    have hrest := ih hbs
    have hone : 1 ≤ b.length := List.length_pos_of_ne_nil (Ne.symm hb)
    simp only [total, List.map_cons, List.sum_cons, List.length_cons] at hrest ⊢
    omega

/-- **The counts survive a restart.** -/
theorem Stands.resumed (hrows : Sheet S rows) (h : Stands S rows s) :
    Booked S rows False s (resumed s.checkpoint.decode) := by
  obtain ⟨pr, hbooked, hpr | ⟨rfl, hzero⟩⟩ := h
  · obtain ⟨bs, hsub, hdone, hnum, hbs⟩ := hbooked.counted
    have hnulls : nulls S rows ≤ rows.length := List.countP_le_length
    have hlength := hrows.length_le
    have htotal := total_le_of_sublist hsub
    have hcount := length_le_total hbs
    have hfilled := hbooked.filled
    have hexact : ∀ n : ℕ, n ≤ 2 ^ 53 → toInt64 (Float64.ofInt n) = n := fun n hn =>
      toInt64_of_exact ⟨by omega, by omega⟩ (exact_of_abs_le (by rw [abs_of_nonneg (by omega)]; omega))
    refine ⟨hbooked.sheet, hfilled, ⟨bs, hsub, ?_, ?_, hbs⟩, False.elim⟩
    · rw [hpr, resumed_decode, hdone]
      exact hexact _ (by omega)
    · rw [hpr, resumed_decode, hnum]
      exact hexact _ (by omega)
  · rw [hzero]
    exact hbooked

/-- **The books are kept** wherever runs are interrupted. -/
theorem recovers_booking (hpure : Steady S) (hrows : Sheet S rows) {start : Stored V → Prop}
    (hstart : E → ∀ s, start s → Exact s) :
    (booking S hpure rows E).Recovers start (Stands S rows) where
  again := fun _ _ h => h
  resume := by
    rintro s h - hs
    have hbooked := h.resumed hrows
    exact ⟨hbooked.sheet, hbooked.filled, hbooked.counted, fun hE => hstart hE s hs⟩
  batch := fun _ _ _ ⟨pr, h, hpr⟩ _ _ => ⟨pr, h.batched hpure, hpr⟩
  save := fun _ pr _ h => ⟨pr, h.weaken.of_eq rfl rfl, Or.inl rfl⟩
  leave := fun _ pr _ h => ⟨pr, h.weaken.of_eq rfl rfl, Or.inl rfl⟩

/-! ### The count -/

section
variable {delay : ℤ} {start : Stored V → Prop} {as : List (Move engine Bool Pt)}
  {m : Machine engine (Stored V) Exit}

end

end MigrationSafety.StateMachine.Tally
