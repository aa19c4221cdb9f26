import Mathlib.Data.Finset.Card
import MigrationSafety.StateMachine.BackfillRuns
import MigrationSafety.StateMachine.Selection

/-! # The cursor of a backfill

The cursor only moves to the id of a row above it, so it passes at least one id in each turn of the
loop: `above` is the measure (`terminates_batch`). What the loop has written is ordered
(`Logged`): the cursors strictly, the batch numbers and row counts weakly; a restart reads the cursor
and the batch number back as they are, since both are at most `2 ^ 53`, but the row count goes through
a `float64` and may come back lower. -/

namespace MigrationSafety.StateMachine.Cursor

open MigrationSafety.Lib.Effects MigrationSafety.Lib.Worlds MigrationSafety.Lib.Restarts
open MigrationSafety.Lib.Binary64 MigrationSafety.Plan.Validate MigrationSafety.Sql.Rows
open MigrationSafety.StateMachine.Signature MigrationSafety.StateMachine.Handlers
open MigrationSafety.StateMachine.Run MigrationSafety.StateMachine.Trace
open MigrationSafety.StateMachine.Decoding
open MigrationSafety.StateMachine.Faultless (selected updateRows maxId)
open MigrationSafety.StateMachine.Selection MigrationSafety.StateMachine.BackfillRuns

variable {V : Type}

/-! ### The number of turns -/

/-- The number of distinct ids above the cursor. -/
def above (rows : List (Row V)) (c : ℤ) : ℕ := ((rows.map Row.id).toFinset.filter (c < ·)).card

/-- Batches of at least one row, and a breaker that is not tripped. -/
def Unhindered (ev : Event engine) : Prop := Sized ev ∧ ev ≠ ⟨.isCircuitTripped, true⟩

section
variable {S : Setting V} {rows rows' : List (Row V)} {s : Stored V} {pr : Progress} {c c' : ℤ}

/-- A cursor that moves to an id leaves fewer above it. -/
theorem above_lt (hids : rows'.map Row.id = rows.map Row.id) (hlt : c < c') (hmem : c' ∈ rows.map Row.id) :
    above rows' c' < above rows c := by
  unfold above
  rw [hids]
  refine Finset.card_lt_card (Finset.ssubset_iff_subset_ne.mpr ⟨fun x hx => ?_, fun heq => ?_⟩)
  · rw [Finset.mem_filter] at hx ⊢
    exact ⟨hx.1, hlt.trans hx.2⟩
  · have hin : c' ∈ (rows.map Row.id).toFinset.filter (c < ·) :=
      Finset.mem_filter.mpr ⟨List.mem_toFinset.mpr hmem, hlt⟩
    rw [← heq] at hin
    exact lt_irrefl _ (Finset.mem_filter.mp hin).2

/-- The new cursor is the id of a row. -/
theorem maxId_mem (h : c < maxId rows S.col c) (hc : 0 ≤ c) : maxId rows S.col c ∈ rows.map Row.id := by
  obtain ⟨⟨r, hr, -, hid⟩, -⟩ := maxId_spec h hc
  exact List.mem_map.mpr ⟨r, hr, hid⟩

/-- One turn from the table `rows` and the cursor `c`. -/
def turning (S : Setting V) (rows : List (Row V)) {c : ℤ} (hc : 0 ≤ c) : Outline S Unhindered where
  Head := fun s pr => s.rows.map Row.id = rows.map Row.id ∧ pr.lastID = c
  Filled := fun s pr _ => s.rows.map Row.id = rows.map Row.id ∧ pr.lastID = c
  Moved := fun s pr => s.rows.map Row.id = rows.map Row.id ∧ c < pr.lastID ∧ pr.lastID ∈ rows.map Row.id
  Again := fun s pr => s.rows.map Row.id = rows.map Row.id ∧ c < pr.lastID ∧ pr.lastID ∈ rows.map Row.id
  Done := fun _ _ => True
  pause := fun _ _ _ hok => absurd rfl hok.2
  last := fun _ _ _ _ _ _ _ => trivial
  fill := fun _ _ _ h _ _ _ => ⟨map_id_updateRows.trans h.1, h.2⟩
  move := by
    rintro s pr n ⟨hids, rfl⟩ hlt
    exact ⟨hids, hlt, hids ▸ maxId_mem hlt hc⟩
  stay := fun _ _ _ _ _ => trivial
  save := fun _ _ h => h

/-- One turn passes an id, or is the last. -/
theorem wp_turn (delay : ℤ) {r : Record} (hr : r.plan = S.plan) (hc : 0 ≤ pr.lastID) :
    Prog.Wp (S.Moves Unhindered) (fun _ _ => True) (fun x t => ∀ pt, follow x = some pt →
        ∃ pr', pt = .batch r pr' ∧ 0 ≤ pr'.lastID ∧ above t.rows pr'.lastID < above s.rows pr.lastID)
      (body delay S.id (.batch r pr)) s := by
  refine ((turning S s.rows hc).keeps_batch delay hr ⟨rfl, rfl⟩).free.mono fun x t hx pt hpt => ?_
  obtain ⟨pr', rfl, hids, hlt, hmem⟩ := hx pt hpt
  exact ⟨pr', rfl, hc.trans hlt.le, above_lt hids hlt hmem⟩

/-- **The loop ends**: one turn for each id above the cursor, and one more. -/
theorem terminates_batch (delay : ℤ) {r : Record} (hr : r.plan = S.plan) {n : ℕ} (hc : 0 ≤ pr.lastID)
    (hn : above s.rows pr.lastID ≤ n) :
    Terminates (S.Moves Unhindered) (fun _ _ => True) (body delay S.id) follow (n + 1) (.batch r pr) s := by
  induction n generalizing s pr with
  | zero =>
    refine terminates_of_wp (wp_turn delay hr hc) fun x t hx => ?_
    cases hnext : follow x with
    | none => exact Or.inl ⟨rfl, trivial⟩
    | some pt =>
      obtain ⟨pr', -, -, hlt⟩ := hx pt hnext
      omega
  | succ n ih =>
    refine terminates_of_wp (wp_turn delay hr hc) fun x t hx => ?_
    cases hnext : follow x with
    | none => exact Or.inl ⟨rfl, trivial⟩
    | some pt =>
      obtain ⟨pr', rfl, hc', hlt⟩ := hx pt hnext
      exact Or.inr ⟨_, rfl, ih hc' (by omega)⟩

/-- The same from where a run comes in. -/
theorem terminates_loop (delay : ℤ) (s : Stored V) (hc : 0 ≤ (resumed s.checkpoint.decode).lastID) :
    Terminates (S.Moves Unhindered) (fun _ _ => True) (body delay S.id) follow
      (above s.rows (resumed s.checkpoint.decode).lastID + 2) (.loop .backfilling) s := by
  refine terminates_of_wp ((turning S s.rows hc).keeps_loop delay s).free ?_
  rintro x _ ⟨rfl, hx⟩
  cases hnext : follow x with
  | none => exact Or.inl ⟨rfl, trivial⟩
  | some pt =>
    obtain rfl := hx pt hnext
    exact Or.inr ⟨_, rfl, terminates_batch delay rfl hc le_rfl⟩

end

/-! ### What the loop writes -/

/-- The order of two checkpoints; that of the row counts if `D` holds. -/
structure Before (D : Prop) (p q : Progress) : Prop where
  lastID : p.lastID < q.lastID
  batchNum : p.batchNum ≤ q.batchNum
  done : D → p.done ≤ q.done

structure NotAfter (D : Prop) (p q : Progress) : Prop where
  lastID : p.lastID ≤ q.lastID
  batchNum : p.batchNum ≤ q.batchNum
  done : D → p.done ≤ q.done

/-- The batch number and the cursor survive a restart. -/
def Fits (pr : Progress) : Prop := 0 ≤ pr.batchNum ∧ pr.batchNum ≤ pr.lastID ∧ pr.lastID ≤ 2 ^ 53

/-- The checkpoints written are in order, and `pr` is not before them. -/
structure Logged (D : Prop) (s : Stored V) (pr : Progress) : Prop where
  ids : InRange s.rows
  fits : Fits pr
  log : ∃ prs : List Progress, s.written = prs.map Progress.checkpoint ∧ prs.Pairwise (Before D) ∧
    ∀ p ∈ prs, NotAfter D p pr

/-- The row count that is stored does not get lower on its way through `float64`. -/
def Kept (s : Stored V) : Prop :=
  ∀ pr : Progress, s.checkpoint = pr.checkpoint → pr.done ≤ (resumed s.checkpoint.decode).done

section
variable {S : Setting V} {D : Prop} {s : Stored V} {p q pr : Progress} {c limit : ℤ}

theorem NotAfter.before (h : NotAfter D p q) (h' : Before D q pr) : Before D p pr :=
  ⟨h.lastID.trans_lt h'.lastID, h.batchNum.trans h'.batchNum, fun hD => (h.done hD).trans (h'.done hD)⟩

theorem Logged.batched (h : Logged D s pr) : Logged D (S.batched s c limit) pr :=
  ⟨h.ids.update, h.fits, h.log⟩

/-- The cursor moves. -/
theorem Logged.move (h : Logged D s pr) {n : ℕ} (hlt : pr.lastID < maxId s.rows S.col pr.lastID) :
    Before D pr ⟨maxId s.rows S.col pr.lastID, pr.done + n, pr.batchNum + 1⟩ ∧
      Fits ⟨maxId s.rows S.col pr.lastID, pr.done + n, pr.batchNum + 1⟩ := by
  obtain ⟨hnum, hle, -⟩ := h.fits
  obtain ⟨⟨r, hr, -, hid⟩, -⟩ := maxId_spec hlt (hnum.trans hle)
  have hrange := h.ids r hr
  refine ⟨⟨hlt, by dsimp only; omega, fun _ => by dsimp only; omega⟩, ?_⟩
  refine ⟨by dsimp only; omega, by dsimp only; omega, ?_⟩
  rw [← hid]
  exact hrange.2

/-- The checkpoint is written. -/
theorem Logged.save (h : Logged D s q) (hbefore : Before D q pr) (hfits : Fits pr) :
    Logged D (s.saved pr) pr := by
  obtain ⟨prs, hprs, hpairs, hlast⟩ := h.log
  refine ⟨h.ids, hfits, prs ++ [pr], ?_, ?_, ?_⟩
  · change s.written ++ [pr.checkpoint] = _
    rw [hprs, List.map_append]
    rfl
  · exact List.pairwise_append.mpr ⟨hpairs, List.pairwise_singleton _ _, fun p hp u hu => by
      rw [List.mem_singleton.mp hu]
      exact (hlast p hp).before hbefore⟩
  · intro p hp
    rcases List.mem_append.mp hp with hp | hp
    · have := (hlast p hp).before hbefore
      exact ⟨this.lastID.le, this.batchNum, this.done⟩
    · rw [List.mem_singleton.mp hp]
      exact ⟨le_rfl, le_rfl, fun _ => le_rfl⟩

/-- The cursor and the batch number come back as they were. -/
theorem resumed_of_fits (h : Fits pr) : resumed pr.checkpoint.decode =
    ⟨pr.lastID, toInt64 (Float64.ofInt pr.done), pr.batchNum⟩ := by
  have hexact : ∀ x : ℤ, 0 ≤ x → x ≤ 2 ^ 53 → toInt64 (Float64.ofInt x) = x := fun x hx hle =>
    toInt64_of_exact ⟨by omega, by omega⟩ (exact_of_abs_le (by rwa [abs_of_nonneg hx]))
  obtain ⟨hnum, hle, hbound⟩ := h
  rw [resumed_decode, hexact _ (hnum.trans hle) hbound, hexact _ hnum (hle.trans hbound)]

/-- What is stored has been read back. -/
theorem Logged.resume (h : Logged D s pr) (hcheckpoint : s.checkpoint = pr.checkpoint)
    (hkept : D → Kept s) : Logged D s (resumed s.checkpoint.decode) := by
  have hdone : D → pr.done ≤ toInt64 (Float64.ofInt pr.done) := fun hD => by
    have := hkept hD pr hcheckpoint
    rwa [hcheckpoint, resumed_of_fits h.fits] at this
  rw [hcheckpoint, resumed_of_fits h.fits]
  obtain ⟨prs, hprs, hpairs, hlast⟩ := h.log
  exact ⟨h.ids, h.fits, prs, hprs, hpairs, fun p hp => ⟨(hlast p hp).lastID, (hlast p hp).batchNum,
    fun hD => ((hlast p hp).done hD).trans (hdone hD)⟩⟩

/-- What holds at the points of the loop. -/
def logging (S : Setting V) (D : Prop) : Outline S Sized where
  Head := Logged D
  Filled := fun s pr _ => Logged D s pr
  Moved := fun s pr => Fits pr ∧ ∃ q, Logged D s q ∧ Before D q pr
  Again := Logged D
  Done := Logged D
  pause := fun _ _ h _ => h
  last := fun _ _ _ h _ _ _ => h.batched
  fill := fun _ _ _ h _ _ _ => h.batched
  move := fun _ pr _ h hlt => ⟨(h.move hlt).2, pr, h, (h.move hlt).1⟩
  stay := fun _ _ _ h _ => h
  save := fun _ _ ⟨hfits, _, h, hbefore⟩ => h.save hbefore hfits

/-- What is stored is where the loop has been, or nothing yet. -/
def Stands (D : Prop) (s : Stored V) : Prop :=
  ∃ pr, Logged D s pr ∧
    (s.checkpoint = pr.checkpoint ∨ pr = ⟨0, 0, 0⟩ ∧ resumed s.checkpoint.decode = ⟨0, 0, 0⟩)

theorem stands_init {rows : List (Row V)} (hids : InRange rows) : Stands D (S.init rows) :=
  ⟨⟨0, 0, 0⟩, ⟨hids, ⟨le_rfl, le_rfl, by norm_num⟩, [], rfl, List.Pairwise.nil, by simp⟩,
    Or.inr ⟨rfl, resumed_init rows⟩⟩

theorem recovers_logging {start : Stored V → Prop} (hstart : D → ∀ s, start s → Kept s) :
    (logging S D).Recovers start (Stands D) where
  again := fun _ _ h => h
  resume := by
    rintro s ⟨pr, h, hpr | ⟨rfl, hzero⟩⟩ - hs
    · exact h.resume hpr fun hD => hstart hD s hs
    · rwa [← hzero] at h
  batch := fun _ _ _ ⟨pr, h, hpr⟩ _ _ => ⟨pr, h.batched, hpr⟩
  save := fun _ pr _ ⟨hfits, _, h, hbefore⟩ => ⟨pr, h.save hbefore hfits, Or.inl rfl⟩
  leave := fun _ pr _ h => ⟨pr, ⟨h.ids, h.fits, h.log⟩, Or.inl rfl⟩

/-- A run starts from a cursor that is not negative. -/
theorem Stands.nonneg (h : Stands False s) : 0 ≤ (resumed s.checkpoint.decode).lastID := by
  obtain ⟨pr, hlog, hpr | ⟨-, hzero⟩⟩ := h
  · rw [hpr, resumed_of_fits hlog.fits]
    exact hlog.fits.1.trans hlog.fits.2.1
  · rw [hzero]

/-- **The cursor advances, and the loop ends**, in every run with batches of at least one row and any
number of crashes and restarts; the row counts do not decrease if they are `Kept` wherever a run
starts. -/
theorem advancing {rows : List (Row V)} (hids : ∀ r ∈ rows, 1 ≤ r.id ∧ r.id ≤ 2 ^ 53) {delay : ℤ}
    {start : Stored V → Prop} {as : List (Move engine Bool Pt)} {m : Machine engine (Stored V) Exit}
    (hrun : S.Runs delay Sized start ⟨S.init rows, none⟩ as m) :
    (∃ prs : List Progress, m.world.written = prs.map Progress.checkpoint ∧
      prs.Pairwise (fun p q => p.lastID < q.lastID ∧ p.batchNum ≤ q.batchNum) ∧
      ((∀ s, start s → Kept s) → prs.Pairwise fun p q => p.done ≤ q.done)) ∧
    Terminates (S.Moves Unhindered) (fun _ _ => True) (body delay S.id) follow
      (above m.world.rows (resumed m.world.checkpoint.decode).lastID + 2) (.loop .backfilling) m.world := by
  constructor
  · have h := ((recovers_logging (D := ∀ s, start s → Kept s) id).runs hrun (stands_init hids)).world
    obtain ⟨pr, ⟨-, -, prs, hprs, hpairs, -⟩, -⟩ := h
    exact ⟨prs, hprs, hpairs.imp fun hp => ⟨hp.lastID, hp.batchNum⟩, fun hD => hpairs.imp fun hp => hp.done hD⟩
  · have h := ((recovers_logging (D := False) False.elim).runs hrun (stands_init hids)).world
    exact terminates_loop delay m.world h.nonneg

end

/-! ### Many rows with one id -/

/-- So many rows `a`, and one row `b`. -/
def pile (n : ℕ) (a b : Row ℕ) : List (Row ℕ) := List.replicate n a ++ [b]

section
variable {n : ℕ} {a b r : Row ℕ}

theorem mem_pile : r ∈ pile n a b ↔ n ≠ 0 ∧ r = a ∨ r = b := by
  simp [pile, List.mem_replicate]

theorem updateRows_pile {eval : Eval ℕ} {col expr : String} {ids : List ℤ} :
    updateRows eval (pile n a b) col expr ids =
      pile n (if a.id ∈ ids then a.set col (eval expr a) else a)
        (if b.id ∈ ids then b.set col (eval expr b) else b) := by
  simp [updateRows, pile]

theorem countP_pile {p : Row ℕ → Bool} :
    (pile n a b).countP p = (if p a then n else 0) + if p b then 1 else 0 := by
  simp [pile, List.countP_replicate]

end

@[simp] theorem get_row (x : ℤ) (v : Option ℕ) (col : String) : (row x v).get col = v := rfl

@[simp] theorem id_row (x : ℤ) (v : Option ℕ) : (row x v).id = x := rfl

/-- A row that has been filled. -/
def seven (x : ℤ) : Row ℕ := (row x none).set constant.col (some 7)

@[simp] theorem set_row (x : ℤ) : (row x none).set constant.col (some 7) = seven x := rfl

@[simp] theorem id_seven (x : ℤ) : (seven x).id = x := rfl

@[simp] theorem get_seven (x : ℤ) : (seven x).get constant.col = some 7 := Row.get_set_self _ _ _

section
variable {n : ℕ} {s : Stored ℕ}

theorem affected_pile {a b : Row ℕ} {c limit : ℤ} (hs : s.rows = pile n a b) :
    constant.affected s c limit =
      (if a.id ∈ selected (pile n a b) constant.col c limit then n else 0) +
        if b.id ∈ selected (pile n a b) constant.col c limit then 1 else 0 := by
  unfold Setting.affected
  rw [hs, countP_pile]
  simp only [decide_eq_true_eq]

theorem batched_pile {a b : Row ℕ} {c limit : ℤ} (hs : s.rows = pile n a b) :
    (constant.batched s c limit).rows =
      pile n (if a.id ∈ selected (pile n a b) constant.col c limit then a.set constant.col (some 7) else a)
        (if b.id ∈ selected (pile n a b) constant.col c limit then b.set constant.col (some 7) else b) := by
  change updateRows _ s.rows _ _ (selected s.rows _ c limit) = _
  rw [hs, updateRows_pile]
  rfl

/-- The first batch fills the pile. -/
theorem batch_first (hn : n ≠ 0) (hs : s.rows = pile n (row 1 none) (row 2 none)) :
    constant.affected s 0 1 = n ∧ (constant.batched s 0 1).rows = pile n (seven 1) (row 2 none) := by
  have hsel : ∀ x, x ∈ selected (pile n (row 1 none) (row 2 none)) constant.col 0 1 ↔ x = 1 := fun x =>
    mem_selected_one (r := row 1 none) (mem_pile.mpr (Or.inl ⟨hn, rfl⟩)) rfl one_pos fun q hq _ _ => by
      rcases mem_pile.mp hq with ⟨-, rfl⟩ | rfl <;> decide
  rw [affected_pile hs, batched_pile hs]
  simp [hsel]

/-- The second batch fills the other row. -/
theorem batch_second (hs : s.rows = pile n (seven 1) (row 2 none)) :
    constant.affected s 1 1 = 1 ∧ (constant.batched s 1 1).rows = pile n (seven 1) (seven 2) := by
  have hsel : ∀ x, x ∈ selected (pile n (seven 1) (row 2 none)) constant.col 1 1 ↔ x = 2 := fun x =>
    mem_selected_one (r := row 2 none) (mem_pile.mpr (Or.inr rfl)) rfl one_lt_two fun q hq hnull _ => by
      rcases mem_pile.mp hq with ⟨-, rfl⟩ | rfl
      · rw [get_seven] at hnull
        cases hnull
      · exact le_rfl
  rw [affected_pile hs, batched_pile hs]
  simp [hsel]

theorem maxId_first (hn : n ≠ 0) : maxId (pile n (seven 1) (row 2 none)) constant.col 0 = 1 :=
  maxId_eq (r := seven 1) (mem_pile.mpr (Or.inl ⟨hn, rfl⟩)) (by simp) le_rfl one_pos fun q hq hsome => by
    rcases mem_pile.mp hq with ⟨-, rfl⟩ | rfl
    · exact le_rfl
    · exact absurd rfl hsome

theorem maxId_second : maxId (pile n (seven 1) (seven 2)) constant.col 1 = 2 :=
  maxId_eq (r := seven 2) (mem_pile.mpr (Or.inr rfl)) (by simp) zero_le_one one_lt_two fun q hq _ => by
    rcases mem_pile.mp hq with ⟨-, rfl⟩ | rfl <;> simp

/-- A batch, a restart, and another batch. -/
theorem reaches_two (hn : n ≠ 0) : ∃ as m, constant.Runs 0 Sized (fun _ => True)
    ⟨constant.init (pile n (row 1 none) (row 2 none)), none⟩ as m ∧
      m.world.written = [(⟨1, n, 1⟩ : Progress).checkpoint,
        (⟨2, toInt64 (Float64.ofInt n) + 1, 2⟩ : Progress).checkpoint] := by
  have hone : Sized ⟨.getBatchSize, (1 : ℤ)⟩ := le_refl (1 : ℤ)
  obtain ⟨_, hfirst⟩ := reaches_first (S := constant) 0 (fun _ => True) freeBut_sized
    (pile n (row 1 none) (row 2 none)) trivial
  set s := constant.init (pile n (row 1 none) (row 2 none))
  obtain ⟨hn1, hrows1⟩ := batch_first (s := s) hn rfl
  obtain ⟨_, hturn1⟩ := reaches_turn (S := constant) (r := constant.record s) (s := s) (x := 1) 0 (fun _ => True)
    freeBut_sized hone zero_le_one rfl ⟨0, 0, 0⟩ (by rw [hn1]; exact hn) (by rw [hrows1, maxId_first hn])
    one_pos
  simp only [hn1, zero_add] at hturn1
  set s1 := (constant.batched s 0 1).saved ⟨1, n, 1⟩
  obtain ⟨_, hloop⟩ := reaches_loop (S := constant) 0 (fun _ => True) freeBut_sized
    ⟨s1, some (body 0 constant.id (.batch (constant.record s) ⟨1, n, 1⟩))⟩ rfl trivial
  -- what was written comes back rounded
  have hresumed : resumed s1.checkpoint.decode = ⟨1, toInt64 (Float64.ofInt n), 1⟩ :=
    resumed_of_fits (show Fits ⟨1, n, 1⟩ from ⟨zero_le_one, le_rfl, by norm_num⟩)
  rw [hresumed] at hloop
  obtain ⟨hn2, hrows2⟩ := batch_second (s := s1) hrows1
  obtain ⟨_, hturn2⟩ := reaches_turn (S := constant) (r := constant.record s1) (s := s1) (x := 2) 0
    (fun _ => True) freeBut_sized hone zero_le_one rfl ⟨1, toInt64 (Float64.ofInt n), 1⟩
    (by rw [hn2]; decide) (by rw [hrows2, maxId_second]) one_lt_two
  simp only [hn2] at hturn2
  exact ⟨_, _, ((hfirst.append hturn1).append hloop).append hturn2, rfl⟩

theorem advancing_two : ∃ as m, constant.Runs 0 Sized (fun _ => True)
    ⟨constant.init (pile 1 (row 1 none) (row 2 none)), none⟩ as m ∧ m.world.written.length = 2 ∧
      ∃ prs : List Progress, m.world.written = prs.map Progress.checkpoint ∧
        prs.Pairwise fun p q => p.lastID < q.lastID ∧ p.batchNum ≤ q.batchNum := by
  obtain ⟨as, m, hrun, hwritten⟩ := reaches_two (n := 1) one_ne_zero
  obtain ⟨⟨prs, hprs, hpairs, -⟩, -⟩ := advancing (by decide) hrun
  exact ⟨as, m, hrun, by rw [hwritten]; rfl, prs, hprs, hpairs⟩

/-- **The row count decreases**: `2 ^ 54 + 2` comes back as `2 ^ 54`, and one row is added. -/
theorem done_decreases : InRange (pile (2 ^ 54 + 2) (row 1 none) (row 2 none)) ∧
    ∃ as m, constant.Runs 0 Sized (fun _ => True)
      ⟨constant.init (pile (2 ^ 54 + 2) (row 1 none) (row 2 none)), none⟩ as m ∧
        ∃ p q : Progress, m.world.written = [p.checkpoint, q.checkpoint] ∧ q.done < p.done := by
  constructor
  · intro r hr
    rcases mem_pile.mp hr with ⟨-, rfl⟩ | rfl <;> decide
  · obtain ⟨as, m, hrun, hwritten⟩ := reaches_two (n := 2 ^ 54 + 2) (by omega)
    refine ⟨as, m, hrun, _, _, hwritten, ?_⟩
    have hround : toInt64 (Float64.ofInt (2 ^ 54 + 2)) = 2 ^ 54 := by decide +kernel
    dsimp only
    rw [show ((2 ^ 54 + 2 : ℕ) : ℤ) = 2 ^ 54 + 2 by norm_num, hround]
    norm_num

end

end MigrationSafety.StateMachine.Cursor
