import MigrationSafety.Lib.Restarts
import MigrationSafety.StateMachine.Decoding
import MigrationSafety.StateMachine.Faultless
import MigrationSafety.StateMachine.Trace

/-! # A backfill alone with its table

One migration in `Backfilling`, whose table nobody else writes to. Everything can fail: a call may
report failure, with or without having taken effect, and the process may die between any two
operations and start again on what is stored (`Runs`). The composite form of a batch is left out.

`Outline` is a proof outline of the loop: an assertion for each of its points, with what has to be
shown between them. `keeps_turn` is the rule for one turn, `Recovers.runs` the one for runs with any
number of restarts; `reaches_loop`, `reaches_turn` and `reaches_end` make runs. -/

namespace MigrationSafety.StateMachine.BackfillRuns

open MigrationSafety.Lib.Effects MigrationSafety.Lib.Paths MigrationSafety.Lib.Worlds
open MigrationSafety.Lib.Restarts MigrationSafety.Plan.Validate MigrationSafety.Sql.Rows
open MigrationSafety.Safety.Throttle MigrationSafety.Safety.Executor
open MigrationSafety.StateMachine.Signature MigrationSafety.StateMachine.Handlers
open MigrationSafety.StateMachine.Run MigrationSafety.StateMachine.Trace
open MigrationSafety.StateMachine.Decoding
open MigrationSafety.StateMachine.Faultless (selected updateRows maxId)

variable {V : Type}

/-- A migration that backfills one column. -/
structure Setting (V : Type) where
  id : Id
  plan : MigrationPlan
  eval : Eval V
  column_ne : plan.backfill.column ≠ ""
  multiSQL_eq : plan.backfill.multiSQL = ""

/-- What outlives a crash, and what has happened to it. -/
structure Stored (V : Type) where
  state : State
  checkpoint : Checkpoint
  rows : List (Row V)
  /-- The ids each batch has updated. -/
  batches : List (List ℤ)
  /-- The checkpoints the loop has written. -/
  written : List Checkpoint

namespace Setting

variable (S : Setting V)

abbrev col : String := S.plan.backfill.column

abbrev expr : String := S.plan.backfill.sourceExpr

theorem batchStmt_eq : batchStmt S.plan = .single S.plan.table S.col S.expr := by
  unfold batchStmt
  rw [if_neg (not_not.mpr S.multiSQL_eq)]

/-- The migration as it comes from `Expanding`, with the rows of its table. -/
def init (rows : List (Row V)) : Stored V where
  state := .backfilling
  checkpoint := [("expanded", .int S.plan.expand.length)]
  rows := rows
  batches := []
  written := []

def record (s : Stored V) : Record where
  id := S.id
  plan := S.plan
  state := s.state
  checkpoint := s.checkpoint.decode
  terminal := isTerminal s.state

/-! ### Steps -/

/-- The answers an operation may get. -/
def answers (s : Stored V) : (op : Op) → op.Ret → Prop
  | .load _ => fun r => r = none ∨ r = some (S.record s)
  | .countRemaining _ col lastID => fun r => r = none ∨
      r = some (s.rows.countP fun row => (row.get col).isNone ∧ lastID < row.id)
  | .updateBatch (.single _ col _) lastID limit => fun r => r = none ∨ 0 ≤ limit ∧
      r = some (s.rows.countP fun row => row.id ∈ selected s.rows col lastID limit)
  | .updateBatch (.multi ..) _ _ => fun r => r = none
  | .maxId _ col lastID => fun r => r = none ∨ r = some (maxId s.rows col lastID)
  | _ => fun _ => True

/-- What an operation does when it takes effect. -/
def change (s : Stored V) : Op → Stored V
  | .updateBatch (.single _ col expr) lastID limit =>
    { s with
      rows := updateRows S.eval s.rows col expr (selected s.rows col lastID limit)
      batches := s.batches ++ [selected s.rows col lastID limit] }
  | .saveCheckpoint _ _ checkpoint =>
    { s with checkpoint := checkpoint, written := s.written ++ [checkpoint] }
  | .saveState _ _ dst checkpoint _ => { s with state := dst, checkpoint := checkpoint }
  | _ => s

/-- Has the operation succeeded? -/
def succeeds : Event engine → Bool
  | ⟨.updateBatch .., r⟩ => r.isSome
  | ⟨.saveCheckpoint .., r⟩ => r
  | ⟨.saveState .., r⟩ => r
  | _ => false

/-- The operation takes effect when it succeeds, or else when it has `landed`. -/
def after (s : Stored V) (ev : Event engine) (landed : Bool) : Stored V :=
  if succeeds ev || landed then S.change s ev.op else s

/-- A step, with an answer that `ok` allows. -/
def Moves (ok : Event engine → Prop) (s : Stored V) (x : Event engine × Bool) (t : Stored V) : Prop :=
  S.answers s x.1.op x.1.ans ∧ ok x.1 ∧ t = S.after s x.1 x.2

/-- Where a run comes in: it starts, or it comes from `Expanding`. -/
def Enters (start : Stored V → Prop) (s : Stored V) (pt : Pt) : Prop :=
  s.state = .backfilling ∧ start s ∧ (pt = .start ∨ pt = .loop .backfilling)

/-- **The runs of the migration in `Backfilling`**, with any number of restarts, each where `start`
holds. -/
abbrev Runs (delay : ℤ) (ok : Event engine → Prop) (start : Stored V → Prop) :
    Machine engine (Stored V) Exit → List (Move engine Bool Pt) → Machine engine (Stored V) Exit → Prop :=
  Path (Step (S.Moves ok) (Enters start) (body delay S.id) follow)

/-- What a batch leaves. -/
def batched (s : Stored V) (lastID limit : ℤ) : Stored V :=
  { s with
    rows := updateRows S.eval s.rows S.col S.expr (selected s.rows S.col lastID limit)
    batches := s.batches ++ [selected s.rows S.col lastID limit] }

/-- The number of rows a batch updates. -/
def affected (s : Stored V) (lastID limit : ℤ) : ℕ :=
  s.rows.countP fun row => row.id ∈ selected s.rows S.col lastID limit

end Setting

/-- What a checkpoint leaves. -/
def Stored.saved (s : Stored V) (pr : Progress) : Stored V :=
  { s with checkpoint := pr.checkpoint, written := s.written ++ [pr.checkpoint] }

/-- What the end of the backfill leaves. -/
def Stored.left (s : Stored V) (pr : Progress) : Stored V :=
  { s with state := .verifying, checkpoint := pr.checkpoint }

/-! ### The outline -/

/-- Assertions for the points of a turn of the loop, with what leads from one to the next. -/
structure Outline (S : Setting V) (ok : Event engine → Prop) where
  /-- At the head of the loop. -/
  Head : Stored V → Progress → Prop
  /-- After a batch of so many rows. -/
  Filled : Stored V → Progress → ℕ → Prop
  /-- The cursor has moved, and is about to be saved. -/
  Moved : Stored V → Progress → Prop
  /-- At the end of a turn that goes on. -/
  Again : Stored V → Progress → Prop
  /-- The handler returns. -/
  Done : Stored V → Progress → Prop
  pause : ∀ s pr, Head s pr → ok ⟨.isCircuitTripped, true⟩ → Again s pr
  last : ∀ s pr limit, Head s pr → ok ⟨.getBatchSize, limit⟩ → 0 ≤ limit →
    S.affected s pr.lastID limit = 0 → Done (S.batched s pr.lastID limit) pr
  fill : ∀ s pr limit, Head s pr → ok ⟨.getBatchSize, limit⟩ → 0 ≤ limit →
    S.affected s pr.lastID limit ≠ 0 →
      Filled (S.batched s pr.lastID limit) pr (S.affected s pr.lastID limit)
  move : ∀ s pr n, Filled s pr n → pr.lastID < maxId s.rows S.col pr.lastID →
    Moved s ⟨maxId s.rows S.col pr.lastID, pr.done + n, pr.batchNum + 1⟩
  stay : ∀ s pr n, Filled s pr n → maxId s.rows S.col pr.lastID ≤ pr.lastID → Done s pr
  save : ∀ s pr, Moved s pr → Again (s.saved pr) pr

namespace Outline

variable {S : Setting V} {ok : Event engine → Prop} (O : Outline S ok)

/-- What may be asked for. -/
def Allowed (s : Stored V) : Op → Prop
  | .updateBatch stmt lastID limit => stmt = batchStmt S.plan ∧
      ∃ pr, O.Head s pr ∧ pr.lastID = lastID ∧ ok ⟨.getBatchSize, limit⟩
  | .saveCheckpoint _ _ checkpoint => ∃ pr, O.Moved s pr ∧ checkpoint = pr.checkpoint
  | .saveState _ _ dst checkpoint _ =>
    ∃ pr, O.Done s pr ∧ dst = .verifying ∧ checkpoint = pr.checkpoint
  | _ => True

/-- A stretch that follows the outline. -/
abbrev Keeps {α : Type} (Q : α → Stored V → Prop) (c : Code α) (s : Stored V) : Prop :=
  Prog.Wp (S.Moves ok) (fun s x => O.Allowed s x.1.op) Q c s

/-- What a turn comes to. -/
def TurnPost : Turn → Stored V → Prop
  | .again pr, s => O.Again s pr
  | .stop (.ok res), s => ∃ pr, O.Done s pr ∧ res = { checkpoint := pr.checkpoint }
  | .stop (.error _), _ => True

section
variable {α : Type} {Q : α → Stored V → Prop} {s : Stored V} {op : Op} {k : op.Ret → Code α} {O}

theorem keeps_ask (hop : O.Allowed s op) (hk : ∀ r landed, S.answers s op r → ok ⟨op, r⟩ →
    O.Keeps Q (k r) (S.after s ⟨op, r⟩ landed)) : O.Keeps Q (ask op >>= k) s := by
  rintro r landed t ⟨hr, hok, rfl⟩
  exact ⟨hop, hk r landed hr hok⟩

/-- Does the operation write? -/
def Op.writes : Op → Bool
  | .updateBatch .. | .saveCheckpoint .. | .saveState .. => true
  | _ => false

theorem after_of_reads (h : Op.writes op = false) (r : op.Ret) (landed : Bool) :
    S.after s ⟨op, r⟩ landed = s := by
  unfold Setting.after
  cases op <;> first | exact ite_self _ | cases h

theorem allowed_of_reads (h : Op.writes op = false) : O.Allowed s op := by
  cases op <;> trivial

/-- An operation that only reads. -/
theorem keeps_read (h : Op.writes op = false)
    (hk : ∀ r, S.answers s op r → ok ⟨op, r⟩ → O.Keeps Q (k r) s) : O.Keeps Q (ask op >>= k) s :=
  keeps_ask (allowed_of_reads h) fun r landed hr hok => by
    rw [after_of_reads h]
    exact hk r hr hok

/-- A program that only reads. -/
theorem keeps_of_all {c : Code α} {P : Op → Prop} {q : α → Prop} (hc : c.All P q)
    (hP : ∀ op, P op → Op.writes op = false) : O.Keeps (fun a t => q a ∧ t = s) c s := by
  refine wp_of_all hc (I := (· = s)) ?_ rfl
  rintro op r landed _ _ hop rfl ⟨-, -, rfl⟩
  exact ⟨allowed_of_reads (hP op hop), after_of_reads (hP op hop) r landed⟩

theorem writes_of_kind (h : op.kind ∈ [Kind.probe, Kind.clock, Kind.throttle]) :
    Op.writes op = false := by
  cases op <;> first | rfl | simp [Op.kind] at h

end

section Turn
variable {O} {s : Stored V} {r : Record} {pr : Progress}

theorem keeps_health : O.Keeps (fun _ t => t = s) collectHealthMetrics s :=
  (keeps_of_all collectHealthMetrics_within fun op h => writes_of_kind (by
    rw [List.mem_singleton.mp h]
    decide)).mono fun _ _ h => h.2

theorem keeps_updateHealth : O.Keeps (fun _ t => t = s) updateHealth s := by
  refine keeps_read rfl fun ref _ _ => keeps_health.bind ?_
  rintro m _ rfl
  cases m with
  | none => rfl
  | some m =>
    exact (keeps_of_all (c := ask (.adjustThrottle ref m)) (P := (Op.writes · = false))
      (q := fun _ => True) ⟨rfl, fun _ => trivial⟩ fun _ h => h).mono fun _ _ h => h.2

theorem keeps_backfillRecord (h : O.Moved s pr) (n : ℕ) :
    O.Keeps O.TurnPost (backfillRecord r n pr) s := by
  refine keeps_health.bind ?_
  rintro m _ rfl
  refine keeps_read rfl fun ms _ _ => keeps_read rfl fun logged _ _ => ?_
  refine keeps_ask ⟨pr, h, rfl⟩ fun saved landed _ _ => ?_
  cases saved with
  | false => trivial
  | true =>
    have hagain := O.save _ _ h
    refine keeps_read rfl fun pause _ _ => ?_
    split_ifs
    · refine keeps_read rfl fun cancelled _ _ => ?_
      cases cancelled with
      | true => trivial
      | false => exact hagain
    · exact hagain

theorem keeps_backfillAdvance {n : ℕ} (hr : r.plan = S.plan) (h : O.Filled s pr n) :
    O.Keeps O.TurnPost (backfillAdvance r n pr) s := by
  refine keeps_read rfl fun x hx _ => ?_
  rw [hr] at hx
  rcases hx with rfl | rfl
  · trivial
  · dsimp only
    split_ifs with hle
    · exact ⟨pr, O.stay _ _ _ h hle, rfl⟩
    · exact keeps_backfillRecord (O.move _ _ _ h (not_le.mp hle)) n

/-- **One turn of the loop.** -/
theorem keeps_turn (hr : r.plan = S.plan) (h : O.Head s pr) : O.Keeps O.TurnPost (backfillTurn r pr) s := by
  refine keeps_read rfl fun stopped _ _ => ?_
  cases stopped with
  | true => trivial
  | false =>
    refine keeps_read rfl fun tripped _ hok => ?_
    cases tripped with
    | true => exact keeps_read rfl fun _ _ _ => O.pause _ _ h hok
    | false =>
      refine keeps_updateHealth.bind ?_
      rintro _ _ rfl
      refine keeps_read rfl fun limit _ hlimit => ?_
      rw [hr, S.batchStmt_eq]
      refine keeps_ask ⟨S.batchStmt_eq.symm, pr, h, rfl, hlimit⟩ fun x landed hx _ => ?_
      rcases hx with rfl | ⟨hle, rfl⟩
      · trivial
      · dsimp only
        split_ifs with hn
        · exact ⟨pr, O.last _ _ _ h hlimit hle hn, rfl⟩
        · exact keeps_backfillAdvance hr (O.fill _ _ _ h hlimit hle hn)

end Turn

/-! ### Runs -/

/-- A property of what is stored that holds all the time, and brings a run that starts back to the head
of the loop. -/
structure Recovers (O : Outline S ok) (start Inv : Stored V → Prop) : Prop where
  again : ∀ s pr, O.Again s pr → O.Head s pr
  resume : ∀ s, Inv s → s.state = .backfilling → start s → O.Head s (resumed s.checkpoint.decode)
  batch : ∀ s pr limit, Inv s → O.Head s pr → ok ⟨.getBatchSize, limit⟩ →
    Inv (S.batched s pr.lastID limit)
  save : ∀ s pr, Inv s → O.Moved s pr → Inv (s.saved pr)
  leave : ∀ s pr, Inv s → O.Done s pr → Inv (s.left pr)

/-- Where a stretch may start. -/
def Ready (O : Outline S ok) (start : Stored V → Prop) : Pt → Stored V → Prop
  | .start, s => s.state = .backfilling ∧ start s
  | .loop cur, s => cur = .backfilling ∧ s.state = .backfilling ∧ start s
  | .batch r pr, s => r.plan = S.plan ∧ O.Head s pr

section Runs
variable {O} {start Inv : Stored V → Prop} {s t : Stored V} {delay : ℤ}

theorem Recovers.step (h : O.Recovers start Inv) {x : Event engine × Bool} (hs : Inv s)
    (hx : S.Moves ok s x t) (hop : O.Allowed s x.1.op) : Inv t := by
  obtain ⟨⟨op, r⟩, landed⟩ := x
  obtain ⟨-, -, rfl⟩ := hx
  by_cases hw : Op.writes op = false
  · rwa [after_of_reads hw]
  · unfold Setting.after
    split_ifs
    · cases op <;> first | exact absurd rfl hw | skip
      · obtain ⟨pr, hdone, rfl, rfl⟩ := hop
        exact h.leave _ _ hs hdone
      · obtain ⟨pr, hmoved, rfl⟩ := hop
        exact h.save _ _ hs hmoved
      · obtain ⟨rfl, pr, hhead, rfl, hlimit⟩ := hop
        rw [S.batchStmt_eq]
        exact h.batch _ _ _ hs hhead hlimit
    · exact hs

/-- What follows the handler. -/
theorem keeps_finish {out : Outcome} (delay : ℤ) (hout : ∀ res, out = .ok res →
    ∃ pr, O.Done s pr ∧ res = { checkpoint := pr.checkpoint }) :
    O.Keeps (fun x _ => follow x = none) (finish delay S.id .backfilling out) s := by
  cases out with
  | error e => exact rfl
  | ok res =>
    obtain ⟨pr, hdone, rfl⟩ := hout res rfl
    refine keeps_ask ⟨pr, hdone, rfl, rfl⟩ fun persisted landed _ _ => ?_
    cases persisted with
    | false => exact rfl
    | true =>
      change O.Keeps _ (afterSave delay .verifying) _
      unfold afterSave
      split_ifs
      · refine keeps_read rfl fun cancelled _ _ => ?_
        cases cancelled <;> exact rfl
      · exact rfl

/-- A run that comes in enters the loop where the checkpoint says, or gives up. -/
theorem keeps_loop (O : Outline S ok) (delay : ℤ) (s : Stored V) :
    O.Keeps (fun x t => t = s ∧ ∀ pt, follow x = some pt →
        pt = .batch (S.record s) (resumed s.checkpoint.decode))
      (body delay S.id (.loop .backfilling)) s := by
  refine keeps_read rfl fun stopped _ _ => ?_
  cases stopped with
  | true => exact ⟨rfl, fun _ hpt => nomatch hpt⟩
  | false =>
    refine keeps_read rfl fun x hx _ => ?_
    rcases hx with rfl | rfl
    · exact ⟨rfl, fun _ hpt => nomatch hpt⟩
    · change O.Keeps _ (dispatch delay S.id .backfilling _ (S.record s)) s
      unfold dispatch
      rw [if_pos ⟨rfl, S.column_ne⟩]
      refine keeps_read rfl fun ref _ _ => keeps_read rfl fun x _ _ => ?_
      cases x with
      | none => exact ⟨rfl, fun _ hpt => nomatch hpt⟩
      | some n =>
        refine ⟨rfl, fun pt hpt => ?_⟩
        cases hpt
        rfl

/-- A turn leads to the next, or out of the loop. -/
theorem keeps_batch {r : Record} {pr : Progress} (delay : ℤ) (hr : r.plan = S.plan) (h : O.Head s pr) :
    O.Keeps (fun x t => ∀ pt, follow x = some pt → ∃ pr', pt = .batch r pr' ∧ O.Again t pr')
      (body delay S.id (.batch r pr)) s := by
  refine (keeps_turn hr h).bind fun x t hx => ?_
  cases x with
  | again pr' =>
    rintro pt hpt
    cases hpt
    exact ⟨pr', rfl, hx⟩
  | stop out =>
    refine (keeps_finish delay ?_).mono fun y u hy pt hpt => ?_
    · rintro res rfl
      exact hx
    · rw [hy] at hpt
      cases hpt

/-- **A stretch that follows the outline leads to the next.** -/
theorem keeps_body (h : O.Recovers start Inv) (pt : Pt) (hs : Inv s) (hpt : O.Ready start pt s) :
    O.Keeps (fun x t => ∀ pt', follow x = some pt' → O.Ready start pt' t) (body delay S.id pt) s := by
  cases pt with
  | start =>
    refine keeps_read rfl fun x hx _ => ?_
    rcases hx with rfl | rfl
    · exact fun _ hpt' => nomatch hpt'
    · intro pt' hpt'
      rw [follow_of_ne (by rintro _ _ ⟨⟩) hpt']
      exact ⟨rfl, hpt⟩
  | loop cur =>
    obtain ⟨rfl, hstate, hstart⟩ := hpt
    refine (keeps_loop O delay s).mono ?_
    rintro x _ ⟨rfl, hx⟩ pt' hpt'
    obtain rfl := hx pt' hpt'
    exact ⟨rfl, h.resume _ hs hstate hstart⟩
  | batch r pr =>
    refine (keeps_batch delay hpt.1 hpt.2).mono fun x t hx pt' hpt' => ?_
    obtain ⟨pr', rfl, hagain⟩ := hx pt' hpt'
    exact ⟨hpt.1, h.again _ _ hagain⟩

/-- **The rule for runs**: in every state of every run with any number of restarts, the invariant holds,
and only what the outline allows is asked for. -/
theorem Recovers.runs (h : O.Recovers start Inv) {as : List (Move engine Bool Pt)}
    {m : Machine engine (Stored V) Exit} (hrun : S.Runs delay ok start ⟨s, none⟩ as m) (hs : Inv s) :
    Sound (S.Moves ok) follow (fun s x => O.Allowed s x.1.op) Inv (O.Ready start) m := by
  refine machine_inv (fun s x t hs hx hop => h.step hs hx hop) ?_
    (fun pt s hs hpt => keeps_body h pt hs hpt) hrun (sound_idle hs)
  rintro s pt - ⟨hstate, hstart, rfl | rfl⟩
  · exact ⟨hstate, hstart⟩
  · exact ⟨rfl, hstate, hstart⟩

/-- When the handler returns. -/
theorem Recovers.done (h : O.Recovers start Inv) {as : List (Move engine Bool Pt)}
    {m : Machine engine (Stored V) Exit} (hrun : S.Runs delay ok start ⟨s, none⟩ as m) (hs : Inv s)
    {id : Id} {src dst : State} {checkpoint : Checkpoint} {terminal : Bool}
    (hok : ok ⟨.saveState id src dst checkpoint terminal, false⟩)
    (hop : m.Asks (.saveState id src dst checkpoint terminal)) : ∃ pr, O.Done m.world pr := by
  have hallowed := (h.runs hrun hs).allowed (r := false) (i := false) hop ⟨trivial, hok, rfl⟩
  obtain ⟨pr, hdone, -⟩ := hallowed
  exact ⟨pr, hdone⟩

end Runs

end Outline

/-! ### Making runs -/

section Making
variable {S : Setting V} {ok : Event engine → Prop} {s : Stored V} {r : Record} {limit : ℤ}
  (delay : ℤ) (start : Stored V → Prop)

/-- All answers but the size of a batch are allowed. -/
def FreeBut (ok : Event engine → Prop) : Prop := ∀ ev : Event engine, ev.op ≠ .getBatchSize → ok ev

/-- Every batch size is at least one. -/
def Sized : Event engine → Prop
  | ⟨.getBatchSize, limit⟩ => (1 : ℤ) ≤ limit
  | _ => True

theorem freeBut_sized : FreeBut Sized := by
  rintro ⟨op, r⟩ h
  cases op <;> trivial

theorem path_move {op : Op} {a : op.Ret} {l : List (Event engine × Bool)} {t : Stored V}
    (ha : S.answers s op a) (hok : ok ⟨op, a⟩)
    (h : Path (S.Moves ok) (S.after s ⟨op, a⟩ false) l t) :
    Path (S.Moves ok) s ((⟨op, a⟩, false) :: l) t :=
  Path.cons ⟨ha, hok, rfl⟩ h

/-- A run comes in, in place of one that may be at work, and enters the loop where the checkpoint says. -/
theorem reaches_loop (hok : FreeBut ok) (m : Machine engine (Stored V) Exit)
    (hstate : m.world.state = .backfilling) (hstart : start m.world) :
    ∃ as, S.Runs delay ok start m as ⟨m.world,
      some (body delay S.id (.batch (S.record m.world) (resumed m.world.checkpoint.decode)))⟩ := by
  set s := m.world
  set pr := resumed s.checkpoint.decode
  let count := s.rows.countP fun row => (row.get S.col).isNone ∧ pr.lastID < row.id
  have hdispatch : After (dispatch delay S.id .backfilling (fun _ => pure skipped) (S.record s))
      [⟨.newThrottle (backfillConfig S.plan), 0⟩,
        ⟨.countRemaining S.plan.table S.col pr.lastID, some count⟩]
      (.ret (.goto (.batch (S.record s) pr))) := by
    unfold dispatch
    rw [if_pos ⟨rfl, S.column_ne⟩]
    exact After.cons (After.cons After.nil)
  have hworld : Path (S.Moves ok) s [(⟨.ctxDone, false⟩, false), (⟨.load S.id, some (S.record s)⟩, false),
      (⟨.newThrottle (backfillConfig S.plan), 0⟩, false),
      (⟨.countRemaining S.plan.table S.col pr.lastID, some count⟩, false)] s :=
    path_move trivial (hok _ (by simp)) (path_move (Or.inr rfl) (hok _ (by simp))
      (path_move trivial (hok _ (by simp)) (path_move (Or.inr rfl) (hok _ (by simp)) Path.nil)))
  have henter : S.Runs delay ok start m [.enter (.loop .backfilling)]
      ⟨s, some (body delay S.id (.loop .backfilling))⟩ :=
    Path.nil.snoc (Step.enter ⟨hstate, hstart, Or.inr rfl⟩)
  have hrun := henter.append (path_of_after hworld (After.cons (After.cons hdispatch)))
  exact ⟨_, hrun.snoc (Step.advance (show follow (.goto (.batch _ _)) = some _ from rfl))⟩

theorem resumed_init (rows : List (Row V)) :
    resumed (S.record (S.init rows)).checkpoint = ⟨0, 0, 0⟩ := by
  simp [resumed, Setting.record, Setting.init, Checkpoint.decode, Checkpoint.int64, List.lookup_cons]

/-- From `Expanding` into the loop. -/
theorem reaches_first (hok : FreeBut ok) (rows : List (Row V)) (hstart : start (S.init rows)) :
    ∃ as, S.Runs delay ok start ⟨S.init rows, none⟩ as
      ⟨S.init rows, some (body delay S.id (.batch (S.record (S.init rows)) ⟨0, 0, 0⟩))⟩ := by
  have h := reaches_loop (S := S) delay start hok ⟨S.init rows, none⟩ rfl hstart
  rwa [show resumed (S.init rows).checkpoint.decode = ⟨0, 0, 0⟩ from resumed_init rows] at h

/-- How a stretch in the loop goes on. -/
def afterTurn (delay : ℤ) (S : Setting V) (r : Record) : Turn → Code Exit
  | .again pr => pure (.goto (.batch r pr))
  | .stop out => finish delay S.id .backfilling out

theorem body_batch (pr : Progress) :
    body delay S.id (.batch r pr) = backfillTurn r pr >>= afterTurn delay S r := by
  change (backfillTurn r pr >>= fun x => _) = _
  congr 1

/-- What is left of a turn once `n` rows have been updated. -/
def afterBatch (r : Record) (pr : Progress) (n : ℕ) : Code Turn :=
  if n = 0 then pure (.stop (.ok { checkpoint := pr.checkpoint })) else backfillAdvance r n pr

/-- A batch is sent, and answered. -/
theorem reaches_batch (hok : FreeBut ok) (hlimit : ok ⟨.getBatchSize, limit⟩) (hle : 0 ≤ limit)
    (hr : r.plan = S.plan) (s : Stored V) (pr : Progress) :
    ∃ as, S.Runs delay ok start ⟨s, some (body delay S.id (.batch r pr))⟩ as
      ⟨S.batched s pr.lastID limit, some
        (afterBatch r pr (S.affected s pr.lastID limit) >>= afterTurn delay S r)⟩ := by
  have hbatch : S.Moves ok s (⟨.updateBatch (batchStmt r.plan) pr.lastID limit,
      some (S.affected s pr.lastID limit)⟩, false) (S.batched s pr.lastID limit) := by
    rw [hr, S.batchStmt_eq]
    exact ⟨Or.inr ⟨hle, rfl⟩, hok _ (by simp), rfl⟩
  have hworld : Path (S.Moves ok) s [(⟨.ctxDone, false⟩, false), (⟨.isCircuitTripped, false⟩, false),
      (⟨.throttleRef, 0⟩, false), (⟨.connections, none⟩, false), (⟨.getBatchSize, limit⟩, false),
      (⟨.updateBatch (batchStmt r.plan) pr.lastID limit, some (S.affected s pr.lastID limit)⟩, false)]
      (S.batched s pr.lastID limit) :=
    path_move trivial (hok _ (by simp)) (path_move trivial (hok _ (by simp)) (path_move trivial
      (hok _ (by simp)) (path_move trivial (hok _ (by simp)) (path_move trivial hlimit
        (Path.cons hbatch Path.nil)))))
  have hcode : After (backfillTurn r pr) [⟨.ctxDone, false⟩, ⟨.isCircuitTripped, false⟩,
      ⟨.throttleRef, 0⟩, ⟨.connections, none⟩, ⟨.getBatchSize, limit⟩,
      ⟨.updateBatch (batchStmt r.plan) pr.lastID limit, some (S.affected s pr.lastID limit)⟩]
      (afterBatch r pr (S.affected s pr.lastID limit)) :=
    After.cons (After.cons (After.cons (After.cons (After.cons (After.cons After.nil)))))
  rw [body_batch]
  exact ⟨_, path_of_after hworld (hcode.seq _)⟩

/-- The loop goes on from the new cursor. -/
theorem reaches_turn (hok : FreeBut ok) (hlimit : ok ⟨.getBatchSize, limit⟩) (hle : 0 ≤ limit)
    (hr : r.plan = S.plan) (pr : Progress) (hn : S.affected s pr.lastID limit ≠ 0) {x : ℤ}
    (hx : x = maxId (S.batched s pr.lastID limit).rows S.col pr.lastID) (hlt : pr.lastID < x) :
    ∃ as, S.Runs delay ok start ⟨s, some (body delay S.id (.batch r pr))⟩ as
      ⟨(S.batched s pr.lastID limit).saved
          ⟨x, pr.done + S.affected s pr.lastID limit, pr.batchNum + 1⟩,
        some (body delay S.id (.batch r
          ⟨x, pr.done + S.affected s pr.lastID limit, pr.batchNum + 1⟩))⟩ := by
  obtain ⟨as, has⟩ := reaches_batch delay start hok hlimit hle hr s pr
  set t := S.batched s pr.lastID limit
  set n := S.affected s pr.lastID limit
  set pr' : Progress := ⟨x, pr.done + n, pr.batchNum + 1⟩
  have hmax : S.answers t (.maxId r.plan.table r.plan.backfill.column pr.lastID) (some x) := by
    rw [hr, hx]
    exact Or.inr rfl
  have hworld : Path (S.Moves ok) t [
      (⟨.maxId r.plan.table r.plan.backfill.column pr.lastID, some x⟩, false),
      (⟨.connections, none⟩, false), (⟨.getThrottleMs, 0⟩, false),
      (⟨.logBackfillProgress r.id pr'.batchNum n 0 none, true⟩, false),
      (⟨.saveCheckpoint r.id .backfilling pr'.checkpoint, true⟩, false),
      (⟨.getThrottleMs, 0⟩, false)] (t.saved pr') :=
    path_move hmax (hok _ (by simp)) (path_move trivial (hok _ (by simp)) (path_move trivial
      (hok _ (by simp)) (path_move trivial (hok _ (by simp)) (path_move trivial (hok _ (by simp))
        (path_move trivial (hok _ (by simp)) Path.nil)))))
  have hcode : After (afterBatch r pr n) [
      ⟨.maxId r.plan.table r.plan.backfill.column pr.lastID, some x⟩,
      ⟨.connections, none⟩, ⟨.getThrottleMs, 0⟩,
      ⟨.logBackfillProgress r.id pr'.batchNum n 0 none, true⟩,
      ⟨.saveCheckpoint r.id .backfilling pr'.checkpoint, true⟩,
      ⟨.getThrottleMs, 0⟩] (.ret (.again pr')) := by
    unfold afterBatch
    rw [if_neg hn]
    refine After.cons ?_
    change After (if x ≤ pr.lastID then _ else backfillRecord r n pr') _ _
    rw [if_neg (not_le.mpr hlt)]
    exact After.cons (After.cons (After.cons (After.cons (After.cons After.nil))))
  have hrun := has.append (path_of_after hworld (hcode.seq _))
  exact ⟨_, hrun.snoc (Step.advance (show follow (.goto (.batch _ _)) = some _ from rfl))⟩

/-- A batch that updates no row ends the backfill. -/
theorem reaches_end (hok : FreeBut ok) (hlimit : ok ⟨.getBatchSize, limit⟩) (hle : 0 ≤ limit)
    (hr : r.plan = S.plan) (pr : Progress) (hn : S.affected s pr.lastID limit = 0) :
    ∃ as, ∃ m : Machine engine (Stored V) Exit,
      S.Runs delay ok start ⟨s, some (body delay S.id (.batch r pr))⟩ as m ∧
        m.world = S.batched s pr.lastID limit ∧
        m.Asks (.saveState S.id .backfilling .verifying pr.checkpoint false) := by
  obtain ⟨as, has⟩ := reaches_batch delay start hok hlimit hle hr s pr
  refine ⟨as, _, has, rfl, ?_⟩
  unfold afterBatch
  rw [if_pos hn]
  exact ⟨_, rfl⟩

end Making

/-! ### Sample rows -/

/-- The sample plan, with an expression whose value is always 7. -/
def constant : Setting ℕ where
  id := 0
  plan := backfillPlan
  eval := fun _ _ => some 7
  column_ne := by decide
  multiSQL_eq := rfl

def row (x : ℤ) (v : Option ℕ) : Row ℕ := ⟨x, fun _ => v⟩

end MigrationSafety.StateMachine.BackfillRuns
