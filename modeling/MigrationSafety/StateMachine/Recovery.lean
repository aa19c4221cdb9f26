import MigrationSafety.Lib.Restarts
import MigrationSafety.StateMachine.Retreat
import MigrationSafety.StateMachine.Decoding

/-! # Runs that end after crashes

The surroundings are those of a run that completes, but the plan may set the fault knob, and the process
may die between any two operations, as often as it likes; then a new run starts on what is stored.
Whatever the crashes leave, an undisturbed run from there on ends as the plan says (`recovers`): in
`Done`, with the table filled as if there had been no crash; in `RolledBack`; or at the canary, which
waits. What has been executed is the Expand statements, and the Contract or the Rollback statements
after them, each list after beginnings of it that crashes have interrupted (`Tried`). A statement that
has been executed already succeeds again here: whether it does is up to the plan.

* `Holds`: what is stored and what has happened fit together; every operation of a run keeps this.
* `guards_batch`: the backfill may start below the rows that are filled, as the checkpoint is written
  after the batch.
* `guards_body`: each stretch keeps `Holds` and comes nearer to the end. -/

namespace MigrationSafety.StateMachine.Recovery

open MigrationSafety.Lib.Effects MigrationSafety.Lib.Worlds MigrationSafety.Lib.Binary64
open MigrationSafety.Lib.Paths MigrationSafety.Lib.Restarts
open MigrationSafety.Plan.Validate MigrationSafety.Sql.Rows MigrationSafety.Sql.Text
open MigrationSafety.Safety.Throttle MigrationSafety.Safety.Executor
open MigrationSafety.StateMachine.Signature MigrationSafety.StateMachine.Handlers
open MigrationSafety.StateMachine.Run MigrationSafety.StateMachine.Trace
open MigrationSafety.StateMachine.Faultless MigrationSafety.StateMachine.Selection
open MigrationSafety.StateMachine.Filling MigrationSafety.StateMachine.Completion
open MigrationSafety.StateMachine.Decoding MigrationSafety.StateMachine.Retreat
open MigrationSafety.StateMachine.Knob (accepted_breachingPlan)

variable {V : Type} {S : Site V} {rows : List (Row V)} {s t u : World V}

/-! ### What crashes leave -/

/-- Beginnings of `stmts`, one after the other. -/
inductive Tried (stmts : List String) : List String → Prop
  | nil : Tried stmts []
  | snoc {l p : List String} (h : Tried stmts l) (hp : p <+: stmts) : Tried stmts (l ++ p)

/-- The Expand statements, after interrupted attempts at them. -/
def Expanded (S : Site V) (l : List String) : Prop :=
  ∃ l', Tried S.plan.plan.expand l' ∧ l = l' ++ S.plan.plan.expand

/-- Then other statements, likewise; `rest` is what has come after the last interruption. -/
def Followed (S : Site V) (stmts rest l : List String) : Prop :=
  ∃ l₁ l₂, Expanded S l₁ ∧ Tried stmts l₂ ∧ l = l₁ ++ l₂ ++ rest

theorem Expanded.followed {l : List String} (h : Expanded S l) (stmts : List String) :
    Followed S stmts [] l := ⟨l, [], h, Tried.nil, by simp⟩

/-- **The table after the backfill.** -/
def backfilled (S : Site V) (rows : List (Row V)) : List (Row V) :=
  let b := S.plan.plan.backfill
  if b.column = "" then rows else rows.map fun r => r.set b.column (S.eval b.sourceExpr r)

/-- The cursor a run would start from. -/
def cursor (s : World V) : ℤ := s.checkpoint.decode.int64 "last_id"

/-- The rows are filled up to some id, and the cursor is not after it. -/
def Underway (S : Site V) (rows : List (Row V)) (s : World V) : Prop :=
  (S.plan.plan.backfill.column = "" → s.rows = rows) ∧
    (S.plan.plan.backfill.column ≠ "" → ∃ c, s.rows = upTo S rows c ∧ 0 ≤ cursor s ∧ cursor s ≤ c)

/-- What is true in each state. -/
def Stage (S : Site V) (rows : List (Row V)) : State → World V → Prop
  | .pending, s => s.executed = [] ∧ s.rows = rows
  | .expanding, s => Tried S.plan.plan.expand s.executed ∧ s.rows = rows
  | .backfilling, s => Expanded S s.executed ∧ Underway S rows s
  | .verifying, s | .canary, s => Expanded S s.executed ∧ s.rows = backfilled S rows
  | .cutover, s => fate S.plan.plan = .completes ∧ Expanded S s.executed ∧ s.rows = backfilled S rows
  | .contracting, s => fate S.plan.plan = .completes ∧ Followed S S.plan.plan.contract [] s.executed ∧
      s.rows = backfilled S rows
  | .done, s => fate S.plan.plan = .completes ∧
      Followed S S.plan.plan.contract S.plan.plan.contract s.executed ∧ s.rows = backfilled S rows
  | .rollingBack, s => fate S.plan.plan = .rollsBack ∧ Followed S S.plan.plan.rollback [] s.executed
  | .rolledBack, s => fate S.plan.plan = .rollsBack ∧
      Followed S S.plan.plan.rollback S.plan.plan.rollback s.executed

/-- **The invariant.** -/
def Holds (S : Site V) (rows : List (Row V)) (s : World V) : Prop := Stage S rows s.state s

theorem Holds.stage {cur : State} (h : Holds S rows s) (hs : s.state = cur) : Stage S rows cur s := by
  subst hs
  exact h

theorem Stage.holds {cur : State} (h : Stage S rows cur s) (hs : s.state = cur) : Holds S rows s := by
  subst hs
  exact h

theorem holds_init : Holds S rows (World.init rows) := by
  have hstage : Stage S rows .pending (World.init rows) := ⟨rfl, rfl⟩
  exact hstage.holds rfl

/-- What is asked of the plan and of the table. -/
structure Solid (S : Site V) (rows : List (Row V)) : Prop where
  multiSQL : S.plan.plan.backfill.multiSQL = ""
  parityThreshold : S.plan.plan.verify.parityThreshold.val ≤ 1
  minParity : S.plan.plan.slo.minParity.val ≤ 1
  ids : ∀ r ∈ rows, 0 < r.id
  exact : ∀ r ∈ rows, r.id ≤ 2 ^ 53
  fresh : S.plan.plan.backfill.column ≠ "" → Fresh S rows

/-! ### What leaves the invariant alone -/

/-- Nothing has been executed or written to the record. -/
structure Still (s t : World V) : Prop where
  keeps : Keeps s t
  checkpoint : t.checkpoint = s.checkpoint

theorem Still.refl (s : World V) : Still s s := ⟨Keeps.refl s, rfl⟩

theorem Still.trans (h : Still s t) (h' : Still t u) : Still s u :=
  ⟨h.keeps.trans h'.keeps, h'.checkpoint.trans h.checkpoint⟩

/-- Does the operation leave the record and the table alone? -/
def Op.still : Op → Bool
  | .saveCheckpoint .. => false
  | op => Op.idle op

theorem idle_of_still {op : Op} (h : Op.still op = true) : Op.idle op = true := by
  cases op <;> first | rfl | cases h

/-- Probing the target is such an operation. -/
theorem probing {α : Type} {p : Code α} (h : Within [.probe] p) :
    p.All (fun op => Op.still op = true) fun _ => True :=
  Prog.All.mono h (fun op hop => by cases op <;> first | rfl | simp [Op.kind] at hop) fun _ h => h

theorem still_after (S : Site V) (s : World V) {op : Op} (h : Op.still op = true) :
    Still s (S.after s op) := by
  cases op <;> first | exact ⟨Keeps.of_eq rfl rfl rfl, rfl⟩ | cases h

theorem Stage.congr {cur : State} (h : Stage S rows cur s) (hrows : t.rows = s.rows)
    (hexec : t.executed = s.executed) (hcheck : cur = .backfilling → t.checkpoint = s.checkpoint) :
    Stage S rows cur t := by
  cases cur with
  | backfilling =>
    refine ⟨hexec ▸ h.1, fun hcol => hrows.trans (h.2.1 hcol), fun hcol => ?_⟩
    unfold cursor
    rw [hrows, hcheck rfl]
    exact h.2.2 hcol
  | _ => simpa only [Stage, hrows, hexec] using h

theorem executed_eq (ht : Keeps s t) : t.executed = s.executed := by
  rw [ht.executed, List.append_nil]

theorem Holds.keeps (h : Holds S rows s) (hs : s.state ≠ .backfilling) (ht : Keeps s t) :
    Holds S rows t :=
  ((h.stage rfl).congr ht.rows (executed_eq ht) fun heq => absurd heq hs).holds ht.state

theorem Holds.still (h : Holds S rows s) (ht : Still s t) : Holds S rows t :=
  ((h.stage rfl).congr ht.keeps.rows (executed_eq ht.keeps) fun _ => ht.checkpoint).holds ht.keeps.state

/-! ### Programs that keep the invariant -/

variable [DecidableEq V] {α : Type} {Q : α → World V → Prop} {op : Op} {k : op.Ret → Code α}

/-- Whatever favourable surroundings do, every operation keeps the invariant and the end meets `Q`. -/
abbrev Guards (S : Site V) (rows : List (Row V)) (Q : α → World V → Prop) (p : Code α) (s : World V) :
    Prop :=
  Prog.Wp (S.Moves (Fair rows)) (fun s x => Holds S rows (S.after s x.1.op)) Q p s

theorem guards_ask (hk : ∀ r, S.answers s op r → Fair rows S s op r →
    Holds S rows (S.after s op) ∧ Guards S rows Q (k r) (S.after s op)) :
    Guards S rows Q (ask op >>= k) s := by
  rintro r _ t ⟨hr, hok, rfl⟩
  exact hk r hr hok

theorem guards_still (h : Op.still op = true) (hs : Holds S rows s)
    (hk : ∀ r t, S.answers s op r → Fair rows S s op r → Still s t → t.last = some op →
      Guards S rows Q (k r) t) : Guards S rows Q (ask op >>= k) s :=
  guards_ask fun r hr hok =>
    ⟨hs.still (still_after S s h), hk r _ hr hok (still_after S s h) rfl⟩

/-- A program of such operations. -/
theorem guards_all_still {p : Code α} (hp : p.All (fun op => Op.still op = true) fun _ => True)
    (hs : Holds S rows s) : Guards S rows (fun _ t => Still s t) p s := by
  refine (wp_of_all (I := Still s) hp ?_ (Still.refl s)).mono fun _ _ h => h.2
  rintro op r i t u hop ht ⟨-, -, rfl⟩
  have hu := ht.trans (still_after S t hop)
  exact ⟨hs.still hu, hu⟩

/-- Elsewhere the checkpoint is free. -/
theorem guards_all_idle {p : Code α} (hp : p.All (fun op => Op.idle op = true) fun _ => True)
    (hs : Holds S rows s) (hne : s.state ≠ .backfilling) (h : Ends S (Fair rows) Q p s) :
    Guards S rows Q p s := by
  refine (Prog.Wp.also (wp_of_all (I := Keeps s) hp ?_ (Keeps.refl s)) h).mono fun _ _ h => h.2
  rintro op r i t u hop ht ⟨-, -, rfl⟩
  have hu := ht.trans (keeps_after S t hop)
  exact ⟨hs.keeps hne hu, hu⟩

theorem Guards.holds {p : Code α} (h : Guards S rows Q p s) (hs : Holds S rows s) :
    Guards S rows (fun a t => Q a t ∧ Holds S rows t) p s := by
  refine h.keeps ?_ hs
  rintro u x v - ⟨-, -, rfl⟩ hC
  exact hC

/-! ### DDL -/

/-- Every beginning of these statements keeps the invariant. -/
def Secure (S : Site V) (rows : List (Row V)) (stmts : List String) (s : World V) : Prop :=
  ∀ p t, p <+: stmts → Sent p s t → Holds S rows t

section Ddl
variable {stmt : String} {l : List String}

omit [DecidableEq V] in
theorem Secure.keeps (h : Secure S rows l s) (ht : Keeps s t) : Secure S rows l t :=
  fun p u hp hu => h p u hp (ht.trans hu)

omit [DecidableEq V] in
theorem Secure.holds (h : Secure S rows l s) (ht : Keeps s t) : Holds S rows t :=
  h [] t List.nil_prefix ht

omit [DecidableEq V] in
theorem Secure.sent (h : Secure S rows (stmt :: l) s) (ht : Sent [stmt] s t) : Secure S rows l t :=
  fun p u hp hu => h (stmt :: p) u (List.cons_prefix_cons.mpr ⟨rfl, hp⟩) (ht.trans hu)

omit [DecidableEq V] in
theorem Secure.holds_sent (h : Secure S rows (stmt :: l) s) (ht : Sent [stmt] s t) : Holds S rows t :=
  (h.sent ht).holds (Keeps.refl t)

theorem guards_ddl (h : Secure S rows l s) (hop : Op.idle op = true)
    (hk : ∀ r t, S.answers s op r → Keeps s t → Guards S rows Q (k r) t) :
    Guards S rows Q (ask op >>= k) s :=
  guards_ask fun r hr _ => ⟨h.holds (keeps_after S s hop), hk r _ hr (keeps_after S s hop)⟩

theorem guards_safetyCheck (h : Secure S rows l s) (hs : Passable s) :
    Guards S rows (fun x t => x = .ok () ∧ Keeps s t) safetyCheck s := by
  refine (Prog.Wp.also (wp_of_all (I := Keeps s) (probing safetyCheck_within) ?_ (Keeps.refl s))
    (ends_safetyCheck_passable hs)).mono fun _ _ h => h.2
  rintro op r i t u hop ht ⟨-, -, rfl⟩
  have hu := ht.trans (keeps_after S t (idle_of_still hop))
  exact ⟨h.holds hu, hu⟩

theorem guards_execInTx (h : Secure S rows (stmt :: l) s) :
    Guards S rows (fun x t => x = .ok () ∧ Sent [stmt] s t) (execInTx stmt) s := by
  refine guards_ddl h rfl ?_
  rintro _ t rfl ht
  refine guards_ddl (h.keeps ht) rfl ?_
  rintro _ t' rfl ht'
  refine guards_ddl (h.keeps (ht.trans ht')) rfl ?_
  rintro _ u rfl hu
  refine guards_ddl (h.keeps (ht.trans (ht'.trans hu))) rfl ?_
  rintro _ u' rfl hu'
  refine guards_ask ?_
  rintro _ rfl -
  have hsent := ht.trans (ht'.trans (hu.trans (hu'.trans (sent_commit S u' stmt))))
  exact ⟨h.holds_sent hsent, rfl, hsent⟩

theorem guards_execConcurrently (h : Secure S rows (stmt :: l) s) (hs : Passable s) :
    Guards S rows (fun x t => x = .ok () ∧ Sent [stmt] s t) (execConcurrently stmt maxRetries) s := by
  refine (guards_safetyCheck h hs).bind ?_
  rintro _ t ⟨rfl, ht⟩
  refine guards_ddl (h.keeps ht) rfl fun _ u _ hu => guards_ask ?_
  rintro _ rfl -
  have hsent := ht.trans (hu.trans (sent_poolExec S u stmt))
  exact ⟨h.holds_sent hsent, rfl, hsent⟩

theorem guards_execDDL (h : Secure S rows (stmt :: l) s) (hs : Passable s) :
    Guards S rows (fun x t => x = .ok () ∧ Sent [stmt] s t) (execDDL stmt) s := by
  refine (guards_safetyCheck h hs).bind ?_
  rintro _ t ⟨rfl, ht⟩
  dsimp only
  split_ifs
  · exact (guards_execConcurrently (h.keeps ht) (hs.sent ht)).mono fun _ _ h => ⟨h.1, ht.trans h.2⟩
  · exact (guards_execInTx (h.keeps ht)).mono fun _ _ h => ⟨h.1, ht.trans h.2⟩

/-- **The statements, one by one.** -/
theorem guards_execEach {fail : ℕ → String → DDLError → HandlerError} {id : Id} (i : ℕ)
    (h : Secure S rows l s) (hs : Passable s) :
    Guards S rows (fun x t => x = .ok () ∧ Sent l s t) (execEach fail id i l) s := by
  induction l generalizing i s with
  | nil => exact ⟨rfl, Keeps.refl s⟩
  | cons stmt l ih =>
    refine (guards_execDDL h hs).bind ?_
    rintro _ t ⟨rfl, ht⟩
    have hrest := h.sent ht
    refine guards_ddl hrest rfl fun _ u _ hu => ?_
    refine (ih (i + 1) (hrest.keeps hu) ((hs.sent ht).sent hu)).mono fun x v hv => ⟨hv.1, ?_⟩
    exact ht.trans (hu.trans hv.2)

theorem guards_runStmts {fail : ℕ → String → DDLError → HandlerError} {key : String} {id : Id}
    (h : Secure S rows l s) (hs : Passable s) : Guards S rows (fun out t =>
      out = .ok { checkpoint := [(key, .int l.length)] } ∧ Sent l s t) (runStmts fail key id l) s := by
  refine (guards_execEach 0 h hs).bind ?_
  rintro _ t ⟨rfl, ht⟩
  exact ⟨rfl, ht⟩

omit [DecidableEq V] in
/-- An attempt at the Expand statements, however far it gets. -/
theorem secure_expanding (hs : s.state = .expanding) (h : Holds S rows s) :
    Secure S rows S.plan.plan.expand s := by
  obtain ⟨htried, hrows⟩ : Stage S rows .expanding s := h.stage hs
  intro p t hp ht
  have hstage : Stage S rows .expanding t :=
    ⟨by rw [ht.executed]; exact htried.snoc hp, ht.rows.trans hrows⟩
  exact hstage.holds (ht.state.trans hs)

omit [DecidableEq V] in
/-- An attempt at the statements after them. -/
theorem Followed.snoc {stmts p : List String} (h : Followed S stmts [] s.executed) (hp : p <+: stmts)
    (ht : Sent p s t) : Followed S stmts [] t.executed := by
  obtain ⟨l₁, l₂, hexpanded, htried, hl⟩ := h
  refine ⟨l₁, l₂ ++ p, hexpanded, htried.snoc hp, ?_⟩
  rw [ht.executed, hl, List.append_nil, List.append_nil, List.append_assoc]

omit [DecidableEq V] in
/-- All of them. -/
theorem Followed.sent {stmts : List String} (h : Followed S stmts [] s.executed)
    (ht : Sent stmts s t) : Followed S stmts stmts t.executed := by
  obtain ⟨l₁, l₂, hexpanded, htried, hl⟩ := h
  exact ⟨l₁, l₂, hexpanded, htried, by rw [ht.executed, hl, List.append_nil]⟩

omit [DecidableEq V] in
theorem secure_contracting (hs : s.state = .contracting) (h : Holds S rows s) :
    Secure S rows S.plan.plan.contract s := by
  obtain ⟨hfate, hfollowed, hrows⟩ : Stage S rows .contracting s := h.stage hs
  intro p t hp ht
  have hstage : Stage S rows .contracting t := ⟨hfate, hfollowed.snoc hp ht, ht.rows.trans hrows⟩
  exact hstage.holds (ht.state.trans hs)

omit [DecidableEq V] in
theorem secure_rollingBack (hs : s.state = .rollingBack) (h : Holds S rows s) :
    Secure S rows S.plan.plan.rollback s := by
  obtain ⟨hfate, hfollowed⟩ : Stage S rows .rollingBack s := h.stage hs
  intro p t hp ht
  have hstage : Stage S rows .rollingBack t := ⟨hfate, hfollowed.snoc hp ht⟩
  exact hstage.holds (ht.state.trans hs)

/-! ### Rollbacks -/

theorem guards_rollbackStmt {id : Id} (h : Secure S rows (stmt :: l) s) (hs : Passable s) :
    Guards S rows (fun x t => x = .ok () ∧ Sent [stmt] s t) (rollbackStmt id stmt (maxRetries - 1)) s := by
  have htry : Guards S rows (fun x t => x = .ok () ∧ Sent [stmt] s t) (tryRollback id stmt) s := by
    refine (guards_execDDL h hs).bind ?_
    rintro _ t ⟨rfl, ht⟩
    exact guards_ddl (h.sent ht) rfl fun _ u _ hu => ⟨rfl, ht.trans hu⟩
  refine htry.bind ?_
  rintro _ t ⟨rfl, ht⟩
  exact ⟨rfl, ht⟩

theorem guards_rollbackStmts {id : Id} (i : ℕ) (h : Secure S rows l s) (hs : Passable s) :
    Guards S rows (fun x t => x = .ok () ∧ Sent l s t) (rollbackStmts id i l) s := by
  induction l generalizing i s with
  | nil => exact ⟨rfl, Keeps.refl s⟩
  | cons stmt l ih =>
    refine (guards_rollbackStmt h hs).bind ?_
    rintro _ t ⟨rfl, ht⟩
    exact (ih (i + 1) (h.sent ht) (hs.sent ht)).mono fun x u hu => ⟨hu.1, ht.trans hu.2⟩

/-- Looking for the columns afterwards. -/
theorem guards_verifyRollback {table : String} (cols : List String) (h : Secure S rows l s) :
    Guards S rows (fun _ t => Keeps s t) (verifyRollback table cols) s := by
  induction cols generalizing s with
  | nil => exact Keeps.refl s
  | cons col cols ih =>
    refine guards_ddl h rfl fun _ t _ ht => ?_
    exact (ih (h.keeps ht)).mono fun _ u hu => ht.trans hu

theorem guards_rollback {r : Record} (hr : r.plan = S.plan.plan)
    (h : Secure S rows S.plan.plan.rollback s) (hs : Passable s) :
    Guards S rows (fun out t => ∃ c, out = .ok { checkpoint := c } ∧ Sent S.plan.plan.rollback s t)
      (rollback r) s := by
  refine guards_ddl h rfl fun _ t _ ht => ?_
  rw [hr]
  refine (guards_rollbackStmts 0 (h.keeps ht) (hs.sent ht)).bind ?_
  rintro _ u ⟨rfl, hu⟩
  have hlast : Secure S rows [] u := fun p v hp hv => by
    obtain rfl := List.prefix_nil.mp hp
    exact h _ v (List.prefix_refl _) (by simpa using (ht.trans hu).trans hv)
  refine (guards_verifyRollback _ hlast).bind fun _ v hv => ⟨_, rfl, ?_⟩
  simpa using (ht.trans hu).trans hv

end Ddl

/-! ### The backfill -/

section Backfill
variable {r : Record} {pr : Progress} {c : ℤ}

omit [DecidableEq V] in
/-- A batch from a cursor below the rows that are filled takes what a batch from there on takes. -/
theorem selected_upTo_of_le (hfresh : Fresh S rows) {b : ℤ} (hb : b ≤ c) (limit : ℤ) :
    selected (upTo S rows c) S.plan.plan.backfill.column b limit =
      selected (upTo S rows c) S.plan.plan.backfill.column c limit := by
  unfold selected
  congr 3
  refine List.filter_congr fun row hrow => decide_eq_decide.mpr (and_congr_right fun hnull => ?_)
  refine ⟨fun _ => ?_, fun hc => hb.trans_lt hc⟩
  obtain ⟨q, hq, rfl⟩ := mem_filled.mp hrow
  rw [id_filled]
  by_contra hle
  rw [if_pos (not_lt.mp hle), Row.get_set_self, Option.isNone_iff_eq_none] at hnull
  exact hfresh.value q hq hnull

theorem updateHealth_still : updateHealth.All (fun op => Op.still op = true) fun _ => True := by
  refine ⟨rfl, fun ref => (probing collectHealthMetrics_within).bind fun m _ => ?_⟩
  cases m with
  | none => trivial
  | some m => exact ⟨rfl, fun _ => trivial⟩

/-- Where the loop stands: the rows are filled up to `c`, and neither its own cursor nor the stored one
is after it. -/
structure Standing (S : Site V) (rows : List (Row V)) (pr : Progress) (c : ℤ) (s : World V) : Prop where
  column : S.plan.plan.backfill.column ≠ ""
  state : s.state = .backfilling
  executed : Expanded S s.executed
  rows : s.rows = upTo S rows c
  nonneg : 0 ≤ pr.lastID
  le : pr.lastID ≤ c
  stored_nonneg : 0 ≤ cursor s
  stored_le : cursor s ≤ c

omit [DecidableEq V] in
theorem Standing.holds (h : Standing S rows pr c s) : Holds S rows s := by
  have hstage : Stage S rows .backfilling s :=
    ⟨h.executed, fun hcol => absurd hcol h.column, fun _ => ⟨c, h.rows, h.stored_nonneg, h.stored_le⟩⟩
  exact hstage.holds h.state

omit [DecidableEq V] in
theorem Standing.still (h : Standing S rows pr c s) (ht : Still s t) : Standing S rows pr c t where
  column := h.column
  state := ht.keeps.state.trans h.state
  executed := by rw [executed_eq ht.keeps]; exact h.executed
  rows := ht.keeps.rows.trans h.rows
  nonneg := h.nonneg
  le := h.le
  stored_nonneg := by unfold cursor; rw [ht.checkpoint]; exact h.stored_nonneg
  stored_le := by unfold cursor; rw [ht.checkpoint]; exact h.stored_le

omit [DecidableEq V] in
/-- A batch. -/
theorem Standing.batch (h : Standing S rows pr c s) {c' b limit : ℤ} {table col expr : String}
    (hc : c ≤ c') (hrows : updateRows S.eval s.rows col expr (selected s.rows col b limit) =
      upTo S rows c') : Standing S rows pr c' (S.after s (.updateBatch (.single table col expr) b limit)) where
  column := h.column
  state := h.state
  executed := h.executed
  rows := hrows
  nonneg := h.nonneg
  le := h.le.trans hc
  stored_nonneg := h.stored_nonneg
  stored_le := h.stored_le.trans hc

omit [DecidableEq V] in
/-- The stored cursor comes back as it was. -/
theorem cursor_checkpoint (hpr : 0 ≤ pr.lastID) (hexact : pr.lastID ≤ 2 ^ 53) :
    pr.checkpoint.decode.int64 "last_id" = pr.lastID := by
  have hresumed := congrArg Progress.lastID (resumed_decode pr)
  refine hresumed.trans (toInt64_of_exact ⟨by omega, by omega⟩ (exact_of_abs_le ?_))
  rwa [abs_of_nonneg hpr]

omit [DecidableEq V] in
/-- The checkpoint is written. -/
theorem Standing.save (h : Standing S rows pr c s) {pr' : Progress} (hpr : 0 ≤ pr'.lastID)
    (hle : pr'.lastID ≤ c) (hexact : pr'.lastID ≤ 2 ^ 53) {id : Id} {state : State} :
    Standing S rows pr' c (S.after s (.saveCheckpoint id state pr'.checkpoint)) where
  column := h.column
  state := h.state
  executed := h.executed
  rows := h.rows
  nonneg := hpr
  le := hle
  stored_nonneg := (cursor_checkpoint hpr hexact).ge.trans' hpr
  stored_le := (cursor_checkpoint hpr hexact).le.trans hle

theorem guards_standing (h : Op.still op = true) (hs : Standing S rows pr c s)
    (hk : ∀ r t, S.answers s op r → Fair rows S s op r → Standing S rows pr c t →
      t = S.after s op → Guards S rows Q (k r) t) : Guards S rows Q (ask op >>= k) s :=
  guards_ask fun r hr hok =>
    have ht := hs.still (still_after S s h)
    ⟨ht.holds, hk r _ hr hok ht rfl⟩

/-- The batch is recorded. -/
theorem guards_backfillRecord {pr' : Progress} (hs : Standing S rows pr c s) (hpr : 0 ≤ pr'.lastID)
    (hle : pr'.lastID ≤ c) (hexact : pr'.lastID ≤ 2 ^ 53) (n : ℕ) :
    Guards S rows (fun x t => x = .again pr' ∧ Standing S rows pr' c t) (backfillRecord r n pr') s := by
  refine (guards_all_still (probing collectHealthMetrics_within) hs.holds).bind fun _ t ht => ?_
  refine guards_standing rfl (hs.still ht) fun _ t _ _ ht _ => ?_
  refine guards_standing rfl ht fun _ u _ _ hu _ => guards_ask ?_
  rintro _ rfl -
  have hsaved : Standing S rows pr' c (S.after u (.saveCheckpoint r.id .backfilling pr'.checkpoint)) :=
    hu.save hpr hle hexact
  refine ⟨hsaved.holds, guards_standing rfl hsaved fun pause v _ _ hv _ => ?_⟩
  split_ifs
  · refine guards_standing rfl hv ?_
    rintro _ w rfl - hw -
    exact ⟨rfl, hw⟩
  · exact ⟨rfl, hv⟩

/-- What a turn comes to: rows have been filled, or none were left. -/
def Turned (S : Site V) (rows : List (Row V)) (pr : Progress) (c : ℤ) : Turn → World V → Prop
  | .again pr', t => ∃ c', remaining rows c' < remaining rows c ∧ Standing S rows pr' c' t
  | .stop out, t => out = .ok { checkpoint := pr.checkpoint } ∧ (∀ r ∈ rows, r.id ≤ c) ∧
      Standing S rows pr c t

theorem guards_backfillAdvance {q : Row V} (hr : r.plan = S.plan.plan) (hfresh : Fresh S rows)
    (hq : q ∈ rows) (hlt : c < q.id) (hexact : q.id ≤ 2 ^ 53) (hb : pr.lastID ≤ c)
    (hs : Standing S rows pr q.id s) (n : ℕ) :
    Guards S rows (Turned S rows pr c) (backfillAdvance r n pr) s := by
  have hmax : maxId s.rows r.plan.backfill.column pr.lastID = q.id := by
    rw [hs.rows, hr]
    exact maxId_filled hfresh.null hfresh.value hq hs.nonneg (hb.trans_lt hlt)
  refine guards_standing rfl hs ?_
  rintro _ t rfl - ht -
  dsimp only
  rw [hmax, if_neg (not_le.mpr (hb.trans_lt hlt))]
  refine (guards_backfillRecord ht (hs.nonneg.trans hs.le) le_rfl hexact n).mono ?_
  rintro _ u ⟨rfl, hu⟩
  exact ⟨q.id, remaining_lt hq hlt, hu⟩

/-- **One turn of the loop**, wherever its cursor is below the rows that are filled. -/
theorem guards_backfillTurn (hr : r.plan = S.plan.plan) (hmulti : S.plan.plan.backfill.multiSQL = "")
    (hfresh : Fresh S rows) (hexact : ∀ q ∈ rows, q.id ≤ 2 ^ 53) (hs : Standing S rows pr c s) :
    Guards S rows (Turned S rows pr c) (backfillTurn r pr) s := by
  refine guards_standing rfl hs ?_
  rintro _ t rfl - ht -
  refine guards_standing rfl ht ?_
  rintro _ t' ⟨rfl, -⟩ - ht' -
  refine (guards_all_still updateHealth_still ht'.holds).bind fun _ u hu => ?_
  refine guards_standing rfl (ht'.still hu) ?_
  rintro _ v rfl - hv rfl
  rw [hr, batchStmt_single hmulti]
  refine guards_ask ?_
  rintro _ ⟨hnonneg, rfl⟩ hlimit
  set limit := u.throttle.currentBatchSize
  set w := S.after u .getBatchSize
  replace hlimit := hlimit.1
  rw [Favourable, hv.rows] at hlimit
  have hbatch : ∀ c', c ≤ c' → updateRows S.eval (upTo S rows c) S.plan.plan.backfill.column
      S.plan.plan.backfill.sourceExpr (selected (upTo S rows c) S.plan.plan.backfill.column
        pr.lastID limit) = upTo S rows c' →
      Standing S rows pr c' (S.after w (.updateBatch (.single S.plan.plan.table
        S.plan.plan.backfill.column S.plan.plan.backfill.sourceExpr) pr.lastID limit)) :=
    fun c' hc h => hv.batch hc (by rwa [hv.rows])
  have hsel := selected_upTo_of_le hfresh hv.le limit
  dsimp only
  by_cases hleft : ∃ q ∈ rows, c < q.id
  · obtain ⟨q, hq, hc⟩ := hleft
    have hpos : 0 < limit :=
      lt_of_le_of_ne hnonneg (Ne.symm (hlimit ⟨q, mem_filled_of_lt hq hc, hfresh.null q hq⟩))
    obtain ⟨q', hq', hc', hne, hupdate⟩ := hfresh.batch hpos hq hc
    rw [← hsel] at hne hupdate
    have hfilled := hbatch q'.id hc'.le hupdate
    refine ⟨hfilled.holds, ?_⟩
    rw [hv.rows, if_neg (countP_selected_eq_zero.not.mpr hne)]
    exact guards_backfillAdvance hr hfresh hq' hc' (hexact q' hq') hv.le hfilled _
  · have hdone : ∀ q ∈ rows, q.id ≤ c := fun q hq => not_lt.mp fun h => hleft ⟨q, hq, h⟩
    have hnone := hsel.trans (selected_upTo hdone)
    have hkept := hbatch c le_rfl (by rw [hnone, updateRows_nil])
    refine ⟨hkept.holds, ?_⟩
    rw [hv.rows, if_pos (countP_selected_eq_zero.mpr hnone)]
    exact ⟨rfl, hdone, hkept⟩

end Backfill

/-! ### From state to state -/

/-- At most so many stretches from the state on, the turns of the backfill included. -/
def ahead (rows : List (Row V)) : State → ℕ
  | .pending => rows.length + 9
  | .expanding => rows.length + 8
  | .backfilling => rows.length + 7
  | .verifying => 5
  | .canary => 4
  | .cutover => 3
  | .contracting | .rollingBack => 2
  | .done | .rolledBack => 1

/-- The stored state is that of the run, and at most `n` stretches are ahead. -/
def Ready (S : Site V) (rows : List (Row V)) (n : ℕ) : Pt → World V → Prop
  | .start, _ => rows.length + 10 ≤ n
  | .loop cur, s => s.state = cur ∧ ahead rows cur ≤ n
  | .batch r pr, s => r.plan = S.plan.plan ∧
      ∃ c, Standing S rows pr c s ∧ remaining rows c + 6 ≤ n

/-- **How a run ends.** -/
def Reaches (S : Site V) (rows : List (Row V)) : Fate → Exit → World V → Prop
  | .completes, x, t => x = .stop (.ok ()) ∧ t.state = .done ∧
      Followed S S.plan.plan.contract S.plan.plan.contract t.executed ∧ t.rows = backfilled S rows
  | .rollsBack, x, t => x = .stop (.ok ()) ∧ t.state = .rolledBack ∧
      Followed S S.plan.plan.rollback S.plan.plan.rollback t.executed
  | .pauses, x, t => (∃ step why, x = .stop (.error (.handler .canary (.breach step why .pause)))) ∧
      t.state = .canary ∧ Expanded S t.executed ∧ t.rows = backfilled S rows

omit [DecidableEq V] in
/-- Then nothing follows. -/
theorem Reaches.follows {f : Fate} {x : Exit} (h : Reaches S rows f x t) : follows x = none := by
  cases f with
  | completes =>
    obtain ⟨rfl, -⟩ := h
    rfl
  | rollsBack =>
    obtain ⟨rfl, -⟩ := h
    rfl
  | pauses =>
    obtain ⟨⟨step, why, rfl⟩, -⟩ := h
    rfl

/-- A stretch has come to the end, or nearer to it. -/
def Nearer (S : Site V) (rows : List (Row V)) (n : ℕ) (x : Exit) (t : World V) : Prop :=
  Reaches S rows (fate S.plan.plan) x t ∨ ∃ pt, x = .goto pt ∧ Ready S rows n pt t

section Loop
variable {cur dst : State} {delay : ℤ} {h : Record → Code Outcome}
  {P : Checkpoint → World V → Prop} {n : ℕ}

/-- A result is persisted. -/
theorem guards_finish {res : Result} (htarget : Result.target cur res = some dst)
    (hdst : ∀ t, t.state = dst → t.checkpoint = res.checkpoint → t.rows = s.rows →
      t.executed = s.executed → Stage S rows dst t) :
    Guards S rows (fun x t => x = .goto (.loop dst) ∧ t.state = dst)
      (finish delay S.id cur (.ok res)) s := by
  unfold finish
  dsimp only
  rw [htarget]
  refine guards_ask ?_
  rintro _ rfl -
  set t := S.after s (.saveState S.id cur dst res.checkpoint (isTerminal dst))
  have hstate : t.state = dst := rfl
  have ht : Holds S rows t := (hdst t hstate rfl rfl rfl).holds hstate
  refine ⟨ht, ?_⟩
  rw [if_pos rfl]
  unfold afterSave
  split_ifs
  · refine guards_still rfl ht ?_
    rintro _ u rfl - hu -
    exact ⟨rfl, hu.keeps.state⟩
  · exact ⟨rfl, hstate⟩

/-- Up to the reloaded record. -/
theorem guards_pass {Q : Exit → World V → Prop} (hh : handlers delay cur = some h)
    (hterm : isTerminal cur = false) (hs : Holds S rows s)
    (hrun : ∀ t r, Still s t → t.last = some (.load S.id) → r.plan = S.plan.plan →
      r.checkpoint = s.checkpoint.decode → Guards S rows Q (dispatch delay S.id cur h r) t) :
    Guards S rows Q (body delay S.id (.loop cur)) s := by
  unfold body
  dsimp only
  rw [hterm, if_neg Bool.false_ne_true]
  refine guards_still rfl hs ?_
  rintro _ t rfl - ht -
  rw [if_neg Bool.false_ne_true, hh]
  refine guards_still rfl (hs.still ht) ?_
  rintro _ u rfl - hu hlast
  refine hrun u _ (ht.trans hu) hlast rfl ?_
  rw [← ht.checkpoint]
  rfl

/-- **One pass, with a handler that returns.** -/
theorem guards_loop (hh : handlers delay cur = some h) (hnext : next cur = some dst)
    (hskip : cur = .backfilling → S.plan.plan.backfill.column = "") (hs : Holds S rows s)
    (hrun : ∀ t r, Still s t → t.last = some (.load S.id) → r.plan = S.plan.plan →
      Guards S rows (fun out u => ∃ c, out = .ok { checkpoint := c } ∧ P c u) (h r) t)
    (hdst : ∀ c u t, P c u → t.checkpoint = c → t.rows = u.rows → t.executed = u.executed →
      Stage S rows dst t) (hn : ahead rows dst ≤ n) :
    Guards S rows (Nearer S rows n) (body delay S.id (.loop cur)) s := by
  have hterm : isTerminal cur = false := by
    cases cur <;> first | rfl | cases hnext
  refine guards_pass hh hterm hs fun t r ht hlast hr _ => ?_
  unfold dispatch
  rw [if_neg fun hcond => hcond.2 (hr ▸ hskip hcond.1)]
  refine (hrun t r ht hlast hr).bind ?_
  rintro _ u ⟨c, rfl, hu⟩
  have htarget : Result.target cur { checkpoint := c } = some dst := hnext
  refine (guards_finish htarget fun v _ hc hrows hexec => hdst c u v hu hc hrows hexec).mono ?_
  rintro _ v ⟨rfl, hv⟩
  exact Or.inr ⟨_, rfl, hv, hn⟩

/-- A gate, or any handler that only looks. -/
theorem guards_gate (hh : handlers delay cur = some h) (hnext : next cur = some dst)
    (hne : cur ≠ .backfilling) (hs : Holds S rows s) (hcur : s.state = cur)
    (hidle : ∀ r, (h r).All (fun op => Op.idle op = true) fun _ => True)
    (hends : ∀ t r, Keeps s t → t.last = some (.load S.id) → r.plan = S.plan.plan →
      Ends S (Fair rows) (Passes t) (h r) t)
    (hdst : ∀ t, t.rows = s.rows → t.executed = s.executed → Stage S rows dst t)
    (hn : ahead rows dst ≤ n) : Guards S rows (Nearer S rows n) (body delay S.id (.loop cur)) s := by
  refine guards_loop (P := fun _ u => Keeps s u) hh hnext (fun heq => absurd heq hne) hs
    (fun t r ht hlast hr => ?_) (fun c u t hu _ hrows hexec => ?_) hn
  · have hstate : t.state ≠ .backfilling := by rwa [ht.keeps.state, hcur]
    refine (guards_all_idle (hidle r) (hs.still ht) hstate (hends t r ht.keeps hlast hr)).mono ?_
    rintro _ u ⟨⟨c, rfl⟩, hu⟩
    exact ⟨c, rfl, ht.keeps.trans hu⟩
  · exact hdst t (hrows.trans hu.rows) (hexec.trans (executed_eq hu))

end Loop

/-! ### The run -/

section Run
variable {delay : ℤ} {n : ℕ}

omit [DecidableEq V] in
theorem backfilled_of_empty (hcol : S.plan.plan.backfill.column = "") : backfilled S rows = rows :=
  if_pos hcol

omit [DecidableEq V] in
/-- Filled up to the last row. -/
theorem upTo_eq_backfilled (hcol : S.plan.plan.backfill.column ≠ "") {c : ℤ}
    (hdone : ∀ r ∈ rows, r.id ≤ c) : upTo S rows c = backfilled S rows := by
  unfold upTo filled backfilled
  rw [if_neg hcol]
  exact List.map_congr_left fun r hr => if_pos (hdone r hr)

omit [DecidableEq V] in
theorem full_backfilled (hexact : ∀ r ∈ rows, r.id ≤ 2 ^ 53) : Full S rows (backfilled S rows) :=
  fun hcol => ⟨2 ^ 53, hexact, (upTo_eq_backfilled hcol hexact).symm⟩

theorem idle_of_canaryKinds {op : Op} (h : op.kind ∈ canaryKinds) : Op.idle op = true := by
  cases op <;> first | rfl | simp [canaryKinds, Op.kind] at h

theorem canary_idle (r : Record) :
    (canary delay r).All (fun op => Op.idle op = true) fun _ => True :=
  Prog.All.mono (canary_within delay r) (fun _ => idle_of_canaryKinds) fun _ h => h

theorem verify_idle (r : Record) : (verify r).All (fun op => Op.idle op = true) fun _ => True := by
  simp [verify, verifySample, skipped, Option.forall, Op.idle]

theorem cutover_idle (r : Record) : (cutover r).All (fun op => Op.idle op = true) fun _ => True := by
  have hgate : (serviceGate r.id).All (fun op => Op.idle op = true) fun _ => True := by
    simp [serviceGate, Option.forall, Op.idle]
  refine hgate.bind fun why _ => ?_
  cases why with
  | some why => trivial
  | none => simp [cutoverGate, Option.forall, Op.idle]

theorem guards_pending (hs : Holds S rows s) (hcur : s.state = .pending)
    (hn : ahead rows .expanding ≤ n) :
    Guards S rows (Nearer S rows n) (body delay S.id (.loop .pending)) s := by
  obtain ⟨hexec, hrows⟩ : Stage S rows .pending s := hs.stage hcur
  refine guards_gate rfl rfl State.noConfusion hs hcur (fun _ => trivial)
    (fun t _ _ _ _ => ⟨⟨_, rfl⟩, Keeps.refl t⟩) (fun t htrows htexec => ?_) hn
  exact ⟨by rw [htexec, hexec]; exact Tried.nil, htrows.trans hrows⟩

theorem guards_expanding (hids : ∀ r ∈ rows, 0 < r.id) (hs : Holds S rows s)
    (hcur : s.state = .expanding) (hn : ahead rows .backfilling ≤ n) :
    Guards S rows (Nearer S rows n) (body delay S.id (.loop .expanding)) s := by
  obtain ⟨htried, hrows⟩ : Stage S rows .expanding s := hs.stage hcur
  refine guards_loop (P := fun c u => c = [("expanded", .int S.plan.plan.expand.length)] ∧
    Sent S.plan.plan.expand s u) rfl rfl (fun heq => nomatch heq) hs (fun t r ht _ hr => ?_) ?_ hn
  · have hstate := ht.keeps.state.trans hcur
    unfold expand
    rw [hr]
    refine (guards_runStmts (secure_expanding hstate (hs.still ht)) (Or.inl (Or.inl hstate))).mono ?_
    rintro _ u ⟨rfl, hu⟩
    exact ⟨_, rfl, rfl, ht.keeps.trans hu⟩
  · rintro c u t ⟨rfl, hu⟩ hcheck htrows htexec
    have hcursor : cursor t = 0 := by
      unfold cursor
      rw [hcheck]
      rfl
    have hsame : t.rows = rows := htrows.trans (hu.rows.trans hrows)
    refine ⟨⟨s.executed, htried, htexec.trans hu.executed⟩, fun _ => hsame, fun _ => ⟨0, ?_, ?_⟩⟩
    · exact hsame.trans (filled_of_lt hids).symm
    · rw [hcursor]
      exact ⟨le_rfl, le_rfl⟩

/-- The backfill is skipped, or its loop starts where the checkpoint says. -/
theorem guards_backfilling (hs : Holds S rows s) (hcur : s.state = .backfilling)
    (hn : rows.length + 6 ≤ n) :
    Guards S rows (Nearer S rows n) (body delay S.id (.loop .backfilling)) s := by
  obtain ⟨hexpanded, hempty, hcolumn⟩ : Stage S rows .backfilling s := hs.stage hcur
  by_cases hcol : S.plan.plan.backfill.column = ""
  · refine guards_loop (P := fun _ u => Keeps s u) rfl rfl (fun _ => hcol) hs
      (fun t r ht _ _ => ⟨_, rfl, ht.keeps⟩) (fun c u t hu _ hrows hexec => ?_)
      ((Nat.le_add_left 5 (rows.length + 1)).trans hn)
    refine ⟨by rw [hexec, executed_eq hu]; exact hexpanded, ?_⟩
    rw [backfilled_of_empty hcol, hrows, hu.rows, hempty hcol]
  · obtain ⟨c, hrows, hnonneg, hle⟩ := hcolumn hcol
    have hstand : Standing S rows ⟨cursor s, 0, 0⟩ c s :=
      ⟨hcol, hcur, hexpanded, hrows, hnonneg, hle, hnonneg, hle⟩
    refine guards_pass rfl rfl hs fun t r ht _ hr hcheck => ?_
    unfold dispatch
    rw [if_pos ⟨rfl, hr ▸ hcol⟩]
    refine guards_still rfl (hs.still ht) fun _ u _ _ hu _ => guards_still rfl (hs.still (ht.trans hu)) ?_
    rintro _ v rfl - hv -
    have hv := hstand.still (ht.trans (hu.trans hv))
    refine Or.inr ⟨_, rfl, hr, c, { hv with nonneg := ?_, le := ?_ }, ?_⟩
    · rw [hcheck]
      exact hnonneg
    · rw [hcheck]
      exact hle
    · exact (Nat.add_le_add_right List.countP_le_length 6).trans hn

theorem guards_batch (h : Solid S rows) {r : Record} {pr : Progress}
    (hready : Ready S rows (n + 1) (.batch r pr) s) :
    Guards S rows (Nearer S rows n) (body delay S.id (.batch r pr)) s := by
  obtain ⟨hr, c, hs, hn⟩ := hready
  refine (guards_backfillTurn hr h.multiSQL (h.fresh hs.column) h.exact hs).bind fun x t hx => ?_
  cases x with
  | again pr' =>
    obtain ⟨c', hlt, ht⟩ := hx
    exact Or.inr ⟨_, rfl, hr, c', ht, by omega⟩
  | stop out =>
    obtain ⟨rfl, hdone, ht⟩ := hx
    have htarget : Result.target .backfilling { checkpoint := pr.checkpoint } = some .verifying := rfl
    refine (guards_finish htarget fun u _ _ hrows hexec => ?_).mono ?_
    · refine ⟨by rw [hexec]; exact ht.executed, ?_⟩
      rw [hrows, ht.rows, upTo_eq_backfilled ht.column hdone]
    · rintro _ u ⟨rfl, hu⟩
      exact Or.inr ⟨_, rfl, hu, (Nat.le_add_left 5 (remaining rows c)).trans (Nat.le_of_succ_le_succ hn)⟩

theorem guards_contracting (hs : Holds S rows s) (hcur : s.state = .contracting) (hn : 1 ≤ n) :
    Guards S rows (Nearer S rows n) (body delay S.id (.loop .contracting)) s := by
  obtain ⟨hfate, hfollowed, hrows⟩ : Stage S rows .contracting s := hs.stage hcur
  refine guards_loop (P := fun _ u => Sent S.plan.plan.contract s u) rfl rfl (fun heq => nomatch heq) hs
    (fun t r ht _ hr => ?_) (fun c u t hu _ htrows htexec => ?_) hn
  · have hstate := ht.keeps.state.trans hcur
    unfold contract
    rw [hr]
    refine (guards_runStmts (secure_contracting hstate (hs.still ht)) (Or.inl (Or.inr hstate))).mono ?_
    rintro _ u ⟨rfl, hu⟩
    exact ⟨_, rfl, ht.keeps.trans hu⟩
  · exact ⟨hfate, htexec ▸ hfollowed.sent hu, htrows.trans (hu.rows.trans hrows)⟩

theorem guards_rollingBack (hs : Holds S rows s) (hcur : s.state = .rollingBack) (hn : 1 ≤ n) :
    Guards S rows (Nearer S rows n) (body delay S.id (.loop .rollingBack)) s := by
  obtain ⟨hfate, hfollowed⟩ : Stage S rows .rollingBack s := hs.stage hcur
  refine guards_loop (P := fun _ u => Sent S.plan.plan.rollback s u) rfl rfl (fun heq => nomatch heq) hs
    (fun t r ht _ hr => ?_) (fun c u t hu _ _ htexec => ?_) hn
  · have hstate := ht.keeps.state.trans hcur
    refine (guards_rollback hr (secure_rollingBack hstate (hs.still ht)) (Or.inr hstate)).mono ?_
    rintro _ u ⟨c, rfl, hu⟩
    exact ⟨c, rfl, ht.keeps.trans hu⟩
  · exact ⟨hfate, htexec ▸ hfollowed.sent hu⟩

/-- The canary leads on, into a rollback, or nowhere. -/
theorem guards_canary (hs : Holds S rows s) (hcur : s.state = .canary) (hn : 3 ≤ n) :
    Guards S rows (Nearer S rows n) (body delay S.id (.loop .canary)) s := by
  obtain ⟨hexpanded, hrows⟩ : Stage S rows .canary s := hs.stage hcur
  refine guards_pass rfl rfl hs fun t r ht hlast hr _ => ?_
  unfold dispatch
  rw [if_neg fun hcond => nomatch hcond.1]
  have hstate := ht.keeps.state.trans hcur
  refine (guards_all_idle (canary_idle r) (hs.still ht) (hstate.trans_ne State.noConfusion)
    (ends_canary_judged hr hstate hlast)).bind fun out u hu => ?_
  obtain ⟨hout, hu⟩ := hu
  have hexec : Expanded S u.executed := by
    rw [executed_eq hu, executed_eq ht.keeps]
    exact hexpanded
  have hsame : u.rows = backfilled S rows := (hu.rows.trans ht.keeps.rows).trans hrows
  unfold Judged at hout
  cases hfate : fate S.plan.plan with
  | completes =>
    rw [hfate] at hout
    obtain ⟨c, rfl⟩ := hout
    have htarget : Result.target .canary { checkpoint := c } = some .cutover := rfl
    refine (guards_finish htarget fun v _ _ hvrows hvexec =>
      ⟨hfate, hvexec ▸ hexec, hvrows.trans hsame⟩).mono ?_
    rintro _ v ⟨rfl, hv⟩
    exact Or.inr ⟨_, rfl, hv, hn⟩
  | rollsBack =>
    rw [hfate] at hout
    obtain ⟨c, rfl⟩ := hout
    have htarget : Result.target .canary { checkpoint := c, next := some .rollingBack } =
        some .rollingBack := rfl
    refine (guards_finish htarget fun v _ _ _ hvexec =>
      ⟨hfate, hvexec ▸ hexec.followed _⟩).mono ?_
    rintro _ v ⟨rfl, hv⟩
    exact Or.inr ⟨_, rfl, hv, (Nat.le_succ 2).trans hn⟩
  | pauses =>
    rw [hfate] at hout
    obtain ⟨step, why, rfl⟩ := hout
    refine Or.inl ?_
    rw [hfate]
    exact ⟨⟨step, why, rfl⟩, hu.state.trans hstate, hexec, hsame⟩

/-- **A stretch of a run keeps the invariant and comes nearer to the end.** -/
theorem guards_body (h : Solid S rows) {pt : Pt} (hs : Holds S rows s)
    (hready : Ready S rows (n + 1) pt s) :
    Guards S rows (Nearer S rows n) (body delay S.id pt) s := by
  have hone := threshold_le_one h.parityThreshold h.minParity
  have hfull := full_backfilled (S := S) h.exact
  cases pt with
  | start =>
    refine guards_still rfl hs ?_
    rintro _ t rfl - ht -
    refine Or.inr ⟨_, rfl, ht.keeps.state, ?_⟩
    have hle : ahead rows s.state ≤ rows.length + 9 := by
      cases s.state <;> simp only [ahead] <;> omega
    exact hle.trans (Nat.le_of_succ_le_succ hready)
  | batch r pr => exact guards_batch h hready
  | loop cur =>
    obtain ⟨hcur, hn⟩ := hready
    have hstage := hs.stage hcur
    cases cur with
    | pending => exact guards_pending hs hcur (Nat.le_of_succ_le_succ hn)
    | expanding => exact guards_expanding h.ids hs hcur (Nat.le_of_succ_le_succ hn)
    | backfilling => exact guards_backfilling hs hcur (Nat.le_of_succ_le_succ hn)
    | verifying =>
      refine guards_gate rfl rfl State.noConfusion hs hcur verify_idle (fun t r ht _ hr => ?_)
        (fun t hrows hexec => ⟨hexec ▸ hstage.1, hrows.trans hstage.2⟩)
        (Nat.le_of_succ_le_succ hn)
      rw [← hstage.2, ← ht.rows] at hfull
      exact Ends.fair (ends_verify hr hone h.fresh hfull)
    | canary => exact guards_canary hs hcur (Nat.le_of_succ_le_succ hn)
    | cutover =>
      obtain ⟨hfate, hexpanded, hrows⟩ := hstage
      refine guards_gate rfl rfl State.noConfusion hs hcur cutover_idle (fun t r ht _ hr => ?_)
        (fun t htrows hexec => ⟨hfate, hexec ▸ hexpanded.followed _, htrows.trans hrows⟩)
        (Nat.le_of_succ_le_succ hn)
      rw [← hrows, ← ht.rows] at hfull
      exact Ends.fair (ends_cutover hr hone h.fresh hfull)
    | contracting => exact guards_contracting hs hcur (Nat.le_of_succ_le_succ hn)
    | rollingBack => exact guards_rollingBack hs hcur (Nat.le_of_succ_le_succ hn)
    | done =>
      obtain ⟨hfate, hfollowed, hrows⟩ := hstage
      refine Or.inl ?_
      rw [hfate]
      exact ⟨rfl, hcur, hfollowed, hrows⟩
    | rolledBack =>
      obtain ⟨hfate, hfollowed⟩ := hstage
      refine Or.inl ?_
      rw [hfate]
      exact ⟨rfl, hcur, hfollowed⟩

omit [DecidableEq V] in
theorem Ready.mono {pt : Pt} {m : ℕ} (h : Ready S rows n pt s) (hm : n ≤ m) : Ready S rows m pt s := by
  cases pt with
  | start => exact le_trans h hm
  | loop cur => exact ⟨h.1, h.2.trans hm⟩
  | batch r pr =>
    obtain ⟨hr, c, hs, hn⟩ := h
    exact ⟨hr, c, hs, hn.trans hm⟩

omit [DecidableEq V] in
/-- Something is always ahead. -/
theorem Ready.pos {pt : Pt} (h : Ready S rows n pt s) : ∃ m, n = m + 1 := by
  refine Nat.exists_eq_add_one.mpr ?_
  cases pt with
  | start => exact (Nat.succ_pos _).trans_le h
  | loop cur => exact (by cases cur <;> exact Nat.succ_pos _ : 0 < ahead rows cur).trans_le h.2
  | batch r pr =>
    obtain ⟨-, c, -, hn⟩ := h
    exact (Nat.succ_pos _).trans_le hn

end Run

/-! ### Crashes -/

/-- **Runs with crashes**: at any time a new run may start in place of the one at work. -/
abbrev Crashing (S : Site V) (rows : List (Row V)) (delay : ℤ) :
    Machine engine (World V) Exit → List (Move engine Unit Pt) → Machine engine (World V) Exit → Prop :=
  Path (Step (S.Moves (Fair rows)) (fun _ pt => pt = .start) (body delay S.id) follows)

section Crashes
variable {delay : ℤ} {n : ℕ} {as : List (Move engine Unit Pt)} {m : Machine engine (World V) Exit}

/-- From every such point the run ends. -/
theorem terminates_of_ready (h : Solid S rows) {pt : Pt} (hs : Holds S rows s)
    (hready : Ready S rows n pt s) :
    Terminates (S.Moves (Fair rows)) (Reaches S rows (fate S.plan.plan)) (body delay S.id) follows n pt s := by
  induction n generalizing pt s with
  | zero => exact absurd hready.pos (by simp)
  | succ n ih =>
    refine terminates_of_wp ((guards_body h hs hready).holds hs).free ?_
    rintro x t ⟨hx | ⟨pt', rfl, hready'⟩, ht⟩
    · exact Or.inl ⟨hx.follows, hx⟩
    · exact Or.inr ⟨pt', rfl, ih ht hready'⟩

/-- No crash breaks the invariant. -/
theorem holds_of_crashing (h : Solid S rows)
    (hrun : Crashing S rows delay ⟨World.init rows, none⟩ as m) : Holds S rows m.world := by
  refine (machine_inv (C := fun s x => Holds S rows (S.after s x.1.op)) (I := Holds S rows)
    (J := fun pt s => ∃ n, Ready S rows n pt s) ?_ ?_ ?_ hrun (sound_idle holds_init)).world
  · rintro s x t - ⟨-, -, rfl⟩ hC
    exact hC
  · rintro s _ - rfl
    exact ⟨_, le_rfl⟩
  · rintro pt s hs ⟨n, hready⟩
    obtain ⟨n, rfl⟩ := hready.pos
    refine (guards_body h hs hready).mono ?_
    rintro x t (hx | ⟨pt', rfl, hready'⟩) p hp
    · exact absurd (hx.follows.symm.trans hp) (by simp)
    · cases hp
      exact ⟨n, hready'⟩

end Crashes

/-! ### One such run -/

/-- The operations of a run with nothing to backfill, up to the cutover. -/
def early : Op → Bool
  | .updateBatch .. | .sampleParity .. | .fullParity .. | .serviceCounts _ => false
  | _ => true

/-- Their answers, as `answer` has them. -/
def reply (S : Site V) (op : Op) (s : World V) : Option (op.Ret × World V) :=
  if early op then respond S op s else none

theorem fair_of_answer (hslo : 0 < S.plan.plan.slo.maxP99LatencyMs) {r : op.Ret}
    (hop : early op = true) (h : answer S s op = some r) : Fair rows S s op r := by
  cases op with
  | replicationLag =>
    cases h
    refine ⟨fun _ hle => absurd hslo (not_lt.mpr hle), ?_⟩
    rintro - lag ⟨⟩
    unfold Safe
    decide +kernel
  | lockWaiting =>
    cases h
    refine ⟨trivial, ?_⟩
    rintro - n ⟨⟩
    decide
  | updateBatch => cases hop
  | sampleParity => cases hop
  | fullParity => cases hop
  | serviceCounts => cases hop
  | _ => exact ⟨trivial, trivial⟩

theorem moves_of_reply (hslo : 0 < S.plan.plan.slo.maxP99LatencyMs) {r : op.Ret}
    (h : reply S op s = some (r, t)) : ∃ i, S.Moves (Fair rows) s (⟨op, r⟩, i) t := by
  obtain ⟨hop, h⟩ := Option.ite_none_right_eq_some.mp h
  obtain ⟨r', hans, heq⟩ := Option.map_eq_some_iff.mp h
  cases heq
  exact ⟨(), answers_of_answer hans, fair_of_answer hslo hop hans, rfl⟩

/-- A plan whose canary breaches at the first step. -/
def breachingSite : Site ℕ :=
  { siteOf 1 with plan := ⟨breachingPlan.prepare.withDefaults, accepted_breachingPlan⟩ }

theorem solid_breachingSite : Solid breachingSite twoRows where
  multiSQL := rfl
  parityThreshold := by
    show breachingPlan.prepare.withDefaults.verify.parityThreshold.val ≤ 1
    decide +kernel
  minParity := by
    show breachingPlan.prepare.withDefaults.slo.minParity.val ≤ 1
    decide +kernel
  ids := by decide
  exact := by decide
  fresh := fun hcol => absurd rfl hcol

end MigrationSafety.StateMachine.Recovery
