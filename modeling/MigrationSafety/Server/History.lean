import MigrationSafety.Server.Drivers
import MigrationSafety.StateMachine.Outcomes

/-! # The history of a migration

`Known` is what the stored state of a migration says about its history: which handlers have left
which events behind. Every step keeps it while no step hands the migration to a second worker and no
abort cuts into its work (`Orderly`).

* `contract_gated`: a Contract statement is sent only after every Expand statement, a canary without
  a breach and a cutover that has measured the whole table, and never beside a Rollback statement.
* `rolledBack_means`: a migration in `RolledBack` has been rolled back. -/

namespace MigrationSafety.Server.History

open MigrationSafety.Lib.Effects MigrationSafety.Lib.Paths
open MigrationSafety.Plan.Validate
open MigrationSafety.StateMachine.Signature MigrationSafety.StateMachine.Handlers
open MigrationSafety.StateMachine.Run MigrationSafety.StateMachine.Outcomes
open MigrationSafety.StateMachine.Trace (Ask Done NoSave Op.isSave body_spec sending_body Pt.sends)
open MigrationSafety.Server.Migrations MigrationSafety.Server.System MigrationSafety.Server.Steps
open MigrationSafety.Server.Drivers (OneDriver)

variable {n : ℕ} {delay : ℤ} {e e' : Engine n} {a : Act n} {w w' : Fin n} {m : Id}

/-- The operations of the runs of `m`, oldest first. -/
def hist (e : Engine n) (m : Id) : List (Entry n) := e.log.filter fun x => x.id = m

/-! ### What a history shows -/

section Facts
variable {p : MigrationPlan} {h new : List (Entry n)} {s src dst : State}
  {P : List (Event engine) → Prop}

/-- The handler of `s` has sent a statement to the target. -/
def Sends (s : State) (x : Entry n) : Prop := x.state = some s ∧ x.event.op.attempts ≠ none

/-- An invocation of the handler of `s` has left events that meet `P`. -/
def Left (s : State) (P : List (Event engine) → Prop) (h : List (Entry n)) : Prop :=
  ∃ l t l', h = l ++ t ++ l' ∧ (∀ x ∈ t, x.state = some s) ∧ P (t.map Entry.event)

/-- Every Expand statement has succeeded, in order. -/
def Expanded (p : MigrationPlan) (h : List (Entry n)) : Prop :=
  Left .expanding (fun t => applied t = p.expand) h

/-- A canary has observed every step without a breach. -/
def Canaried (delay : ℤ) (m : Id) (p : MigrationPlan) (h : List (Entry n)) : Prop :=
  Left .canary (Observed delay m p) h

/-- After such a canary, a cutover has measured the whole table. -/
def Committed (delay : ℤ) (m : Id) (p : MigrationPlan) (h : List (Entry n)) : Prop :=
  ∃ l l', h = l ++ l' ∧ Canaried delay m p l ∧
    (p.backfill.column = "" ∨ Left .cutover (fun t => ∃ ev ∈ t, Measured p ev) l')

/-- **Every Rollback statement has succeeded, in order**, and no Expand statement is sent after. -/
def RolledBack (p : MigrationPlan) (h : List (Entry n)) : Prop :=
  ∃ l t l', h = l ++ t ++ l' ∧ (∀ x ∈ t, x.state = some .rollingBack) ∧
    applied (t.map Entry.event) = p.rollback ∧ ∀ x ∈ l', ¬Sends .expanding x

/-- **What the stored state says about the history.** -/
def Known (delay : ℤ) (m : Id) (p : MigrationPlan) (h : List (Entry n)) : State → Prop
  | .pending | .expanding | .rollingBack => True
  | .backfilling | .verifying | .canary => Expanded p h
  | .cutover => Expanded p h ∧ Canaried delay m p h
  | .contracting | .done => Expanded p h ∧ Committed delay m p h
  | .rolledBack => RolledBack p h

theorem Left.append (hl : Left s P h) (new : List (Entry n)) : Left s P (h ++ new) := by
  obtain ⟨l, t, l', rfl, ht, hP⟩ := hl
  exact ⟨l, t, l' ++ new, by simp, ht, hP⟩

theorem Left.last {t0 t : List (Event engine)} {w : Fin n} {task : Task}
    (hs : task.pt.state = some s) (hP : P t) (l : List (Entry n)) :
    Left s P (l ++ (t0 ++ t).map (entry w task)) := by
  refine ⟨l ++ t0.map (entry w task), t.map (entry w task), [], by simp, fun x hx => ?_, ?_⟩
  · obtain ⟨ev, -, rfl⟩ := List.mem_map.mp hx
    exact hs
  · rw [List.map_map]
    exact (List.map_id t).symm ▸ hP

theorem Expanded.append (he : Expanded p h) (new : List (Entry n)) : Expanded p (h ++ new) :=
  Left.append he new

theorem Canaried.append (hc : Canaried delay m p h) (new : List (Entry n)) :
    Canaried delay m p (h ++ new) := Left.append hc new

theorem Committed.append (hc : Committed delay m p h) (new : List (Entry n)) :
    Committed delay m p (h ++ new) := by
  obtain ⟨l, l', rfl, hl, hl'⟩ := hc
  exact ⟨l, l' ++ new, by simp, hl, hl'.imp_right fun hl' => hl'.append new⟩

/-- More history does no harm, as long as nothing is expanded after a rollback. -/
theorem Known.append (hk : Known delay m p h s)
    (hnew : s = .rolledBack → ∀ x ∈ new, ¬Sends .expanding x) : Known delay m p (h ++ new) s := by
  cases s with
  | pending | expanding | rollingBack => trivial
  | backfilling | verifying | canary => exact Expanded.append hk new
  | cutover => exact ⟨hk.1.append new, hk.2.append new⟩
  | contracting | done => exact ⟨hk.1.append new, hk.2.append new⟩
  | rolledBack =>
    obtain ⟨l, t, l', rfl, ht, hr, hl'⟩ := hk
    refine ⟨l, t, l' ++ new, by simp, ht, hr, fun x hx => ?_⟩
    rcases List.mem_append.mp hx with hx | hx
    · exact hl' x hx
    · exact hnew rfl x hx

/-- **A handler that leads from one state to the next leaves what the next state says.** -/
theorem Known.advance {t0 t : List (Event engine)} {w : Fin n} {task : Task} {l : List (Entry n)}
    (hk : Known delay m p l src) (hs : task.pt.state = some src) (ha : Advance delay m p t src dst) :
    Known delay m p (l ++ (t0 ++ t).map (entry w task)) dst := by
  cases ha with
  | started => trivial
  | expanded happ =>
    show Expanded p _
    exact Left.last hs happ l
  | backfilled => exact Expanded.append hk _
  | verified => exact Expanded.append hk _
  | observed ho => exact ⟨Expanded.append hk _, Left.last hs ho l⟩
  | committed hm =>
    obtain ⟨hexp, hcan⟩ := hk
    refine ⟨hexp.append _, l, (t0 ++ t).map (entry w task), rfl, hcan, hm.imp_right fun hm => ?_⟩
    exact Left.last hs hm []
  | contracted => exact ⟨hk.1.append _, hk.2.append _⟩
  | diverted _ => trivial
  | rolledBack happ =>
    refine ⟨l ++ t0.map (entry w task), t.map (entry w task), [], by simp, fun x hx => ?_, ?_, by simp⟩
    · obtain ⟨ev, -, rfl⟩ := List.mem_map.mp hx
      exact hs
    · rw [List.map_map]
      exact (List.map_id t).symm ▸ happ

end Facts

/-! ### The history and the position -/

/-- What the position of a migration and its history have to do with each other. -/
structure Sound (delay : ℤ) (m : Id) (o : Option Pos) (h : List (Entry n)) : Prop where
  known : ∀ p, o = some p → Known delay m p.plan.plan h p.state
  contract : ∀ x ∈ h, Sends .contracting x →
    ∃ p, o = some p ∧ (p.state = .contracting ∨ p.state = .done)
  rollback : ∀ x ∈ h, Sends .rollingBack x →
    ∃ p, o = some p ∧ (p.state = .rollingBack ∨ p.state = .rolledBack)
  gated : ∀ l x l', h = l ++ x :: l' → Sends .contracting x →
    ∃ p, o = some p ∧ Expanded p.plan.plan l ∧ Committed delay m p.plan.plan l

section Sound
variable {o o' : Option Pos} {h l : List (Entry n)} {p : Pos} {src dst : State} {terminal : Bool}

theorem sound_nil (delay : ℤ) (m : Id) : Sound delay m none ([] : List (Entry n)) :=
  ⟨by simp, by simp, by simp, by simp⟩

/-- An entry that sends something does so from the stored state. -/
theorem Sound.append (hs : Sound delay m o h) {x : Entry n}
    (hx : ∀ s, Sends s x → ∃ p, o = some p ∧ p.state = s) : Sound delay m o (h ++ [x]) := by
  refine ⟨fun p hp => (hs.known p hp).append ?_, ?_, ?_, ?_⟩
  · intro hst y hy hsend
    rw [List.mem_singleton.mp hy] at hsend
    obtain ⟨p', hp', hst'⟩ := hx _ hsend
    cases hp.symm.trans hp'
    cases hst.symm.trans hst'
  · intro y hy hsend
    rcases List.mem_append.mp hy with hy | hy
    · exact hs.contract y hy hsend
    · rw [List.mem_singleton.mp hy] at hsend
      obtain ⟨p, hp, hst⟩ := hx _ hsend
      exact ⟨p, hp, Or.inl hst⟩
  · intro y hy hsend
    rcases List.mem_append.mp hy with hy | hy
    · exact hs.rollback y hy hsend
    · rw [List.mem_singleton.mp hy] at hsend
      obtain ⟨p, hp, hst⟩ := hx _ hsend
      exact ⟨p, hp, Or.inl hst⟩
  · intro l y l' heq hsend
    rcases l'.eq_nil_or_concat with rfl | ⟨l'', z, rfl⟩
    · -- the new entry: the stored state is `Contracting`
      obtain ⟨rfl, hxy⟩ := List.append_inj' heq rfl
      cases hxy
      obtain ⟨p, hp, hst⟩ := hx _ hsend
      have hk := hs.known p hp
      rw [hst] at hk
      exact ⟨p, hp, hk⟩
    · rw [List.concat_eq_append, ← List.cons_append, ← List.append_assoc] at heq
      obtain ⟨heq, -⟩ := List.append_inj' heq rfl
      exact hs.gated l y l'' heq hsend

/-- The position moves to a state that says no more than the history shows. -/
theorem Sound.move (hs : Sound delay m (some p) h) (hk : Known delay m p.plan.plan h dst)
    (hc : ∀ x ∈ h, Sends .contracting x → dst = .contracting ∨ dst = .done)
    (hr : ∀ x ∈ h, Sends .rollingBack x → dst = .rollingBack ∨ dst = .rolledBack) :
    Sound delay m (some (p.moveTo dst terminal)) h := by
  refine ⟨?_, fun x hx hsend => ⟨_, rfl, hc x hx hsend⟩, fun x hx hsend => ⟨_, rfl, hr x hx hsend⟩,
    fun l x l' heq hsend => ?_⟩
  · rintro _ ⟨⟩
    exact hk
  · obtain ⟨_, ⟨⟩, hg⟩ := hs.gated l x l' heq hsend
    exact ⟨_, rfl, hg⟩

/-- A new migration. -/
theorem Sound.created (hs : Sound delay m none h) (vp : ValidPlan) :
    Sound delay m (some ⟨vp, .pending, false⟩) h := by
  refine ⟨?_, fun x hx hsend => ?_, fun x hx hsend => ?_, fun l x l' heq hsend => ?_⟩
  · rintro _ ⟨⟩
    trivial
  · obtain ⟨_, ⟨⟩, -⟩ := hs.contract x hx hsend
  · obtain ⟨_, ⟨⟩, -⟩ := hs.rollback x hx hsend
  · obtain ⟨_, ⟨⟩, -⟩ := hs.gated l x l' heq hsend

/-- An advance leaves `Contracting` for `Done` only, and `RollingBack` for `RolledBack`. -/
theorem Sound.advance {t0 t : List (Event engine)} {task : Task}
    (hs : Sound delay m (some p) h) (hl : h = l ++ (t0 ++ t).map (entry w task))
    (hk : Known delay m p.plan.plan l p.state) (hpt : task.pt.state = some p.state)
    (ha : Advance delay m p.plan.plan t p.state dst) :
    Sound delay m (some (p.moveTo dst terminal)) h := by
  refine hs.move (hl ▸ hk.advance hpt ha) (fun x hx hsend => ?_) fun x hx hsend => ?_
  · obtain ⟨_, ⟨⟩, hst⟩ := hs.contract x hx hsend
    rcases hst with hst | hst <;> rw [hst] at ha <;> cases ha <;> simp at *
  · obtain ⟨_, ⟨⟩, hst⟩ := hs.rollback x hx hsend
    rcases hst with hst | hst <;> rw [hst] at ha <;> cases ha <;> simp at *

end Sound

/-! ### The worker of a migration -/

/-- The worker is in a stretch of its run, its events are the last of the history, and what it has
loaded and saved is the stored position. -/
structure Placed (delay : ℤ) (m : Id) (o : Option Pos) (h : List (Entry n)) (w : Fin n) (t : Task)
    (l : List (Entry n)) (tr : List (Event engine)) : Prop where
  after : After (body delay t.id t.pt) tr t.code
  last : h = l ++ tr.map (entry w t)
  synced : NoSave tr → ∀ s, t.pt.state = some s →
    ∃ p, o = some p ∧ p.state = s ∧ Known delay m p.plan.plan l s
  saved : ∀ i src dst c b, ⟨.saveState i src dst c b, true⟩ ∈ tr → ∃ p, o = some p ∧ p.state = dst
  loaded : ∀ i r, ⟨.load i, some r⟩ ∈ tr →
    r.id = i ∧ ∃ p, o = some p ∧ p.plan.plan = r.plan ∧ (t.pt = .start → p.state = r.state)

section Placed
variable {o : Option Pos} {h l : List (Entry n)} {t : Task} {tr : List (Event engine)}

theorem placed_start (o : Option Pos) (h : List (Entry n)) (w : Fin n) (id : Id) :
    Placed delay m o h w (taskAt delay id .start) h [] :=
  ⟨After.nil, by simp, by rintro - s ⟨⟩, by simp, by simp⟩

/-- The specification of the stretch, for what remains of it. -/
theorem Placed.stretch (hp : Placed delay m o h w t l tr) : Stretch delay t tr :=
  (body_spec delay t.id t.pt).after hp.after

theorem Placed.created (hp : Placed delay m none h w t l tr) (p : Pos) :
    Placed delay m (some p) h w t l tr := by
  refine ⟨hp.after, hp.last, fun hs s hst => ?_, fun i src dst c b hm => ?_, fun i r hm => ?_⟩
  · obtain ⟨_, ⟨⟩, -⟩ := hp.synced hs s hst
  · obtain ⟨_, ⟨⟩, -⟩ := hp.saved i src dst c b hm
  · obtain ⟨-, _, ⟨⟩, -⟩ := hp.loaded i r hm

/-- A position in the same state. -/
theorem Placed.of_state {p : Pos} {s : State} {b : Bool} (hp : Placed delay m (some p) h w t l tr)
    (hs : s = p.state) : Placed delay m (some (p.moveTo s b)) h w t l tr := by
  subst hs
  refine ⟨hp.after, hp.last, fun hno s hst => ?_, fun i src dst c b hm => ?_, fun i r hm => ?_⟩
  · obtain ⟨_, ⟨⟩, hps, hk⟩ := hp.synced hno s hst
    exact ⟨_, rfl, hps, hk⟩
  · obtain ⟨_, ⟨⟩, hps⟩ := hp.saved i src dst c b hm
    exact ⟨_, rfl, hps⟩
  · obtain ⟨hid, _, ⟨⟩, hplan, hps⟩ := hp.loaded i r hm
    exact ⟨hid, _, rfl, hplan, hps⟩

/-- **A worker sends statements only from the stored state.** -/
theorem Placed.sends {op : Op} {k : op.Ret → Code Exit} (hp : Placed delay m o h w t l tr)
    (hc : t.code = .call op k) (hop : op.attempts ≠ none) :
    ∃ p, o = some p ∧ t.pt.state = some p.state := by
  have hkind : op.kind = .ddl := by
    by_contra hne
    exact hop (attempts_of_kind hne)
  have hs : NoSave tr := by
    have hask := hp.stretch.ask hc
    cases hask with
    | work hs _ => exact hs
    | load => cases hkind
    | save => cases hkind
    | bake => cases hkind
  have hsend : Pt.sends t.pt := by
    have hall := ((sending_body delay t.id t.pt).after hp.after).1
    rw [hc] at hall
    exact hall.1 hkind
  obtain ⟨s, hst⟩ : ∃ s, t.pt.state = some s := by
    rcases hsend with hst | hst | hst <;> exact ⟨_, hst⟩
  obtain ⟨p, hpos, rfl, -⟩ := hp.synced hs s hst
  exact ⟨p, hpos, hst⟩

/-- The next control point is reached with the stored state. -/
theorem Placed.goto {pt : Pt} (hp : Placed delay m o h w t l tr) (hs : Sound delay m o h)
    (hc : t.code = .ret (.goto pt)) : Placed delay m o h w (taskAt delay t.id pt) h [] := by
  refine ⟨After.nil, by simp, fun _ s hst => ?_, by simp, by simp⟩
  have hk : ∀ {p : Pos}, o = some p → p.state = s →
      ∃ p, o = some p ∧ p.state = s ∧ Known delay m p.plan.plan h s := by
    rintro p hpos rfl
    exact ⟨p, hpos, rfl, hs.known p hpos⟩
  have hback : NoSave tr → t.pt.state = some .backfilling → s = .backfilling →
      ∃ p, o = some p ∧ p.state = s ∧ Known delay m p.plan.plan h s := by
    rintro hno hbf rfl
    obtain ⟨p, hpos, hps, -⟩ := hp.synced hno _ hbf
    exact hk hpos hps
  have hdone := hp.stretch.done hc
  generalize hpt : t.pt = pt0 at hdone
  cases hdone with
  | @loaded r =>
    obtain rfl : r.state = s := by simpa [taskAt, Pt.state] using hst
    obtain ⟨-, p, hpos, -, hps⟩ := hp.loaded t.id r (List.mem_singleton.mpr rfl)
    exact hk hpos (hps hpt)
  | @saved _ tr1 tr2 src dst c htr ht =>
    obtain rfl : dst = s := by simpa [taskAt, Pt.state] using hst
    obtain ⟨p, hpos, hps⟩ := hp.saved _ src dst c _ (List.mem_append_right _ List.mem_cons_self)
    exact hk hpos hps
  | enter ht _ => exact hback ht (by rw [hpt]; rfl) (by simpa [taskAt, Pt.state] using hst.symm)
  | again ht => exact hback ht (by rw [hpt]; rfl) (by simpa [taskAt, Pt.state] using hst.symm)

theorem noSave_snoc {ev : Event engine} (h : Op.isSave ev.op = false) :
    NoSave (tr ++ [ev]) ↔ NoSave tr := by
  simp [NoSave, or_imp, forall_and, h]

theorem Placed.snoc (hp : Placed delay m o h w t l tr) (ev : Event engine) (code : Code Exit) :
    h ++ [entry w t ev] = l ++ (tr ++ [ev]).map (entry w { t with code := code }) := by
  rw [hp.last, List.map_append, List.append_assoc]
  rfl

/-- An answer that moves nothing. -/
theorem Placed.serve {op : Op} {k : op.Ret → Code Exit} {b : op.Ret}
    (hp : Placed delay m o h w t l tr) (hc : t.code = .call op k) (hop : Op.isSave op = false)
    (hload : ∀ i r, (⟨op, b⟩ : Event engine) = ⟨.load i, some r⟩ →
      r.id = i ∧ ∃ p, o = some p ∧ p.plan.plan = r.plan ∧ p.state = r.state) :
    Placed delay m o (h ++ [entry w t ⟨op, b⟩]) w { t with code := k b } l (tr ++ [⟨op, b⟩]) := by
  refine ⟨(hc ▸ hp.after).snoc b, hp.snoc _ _,
    fun hs => hp.synced ((noSave_snoc hop).mp hs), fun i src dst c b hm => ?_, fun i r hm => ?_⟩
  · rcases List.mem_append.mp hm with hm | hm
    · exact hp.saved i src dst c b hm
    · cases List.mem_singleton.mp hm
      cases hop
  · rcases List.mem_append.mp hm with hm | hm
    · exact hp.loaded i r hm
    · obtain ⟨hid, p, hpos, hplan, hst⟩ := hload i r (List.mem_singleton.mp hm).symm
      exact ⟨hid, p, hpos, hplan, fun _ => hst⟩

/-- A save: the handler of the stored state has returned, and what it has left is what the new state
says. -/
theorem Placed.save {i : Id} {src dst : State} {c : Checkpoint} {b : Bool} {k : Bool → Code Exit}
    (hp : Placed delay m o h w t l tr) (hs : Sound delay m o h) (hm : t.id = m)
    (hc : t.code = .call (.saveState i src dst c b) k) :
    ∃ p, o = some p ∧ (∀ terminal, Sound delay m (some (p.moveTo dst terminal)) h) ∧
      ∀ o' ans, (∃ p', o' = some p' ∧ p'.plan = p.plan ∧ (ans = true → p'.state = dst)) →
        Placed delay m o' (h ++ [entry w t ⟨.saveState i src dst c b, ans⟩]) w
          { t with code := k ans } l (tr ++ [⟨.saveState i src dst c b, ans⟩]) := by
  obtain ⟨rfl, rfl, hdone⟩ := (hp.stretch.ask hc).save_inv
  have hno := hdone.noSave
  have hst : t.pt.state = some src := hdone.pt_state
  obtain ⟨p, rfl, rfl, hk⟩ := hp.synced hno _ hst
  obtain ⟨t0, t1, rfl, ha⟩ := completed_advance (p := p.plan.plan) hdone fun r hr => by
    obtain ⟨hid, _, ⟨⟩, hplan, -⟩ := hp.loaded _ r hr
    exact ⟨hid, hplan.symm⟩
  refine ⟨p, rfl, fun terminal => hs.advance hp.last hk hst (hm ▸ ha), ?_⟩
  rintro o' ans ⟨p', rfl, hplan, hans⟩
  refine ⟨(hc ▸ hp.after).snoc ans, hp.snoc _ _,
    fun hs' => ?_, fun i' src' dst' c' b' hev => ?_, fun i' r hev => ?_⟩
  · have := hs' _ (List.mem_append_right _ (List.mem_singleton.mpr rfl))
    cases this
  · rcases List.mem_append.mp hev with hev | hev
    · have := hno _ hev
      cases this
    · cases List.mem_singleton.mp hev
      exact ⟨p', rfl, hans rfl⟩
  · rcases List.mem_append.mp hev with hev | hev
    · obtain ⟨hid, _, ⟨⟩, hpr, -⟩ := hp.loaded i' r hev
      refine ⟨hid, p', rfl, hplan ▸ hpr, fun hpt => ?_⟩
      rw [hpt] at hst
      cases hst
    · cases List.mem_singleton.mp hev

end Placed

/-! ### Steps -/

/-- No step hands `m` to a second worker, and an abort of `m` finds it rolled back, or with nothing to
roll back, nothing contracted and no run that has begun. -/
def Orderly (delay : ℤ) (m : Id) (e : Engine n) : Act n → Prop
  | .pickup _ => e.jobs.head? = some m → ∀ w t, e.workers w = some t → t.id ≠ m
  | .abort id => id = m → ∀ p, pos e.store m = some p → p.state = .rolledBack ∨
      (p.plan.plan.rollback = [] ∧ (∀ x ∈ hist e m, ¬Sends .contracting x) ∧
        ∀ w t, e.workers w = some t → t.id = m → t = taskAt delay m .start)
  | _ => True

/-- The history of `m`, its position and its worker agree. -/
structure Inv (delay : ℤ) (m : Id) (e : Engine n) : Prop where
  tracked : Tracked delay e
  one : OneDriver e m
  placed : ∀ w t, e.workers w = some t → t.id = m →
    ∃ l tr, Placed delay m (pos e.store m) (hist e m) w t l tr
  sound : Sound delay m (pos e.store m) (hist e m)

theorem inv_init : Inv delay m (Engine.init n) :=
  ⟨tracked_init, by rintro w w' t t' ⟨⟩, by rintro w t ⟨⟩, sound_nil delay m⟩

theorem hist_serve (t : Task) (env : Env) (op : Op) (k : op.Ret → Code Exit) (h : t.id = m) :
    hist (e.serve w t env op k) m = hist e m ++ [entry w t ⟨op, e.answer env op⟩] := by
  unfold hist
  rw [log_serve, List.filter_append]
  simp [entry, h]

theorem hist_serve_of_ne (t : Task) (env : Env) (op : Op) (k : op.Ret → Code Exit)
    (h : t.id ≠ m) : hist (e.serve w t env op k) m = hist e m := by
  unfold hist
  rw [log_serve, List.filter_append]
  simp [entry, h]

/-- Steps that leave the position and the history of `m`, and give it no new worker. -/
theorem Inv.of_same (h : Inv delay m e) (ht : Tracked delay e')
    (hp : pos e'.store m = pos e.store m) (hl : hist e' m = hist e m)
    (hw : ∀ w t, e'.workers w = some t → t.id = m → e.workers w = some t) : Inv delay m e' := by
  refine ⟨ht, fun w w' t t' h1 h2 hm hm' => ?_, fun w t hwt hm => ?_, ?_⟩
  · exact h.one w w' t t' (hw w t h1 hm) (hw w' t' h2 hm') hm hm'
  · rw [hp, hl]
    exact h.placed w t (hw w t hwt hm) hm
  · rw [hp, hl]
    exact h.sound

/-- The worker of `m` goes on, alone. -/
theorem Inv.of_worker {t : Task} (h : Inv delay m e) (hw : e.workers w = some t) (hm : t.id = m)
    (ht : Tracked delay e') (hother : ∀ w', w' ≠ w → e'.workers w' = e.workers w')
    (hs : Sound delay m (pos e'.store m) (hist e' m))
    (hself : ∀ t', e'.workers w = some t' → ∃ l tr,
      Placed delay m (pos e'.store m) (hist e' m) w t' l tr) : Inv delay m e' := by
  have hww : ∀ w' t', e'.workers w' = some t' → t'.id = m → w' = w := by
    intro w' t' ht' hm'
    by_contra hne
    rw [hother w' hne] at ht'
    exact hne (h.one w' w t' t ht' hw hm' hm)
  refine ⟨ht, fun w1 w2 t1 t2 h1 h2 m1 m2 => ?_, fun w' t' ht' hm' => ?_, hs⟩
  · rw [hww w1 t1 h1 m1, hww w2 t2 h2 m2]
  · obtain rfl := hww w' t' ht' hm'
    exact hself t' ht'

/-- An abort of `m` that does not cut into its work. -/
theorem Inv.aborted (h : Inv delay m e) {s : Store} (ht : Tracked delay { e with store := s })
    (ha : ∀ p, pos e.store m = some p → p.state = .rolledBack ∨
      (p.plan.plan.rollback = [] ∧ (∀ x ∈ hist e m, ¬Sends .contracting x) ∧
        ∀ w t, e.workers w = some t → t.id = m → t = taskAt delay m .start))
    (hs : pos s m = (pos e.store m).map (·.moveTo .rolledBack true)) :
    Inv delay m { e with store := s } := by
  cases hp : pos e.store m with
  | none => exact h.of_same ht (by rw [hs, hp]; rfl) rfl fun _ _ hw _ => hw
  | some p =>
    rw [hp] at hs
    have hsound := h.sound
    rw [hp] at hsound
    rcases ha p hp with hst | ⟨hnil, hno, hidle⟩
    · -- it has been rolled back already
      have hk := hsound.known p rfl
      rw [hst] at hk
      refine ⟨ht, h.one, fun w t hw hm => ?_, ?_⟩
      · obtain ⟨l, tr, hpl⟩ := h.placed w t hw hm
        rw [hp] at hpl
        exact ⟨l, tr, hs ▸ hpl.of_state hst.symm⟩
      · refine hs ▸ hsound.move hk (fun x hx hsend => ?_) fun x hx hsend => Or.inr rfl
        obtain ⟨_, ⟨⟩, hc⟩ := hsound.contract x hx hsend
        rw [hst] at hc
        cases hc <;> contradiction
    · refine ⟨ht, h.one, fun w t hw hm => ?_, ?_⟩
      · obtain rfl := hidle w t hw hm
        exact ⟨_, _, placed_start _ _ _ _⟩
      · refine hs ▸ hsound.move ?_ (fun x hx hsend => absurd hsend (hno x hx))
          fun x hx hsend => Or.inr rfl
        exact ⟨hist e m, [], [], by simp, by simp, hnil.symm, by simp⟩

/-- An answer to the worker of `m`. -/
theorem Inv.serve {t : Task} {env : Env} {op : Op} {k : op.Ret → Code Exit} (h : Inv delay m e)
    (hw : e.workers w = some t) (hm : t.id = m) (hc : t.code = .call op k) :
    Inv delay m (e.serve w t env op k) := by
  obtain ⟨l, tr, hp⟩ := h.placed w t hw hm
  have hself : ∀ {o}, Placed delay m o (hist e m ++ [entry w t ⟨op, e.answer env op⟩]) w
      { t with code := k (e.answer env op) } l (tr ++ [⟨op, e.answer env op⟩]) →
      ∀ t', (e.serve w t env op k).workers w = some t' → ∃ l tr,
        Placed delay m o (hist (e.serve w t env op k) m) w t' l tr := by
    intro o hp' t' ht'
    rw [workers_serve] at ht'
    cases ht'
    rw [hist_serve t env op k hm]
    exact ⟨_, _, hp'⟩
  have hsends : ∀ s, Sends s (entry w t ⟨op, e.answer env op⟩) →
      ∃ p, pos e.store m = some p ∧ p.state = s := by
    rintro s ⟨hst, hop⟩
    obtain ⟨p, hpos, hpt⟩ := hp.sends hc hop
    exact ⟨p, hpos, Option.some_injective _ (hpt.symm.trans hst)⟩
  have hstep : Stepped delay e (.work w env) _ := .serve hw hc
  have hserve := h.tracked.step hstep
  have hother : ∀ w', w' ≠ w → (e.serve w t env op k).workers w' = e.workers w' :=
    fun w' hww => workers_serve_of_ne _ _ _ _ hww
  by_cases hop : Op.isSave op = true
  · obtain ⟨i, src, dst, c, b, rfl⟩ : ∃ i src dst c b, op = .saveState i src dst c b := by
      cases op <;> first | exact ⟨_, _, _, _, _, rfl⟩ | cases hop
    obtain ⟨p, hpos, hsound, hplaced⟩ := hp.save h.sound hm hc
    obtain ⟨hi, -, -⟩ := (hp.stretch.ask hc).save_inv
    obtain rfl : i = m := hi.trans hm
    rcases pos_effect (e := e) env (.saveState i src dst c b) i with hsame | ⟨_, _, _, _, heq, hmove⟩
    · -- the write has not taken effect, so it has not reported success either
      refine h.of_worker hw hm hserve hother ?_ (hself (hplaced _ _ ⟨p, hsame.trans hpos, rfl, ?_⟩))
      · rw [hist_serve t env _ k hm]
        change Sound delay i (pos (e.effect env _).store i) _
        rw [hsame]
        exact h.sound.append hsends
      · intro hans
        have hmove := pos_effect_saveState hans
        rw [hsame, hpos] at hmove
        exact congrArg Pos.state (Option.some_injective _ hmove)
    · cases heq
      rw [hpos] at hmove
      refine h.of_worker hw hm hserve hother ?_ (hself (hplaced _ _ ⟨_, hmove, rfl, fun _ => rfl⟩))
      rw [hist_serve t env _ k hm]
      change Sound delay i (pos (e.effect env _).store i) _
      rw [hmove]
      refine (hsound b).append ?_
      rintro s ⟨-, hno⟩
      exact absurd rfl hno
  · have hsame : pos (e.effect env op).store m = pos e.store m := by
      rcases pos_effect (e := e) env op m with hsame | ⟨_, _, _, _, rfl, -⟩
      · exact hsame
      · exact absurd rfl hop
    refine h.of_worker hw hm hserve hother ?_ (hself ?_)
    · rw [hist_serve t env op k hm]
      change Sound delay m (pos (e.effect env op).store m) _
      rw [hsame]
      exact h.sound.append hsends
    · change Placed delay m (pos (e.effect env op).store m) _ w _ l _
      rw [hsame]
      refine hp.serve hc (Bool.not_eq_true _ ▸ hop) fun i r heq => ?_
      obtain ⟨rfl, hans⟩ := Event.mk.inj heq
      obtain ⟨p, hpos, hid, hplan, hst⟩ := load_answer (eq_of_heq hans)
      obtain rfl : i = m := (hp.stretch.ask hc).load_inv.trans hm
      exact ⟨hid, p, hpos, hplan.symm, hst.symm⟩

/-- **An orderly step keeps the invariant.** -/
theorem Inv.step (h : Inv delay m e) (ha : Orderly delay m e a) (hs : Stepped delay e a e') :
    Inv delay m e' := by
  have ht := h.tracked.step hs
  cases hs with
  | refused hp => exact h
  | @apply p reported vp hr hp =>
    rcases pos_createMigration e.store vp m with hpos | ⟨hnone, hpos⟩
    · exact h.of_same ht hpos rfl fun _ _ hw _ => hw
    · refine ⟨ht, h.one, fun w t hw hm => ?_, ?_⟩
      · obtain ⟨l, tr, hp⟩ := h.placed w t hw hm
        rw [hnone] at hp
        exact ⟨l, tr, hpos ▸ hp.created _⟩
      · have hsound := h.sound
        rw [hnone] at hsound
        exact hpos ▸ hsound.created vp
  | send hi hcap => exact h.of_same ht rfl rfl fun _ _ hw _ => hw
  | resume hr hcap => exact h.of_same ht rfl rfl fun _ _ hw _ => hw
  | @pickup w id ids hw hj =>
    by_cases hm : id = m
    · have hfree := ha (by rw [hj, hm]; rfl)
      refine ⟨ht, fun w1 w2 t1 t2 h1 h2 m1 m2 => ?_, fun w' t' ht' hm' => ?_, h.sound⟩
      · rw [(eq_of_setWorker (e := e) hfree h1 m1).1, (eq_of_setWorker (e := e) hfree h2 m2).1]
      · obtain ⟨rfl, rfl⟩ := eq_of_setWorker (e := e) hfree ht' hm'
        exact ⟨_, _, placed_start _ _ _ _⟩
    · refine h.of_same ht rfl rfl fun w' t' ht' hm' => ?_
      rcases setWorker_cases (e := e) ht' with ⟨rfl, hx⟩ | ⟨-, ht'⟩
      · cases hx
        exact absurd hm' hm
      · exact ht'
  | @goto w env t pt hw hc =>
    by_cases hm : t.id = m
    · refine h.of_worker hw hm ht (fun w' hww => setWorker_of_ne _ hww) h.sound fun t' ht' => ?_
      rw [setWorker_self] at ht'
      cases ht'
      obtain ⟨l, tr, hp⟩ := h.placed w t hw hm
      exact ⟨_, _, hp.goto h.sound hc⟩
    · refine h.of_same ht rfl rfl fun w' t' ht' hm' => ?_
      rcases setWorker_cases ht' with ⟨rfl, hx⟩ | ⟨-, ht'⟩
      · cases hx
        exact absurd hm' hm
      · exact ht'
  | @stop w env t x hw hc =>
    refine h.of_same ht rfl rfl fun w' t' ht' hm' => ?_
    rcases setWorker_cases ht' with ⟨rfl, hx⟩ | ⟨-, ht'⟩
    · cases hx
    · exact ht'
  | @serve w env t op k hw hc =>
    by_cases hm : t.id = m
    · exact h.serve hw hm hc
    · have hpos : pos (e.effect env op).store m = pos e.store m := by
        rcases pos_effect (e := e) env op m with hsame | ⟨src, dst, c, b, rfl, -⟩
        · exact hsame
        · obtain ⟨tr, htr, -⟩ := h.tracked w t hw
          exact absurd (htr.ask hc).save_inv.1.symm hm
      refine h.of_same ht hpos (hist_serve_of_ne t env op k hm) fun w' t' ht' hm' => ?_
      rcases serve_cases ht' with ⟨rfl, rfl⟩ | ⟨-, ht'⟩
      · exact absurd hm' hm
      · exact ht'
  | @abort id =>
    have hpos := pos_updateState e.store id m .rolledBack true
    by_cases hm : m = id
    · rw [if_pos hm] at hpos
      exact h.aborted ht (ha hm.symm) hpos
    · rw [if_neg hm] at hpos
      exact h.of_same ht hpos rfl fun _ _ hw _ => hw
  | restart => exact h.of_same ht rfl rfl (by rintro w t ⟨⟩)

/-! ### Runs -/

theorem inv_of_run {as : List (Act n)} (h : Runs delay (Orderly delay m) (Engine.init n) as e) :
    Inv delay m e :=
  h.invariant inv_init fun _ _ _ hu ha => hu.step ha.2 (step_inv ha.1)

/-- **`RolledBack` means rolled back**, in every run in which no step hands the migration to a second
worker and no abort cuts into its work. -/
theorem rolledBack_means {as : List (Act n)} {r : Row}
    (h : Runs delay (Orderly delay m) (Engine.init n) as e) (hr : e.store.rows m = some r)
    (hst : r.state = .rolledBack) :
    RolledBack r.plan.plan (hist e m) ∧ ∀ x ∈ hist e m, ¬Sends .contracting x := by
  have hi := inv_of_run h
  have hp : pos e.store m = some (Row.pos r) := by simp [pos, hr]
  have hs := hi.sound
  rw [hp] at hs
  have hk := hs.known _ rfl
  have hk' : Known delay m r.plan.plan (hist e m) .rolledBack := hst ▸ hk
  refine ⟨hk', fun x hx hsend => ?_⟩
  obtain ⟨_, ⟨⟩, hc⟩ := hs.contract x hx hsend
  simp [Row.pos, hst] at hc

/-- No step hands `m` to a second worker, and `m` is not aborted. -/
def Alone (m : Id) (e : Engine n) : Act n → Prop
  | .pickup _ => e.jobs.head? = some m → ∀ w t, e.workers w = some t → t.id ≠ m
  | .abort id => id ≠ m
  | _ => True

theorem Alone.orderly (h : Alone m e a) : Orderly delay m e a := by
  cases a with
  | pickup w => exact h
  | abort id => exact fun hm => absurd hm h
  | _ => trivial

theorem orderly_of_alone {as : List (Act n)} (h : Runs delay (Alone m) (Engine.init n) as e) :
    Runs delay (Orderly delay m) (Engine.init n) as e :=
  h.mono fun _ _ _ ha => ⟨ha.1, ha.2.orderly⟩

/-- **Destructive DDL is gated**: when a Contract statement has been sent, every Expand statement had
succeeded before, a canary had observed every step without a breach and a cutover had measured the
whole table; and no Rollback statement is ever sent. -/
theorem contract_gated {as : List (Act n)} {l l' : List (Entry n)} {x : Entry n}
    (h : Runs delay (Alone m) (Engine.init n) as e) (hx : hist e m = l ++ x :: l')
    (hs : Sends .contracting x) : ∃ r, e.store.rows m = some r ∧
      Expanded r.plan.plan l ∧ Committed delay m r.plan.plan l ∧
        ∀ y ∈ hist e m, ¬Sends .rollingBack y := by
  have hi := (inv_of_run (orderly_of_alone h)).sound
  obtain ⟨p, hp, hexp, hcom⟩ := hi.gated l x l' hx hs
  obtain ⟨r, hr, rfl⟩ := Option.map_eq_some_iff.mp hp
  refine ⟨r, hr, hexp, hcom, fun y hy hsend => ?_⟩
  -- the stored state would have to be on both branches
  obtain ⟨_, hp1, hst⟩ := hi.rollback y hy hsend
  obtain ⟨_, hp2, hst'⟩ := hi.contract x (hx ▸ by simp) hs
  cases hp.symm.trans hp1
  cases hp.symm.trans hp2
  rcases hst with hst | hst <;> rcases hst' with hst' | hst' <;> cases hst.symm.trans hst'

/-- The only worker is free when a migration is picked up, and none is aborted. -/
def single (e : Engine 1) : Act 1 → Bool
  | .pickup w => (e.workers w).isNone
  | .abort _ => false
  | _ => true

theorem alone_of_single (e : Engine 1) (a : Act 1) (h : single e a = true) : Alone m e a := by
  cases a with
  | pickup w =>
    rintro - w' t hw -
    rw [Subsingleton.elim w' w, Option.isNone_iff_eq_none.mp h] at hw
    cases hw
  | abort id => cases h
  | _ => trivial

/-- A migration with a backfilled column reaches `Contracting`. -/
theorem contract_gated_backfill : ∃ (e : Engine 1) (l l' : List (Entry 1)) (x : Entry 1),
    hist e 0 = l ++ x :: l' ∧ Sends .contracting x ∧ ∃ r, e.store.rows 0 = some r ∧
      Expanded r.plan.plan l ∧ Committed 0 0 r.plan.plan l ∧
        ∀ y ∈ hist e 0, ¬Sends .rollingBack y := by
  have hrun : ((runs (Engine.step 0) single (Engine.init 1)
      (submit backfillPlan 0 ++ drive 0 77)).any fun e => (hist e 0).any fun x =>
        x.state = some .contracting && x.event.op.attempts ≠ none) = true := by
    decide +kernel
  obtain ⟨e, he, hP⟩ := exists_path_of_any (alone_of_single (m := 0)) hrun
  obtain ⟨x, hx, hsend⟩ := List.any_eq_true.mp hP
  obtain ⟨hst, hop⟩ := Bool.and_eq_true_iff.mp hsend
  obtain ⟨l, l', hl⟩ := List.append_of_mem hx
  have hsends : Sends .contracting x := ⟨of_decide_eq_true hst, of_decide_eq_true hop⟩
  exact ⟨e, l, l', x, hl, hsends, contract_gated he hl hsends⟩

/-- A canary breaches, and the migration is rolled back. -/
theorem rolledBack_means_breach : ∃ (e : Engine 1) (r : Row),
    e.store.rows 0 = some r ∧ r.state = .rolledBack ∧
      RolledBack r.plan.plan (hist e 0) ∧ ∀ x ∈ hist e 0, ¬Sends .contracting x := by
  have hrun : ((runs (Engine.step 0) single (Engine.init 1)
      (submit breachingPlan 0 ++ drive 0 47)).any fun e =>
        (e.store.rows 0).any fun r => r.state = .rolledBack) = true := by
    decide +kernel
  obtain ⟨e, he, hP⟩ := exists_path_of_any (alone_of_single (m := 0)) hrun
  obtain ⟨r, hr, hst⟩ := (Option.any_eq_true _ _).mp hP
  have hst' := of_decide_eq_true hst
  exact ⟨e, r, hr, hst', rolledBack_means (orderly_of_alone he) hr hst'⟩

/-- **An aborted migration is in `RolledBack`, and has not been rolled back.** -/
theorem rolledBack_not_rolled_back : ¬∀ (n : ℕ) (delay : ℤ) (m : Id) (as : List (Act n))
    (e : Engine n) (r : Row), Runs delay (fun _ _ => True) (Engine.init n) as e →
      e.store.rows m = some r → r.state = .rolledBack →
      RolledBack r.plan.plan (hist e m) ∧ ∀ x ∈ hist e m, ¬Sends .contracting x := by
  intro hall
  have hrun : ((runs (Engine.step 0) (fun _ _ => true) (Engine.init 1)
      [.apply plainPlan true, .abort 0]).any fun e => (hist e 0).isEmpty &&
        (e.store.rows 0).any fun r => r.state = .rolledBack ∧ r.plan.plan.rollback ≠ []) = true := by
    decide +kernel
  obtain ⟨e, he, hP⟩ := exists_path_of_any_free hrun
  obtain ⟨hnil, hrow⟩ := Bool.and_eq_true_iff.mp hP
  obtain ⟨r, hr, hst⟩ := (Option.any_eq_true _ _).mp hrow
  obtain ⟨hst, hne⟩ := of_decide_eq_true hst
  obtain ⟨⟨l, t, l', heq, -, happ, -⟩, -⟩ := hall 1 0 0 _ e r he hr hst
  rw [List.isEmpty_iff.mp hnil] at heq
  obtain rfl : t = [] := by simp_all
  exact hne happ.symm

end MigrationSafety.Server.History
