import MigrationSafety.Server.Deletions
import MigrationSafety.Server.Drivers
import MigrationSafety.Server.Terminal

/-! # Custody

The pool keeps no list of the migrations it has accepted: an id is in a queue, or a worker is in `Run`
with it, or the process has forgotten it until it starts again. `Held` says that the process has not:
the id waits, or a run of it has yet to load its record, or it cannot end without an error before it
has made the migration terminal (`Owes`).

* `owes_body`: every stretch of `Run` from a state that is not terminal owes.
* `standing_step`: a run is at its start, owes, or only pauses.
* `no_migration_lost`: in every run of the engine, with any number of workers, repeated requests,
  aborts, failures of the store and restarts, a migration that is not terminal is held, or since the
  last restart a run of it has ended with an error or its creation went unreported. -/

namespace MigrationSafety.Server.Custody

open MigrationSafety.Lib.Effects MigrationSafety.Lib.Paths MigrationSafety.Plan.Validate
open MigrationSafety.StateMachine.Signature MigrationSafety.StateMachine.Handlers
open MigrationSafety.StateMachine.Run MigrationSafety.StateMachine.Trace
open MigrationSafety.Server.Migrations MigrationSafety.Server.System MigrationSafety.Server.Steps
open MigrationSafety.Server.Terminal (Quiet quiet_body)
open MigrationSafety.Server.Drivers (waiting waiting_serve)
open MigrationSafety.Server.Deletions (flag_step)

variable {n : ℕ} {delay : ℤ} {e e' : Engine n} {a : Act n} {w : Fin n} {m : Id}

/-! ### What a run owes -/

/-- The answer to a save that has made the migration terminal. -/
def closes : (op : Op) → op.Ret → Bool
  | .saveState _ _ _ _ terminal, ok => terminal && ok
  | _, _ => false

/-- The control points of a run that has work left. -/
def atWork : Pt → Bool
  | .start => false
  | .loop cur => !isTerminal cur
  | .batch .. => true

/-- The run cannot end without an error before a save has made the migration terminal; after that it
only pauses. -/
def Owes : Code Exit → Prop
  | .ret (.goto pt) => atWork pt = true
  | .ret (.stop r) => ∃ err, r = .error err
  | .call op k => ∀ r, if closes op r = true then Quiet (k r) else Owes (k r)

theorem owes_error {err : RunError} : Owes (.ret (.stop (.error err))) := ⟨err, rfl⟩

theorem owes_goto {pt : Pt} (h : atWork pt = true) : Owes (.ret (.goto pt)) := h

theorem closes_of_kind {op : Op} (h : op.kind ≠ .cursor) (r : op.Ret) : closes op r = false := by
  cases op <;> first | rfl | exact absurd rfl h

/-- What asks for other things first. -/
theorem owes_bind {α : Type} {ks : List Kind} {p : Code α} {f : α → Code Exit} (hp : Within ks p)
    (hks : Kind.cursor ∉ ks) (hf : ∀ a, Owes (f a)) : Owes (p >>= f) := by
  induction p with
  | ret a => exact hf a
  | call op k ih =>
    intro r
    have hop : op.kind ≠ .cursor := fun h => hks (h ▸ hp.1)
    simp only [closes_of_kind hop r, Bool.false_eq_true, if_false]
    exact ih r (hp.2 r)

theorem quiet_afterSave {dst : State} (h : isTerminal dst = true) : Quiet (afterSave delay dst) := by
  unfold afterSave
  split_ifs
  · refine ⟨rfl, fun b => ?_⟩
    cases b with
    | true => rfl
    | false => exact h
  · exact h

theorem owes_afterSave {dst : State} (h : isTerminal dst = false) : Owes (afterSave delay dst) := by
  have hdst : atWork (.loop dst) = true := by simp [atWork, h]
  unfold afterSave
  split_ifs
  · intro b
    cases b with
    | true => exact owes_error
    | false => exact hdst
  · exact hdst

theorem owes_finish (id : Id) (cur : State) (out : Outcome) : Owes (finish delay id cur out) := by
  cases out with
  | error err => exact owes_error
  | ok res =>
    cases hd : Result.target cur res with
    | none =>
      simp only [finish, hd]
      exact owes_error
    | some dst =>
      simp only [finish, hd, save, Prog.perform_bind]
      intro ok
      cases ok with
      | false => simpa [closes] using owes_error
      | true =>
        cases ht : isTerminal dst with
        | true => simpa [closes, ht] using quiet_afterSave ht
        | false => simpa [closes, ht] using owes_afterSave ht

theorem owes_dispatch {id : Id} {cur : State} {h : Record → Code Outcome}
    (hc : handlers delay cur = some h) (r : Record) : Owes (dispatch delay id cur h r) := by
  unfold dispatch
  split_ifs
  · refine owes_bind (backfillEnter_within r) (by decide) fun x => ?_
    cases x with
    | error err => exact owes_finish id cur _
    | ok pr => rfl
  · exact owes_bind (handlers_within hc r) (by decide) fun out => owes_finish id cur out

/-- **A run that has work left owes it**, from one control point to the next. -/
theorem owes_body (id : Id) {pt : Pt} (h : atWork pt = true) : Owes (body delay id pt) := by
  cases pt with
  | start => cases h
  | batch r pr =>
    refine owes_bind (backfillTurn_within r pr) (by decide) fun x => ?_
    cases x with
    | again pr' => rfl
    | stop out => exact owes_finish id _ out
  | loop cur =>
    have ht : isTerminal cur = false := by simpa [atWork] using h
    simp only [body, ht, Bool.false_eq_true, if_false]
    intro b
    cases b with
    | true => exact owes_error
    | false =>
      cases hc : handlers delay cur with
      | none => exact owes_error
      | some h =>
        intro r
        cases r with
        | none => exact owes_error
        | some r => exact owes_dispatch hc r

/-! ### Where a run stands -/

/-- The run has yet to load its record, or it owes. -/
def Engaged (delay : ℤ) (t : Task) : Prop := t.code = body delay t.id .start ∨ Owes t.code

/-- **Where a run stands**: engaged, or only pausing. -/
def Standing (delay : ℤ) (t : Task) : Prop := Engaged delay t ∨ Quiet t.code

/-- A record has been loaded. -/
theorem standing_loaded (id : Id) (pt : Pt) (s : State) :
    Standing delay ⟨id, pt, .ret (.goto (.loop s))⟩ := by
  cases ht : isTerminal s with
  | true => exact Or.inr ht
  | false => exact Or.inl (Or.inr (owes_goto (by simp [atWork, ht])))

/-- **Every step leaves every run standing somewhere.** -/
theorem standing_step (h : ∀ w t, e.workers w = some t → Standing delay t)
    (hs : Stepped delay e a e') : ∀ w t, e'.workers w = some t → Standing delay t := by
  intro w' t' ht'
  cases hs with
  | @pickup w id ids hw hj =>
    rcases setWorker_cases (e := e) ht' with ⟨-, hx⟩ | ⟨-, ht'⟩
    · cases hx
      exact Or.inl (Or.inl rfl)
    · exact h w' t' ht'
  | @goto w env t pt hw hc =>
    rcases setWorker_cases ht' with ⟨-, hx⟩ | ⟨-, ht'⟩
    · cases hx
      rcases h w t hw with (hst | howes) | hq
      · cases hst.symm.trans hc
      · rw [hc] at howes
        exact Or.inl (Or.inr (owes_body t.id howes))
      · rw [hc] at hq
        cases pt with
        | loop cur => exact Or.inr (quiet_body hq)
        | start => cases hq
        | batch r pr => cases hq
    · exact h w' t' ht'
  | @stop w env t x hw hc =>
    rcases setWorker_cases ht' with ⟨-, hx⟩ | ⟨-, ht'⟩
    · cases hx
    · exact h w' t' ht'
  | @serve w env t op k hw hc =>
    rcases serve_cases ht' with ⟨rfl, rfl⟩ | ⟨-, ht'⟩
    · rcases h w' t hw with (hst | howes) | hq
      · cases hst.symm.trans hc
        cases e.answer env (.load t.id) with
        | none => exact Or.inl (Or.inr owes_error)
        | some r => exact standing_loaded t.id t.pt r.state
      · rw [hc] at howes
        have hr := howes (e.answer env op)
        split_ifs at hr
        · exact Or.inr hr
        · exact Or.inl (Or.inr hr)
      · rw [hc] at hq
        exact Or.inr (hq.2 _)
    · exact h w' t' ht'
  | restart => cases ht'
  | _ => exact h w' t' ht'

/-! ### Who has a migration -/

/-- The migration waits for a worker, or a worker is engaged with it. -/
def Held (delay : ℤ) (e : Engine n) (m : Id) : Prop :=
  m ∈ waiting e ∨ ∃ w t, e.workers w = some t ∧ t.id = m ∧ Engaged delay t

/-- The step in which the engine lets go of a migration: nobody learns that it has been created, or a
run of it ends with an error. -/
def LetsGo (e : Engine n) (m : Id) : Act n → Prop
  | .apply p reported => reported = false ∧
      ∃ vp, check p = .ok vp ∧ e.store.find vp.plan = none ∧ e.store.nextId = m
  | .work w _ => ∃ t err, e.workers w = some t ∧ t.id = m ∧ t.code = .ret (.stop (.error err))
  | _ => False

/-- Neither the queues nor the workers have lost anything. -/
theorem Held.mono (h : Held delay e m) (hq : m ∈ waiting e → m ∈ waiting e')
    (hw : ∀ w t, e.workers w = some t → e'.workers w = some t) : Held delay e' m := by
  rcases h with hm | ⟨w, t, ht, hid, heng⟩
  · exact Or.inl (hq hm)
  · exact Or.inr ⟨w, t, hw w t ht, hid, heng⟩

/-- A worker goes on, and the others stay. -/
theorem Held.of_worker {t : Task} (h : Held delay e m) (hw : e.workers w = some t)
    (hq : waiting e' = waiting e) (hother : ∀ w', w' ≠ w → e'.workers w' = e.workers w')
    (hself : t.id = m → Engaged delay t → Held delay e' m ∨ LetsGo e m a) :
    Held delay e' m ∨ LetsGo e m a := by
  rcases h with hm | ⟨w', t', ht', hid, heng⟩
  · exact Or.inl (Or.inl (hq ▸ hm))
  · by_cases hww : w' = w
    · subst hww
      cases hw.symm.trans ht'
      exact hself hid heng
    · exact Or.inl (Or.inr ⟨w', t', (hother w' hww).trans ht', hid, heng⟩)

/-- What the invariant says of the workers and the flags. -/
structure Sound (delay : ℤ) (e : Engine n) : Prop where
  tracked : Tracked delay e
  flag : ∀ i p, pos e.store i = some p → p.terminal = isTerminal p.state
  standing : ∀ w t, e.workers w = some t → Standing delay t

theorem sound_init : Sound delay (Engine.init n) :=
  ⟨tracked_init, by rintro i p ⟨⟩, by rintro w t ⟨⟩⟩

theorem Sound.step (h : Sound delay e) (hs : Stepped delay e a e') : Sound delay e' :=
  ⟨h.tracked.step hs, flag_step h.tracked h.flag hs, standing_step h.standing hs⟩

/-- An engaged run of a migration that is open after the answer is engaged after it. -/
theorem engaged_serve {t : Task} {env : Env} {op : Op} {k : op.Ret → Code Exit} {p : Pos}
    (hsound : Sound delay e) (hw : e.workers w = some t) (hc : t.code = .call op k)
    (hp : pos (e.effect env op).store t.id = some p) (hopen : p.terminal = false)
    (heng : Engaged delay t) : Engaged delay { t with code := k (e.answer env op) } := by
  rcases heng with hst | howes
  · cases hst.symm.trans hc
    cases hr : e.answer env (.load t.id) with
    | none => exact Or.inr owes_error
    | some r =>
      obtain ⟨p', hp', -, -, hstate⟩ := load_answer hr
      cases hp'.symm.trans hp
      have ht : isTerminal r.state = false := by
        rw [hstate, ← hsound.flag _ _ hp', hopen]
      exact Or.inr (owes_goto (by simp [atWork, ht]))
  · rw [hc] at howes
    have hr := howes (e.answer env op)
    split_ifs at hr with hcl
    · -- the save has closed the migration, which is open
      cases op with
      | saveState i src dst c terminal =>
        obtain ⟨tr, hstretch, -⟩ := hsound.tracked w t hw
        obtain ⟨rfl, -, -⟩ := (hstretch.ask hc).save_inv
        obtain ⟨rfl, hans⟩ := Bool.and_eq_true_iff.mp hcl
        obtain ⟨p0, -, rfl⟩ := Option.map_eq_some_iff.mp ((pos_effect_saveState hans).symm.trans hp)
        cases hopen
      | _ => cases hcl
    · exact Or.inr hr

/-- The process starts with every open migration to resume. -/
theorem held_restart {p : Pos} (hp : pos e.store m = some p) (hopen : p.terminal = false) :
    Held delay e.restart m := by
  obtain ⟨r, hr, rfl⟩ := Option.map_eq_some_iff.mp hp
  have hm : m ∈ e.store.findResumable := Store.mem_findResumable.mpr ⟨r, hr, hopen⟩
  refine Or.inl ?_
  change m ∈ e.store.findResumable ++ [] ++ []
  simpa using hm

/-- **A migration that is held stays held**, as long as it is open and the engine does not let go. -/
theorem Held.step {p : Pos} (h : Held delay e m) (hsound : Sound delay e)
    (hs : Stepped delay e a e') (hp : pos e'.store m = some p) (hopen : p.terminal = false) :
    Held delay e' m ∨ LetsGo e m a := by
  cases hs with
  | refused hp => exact Or.inl h
  | @apply q reported vp hr hq =>
    refine Or.inl (h.mono (fun hm => ?_) fun w t ht => ht)
    unfold waiting at hm ⊢
    simp only [List.mem_append] at hm ⊢
    split_ifs
    · rw [List.mem_append]
      tauto
    · exact hm
  | @send i id hi hcap =>
    refine Or.inl (h.mono (fun hm => ?_) fun w t ht => ht)
    obtain ⟨hlt, hget⟩ := List.getElem?_eq_some_iff.mp hi
    have hperm := hget ▸ (List.getElem_cons_eraseIdx_perm hlt)
    unfold waiting at hm ⊢
    simp only [List.mem_append, ← hperm.mem_iff, List.mem_cons] at hm ⊢
    tauto
  | @resume id ids hr hcap =>
    refine Or.inl (h.mono (fun hm => ?_) fun w t ht => ht)
    unfold waiting at hm ⊢
    simp only [hr, List.mem_append, List.mem_cons] at hm ⊢
    tauto
  | @pickup w id ids hw hj =>
    rcases h with hm | ⟨w', t', ht', hid, heng⟩
    · by_cases hid : m = id
      · exact Or.inl (Or.inr ⟨w, _, setWorker_self (e := e) _, hid.symm, Or.inl rfl⟩)
      · refine Or.inl (Or.inl ?_)
        unfold waiting at hm ⊢
        simp only [hj, List.mem_append, List.mem_cons, hid, false_or] at hm ⊢
        exact hm
    · have hww : w' ≠ w := by
        rintro rfl
        cases hw.symm.trans ht'
      exact Or.inl (Or.inr ⟨w', t', (setWorker_of_ne (e := e) _ hww).trans ht', hid, heng⟩)
  | @goto w env t pt hw hc =>
    refine h.of_worker hw rfl (fun w' hww => setWorker_of_ne _ hww) fun hid heng => ?_
    rcases heng with hst | howes
    · cases hst.symm.trans hc
    · rw [hc] at howes
      exact Or.inl (Or.inr ⟨w, _, setWorker_self _, hid, Or.inr (owes_body t.id howes)⟩)
  | @stop w env t x hw hc =>
    refine h.of_worker hw rfl (fun w' hww => setWorker_of_ne _ hww) fun hid heng => ?_
    rcases heng with hst | howes
    · cases hst.symm.trans hc
    · rw [hc] at howes
      obtain ⟨err, rfl⟩ := howes
      exact Or.inr ⟨t, err, hw, hid, hc⟩
  | @serve w env t op k hw hc =>
    refine h.of_worker hw (waiting_serve ..) (fun w' hww => workers_serve_of_ne _ _ _ _ hww)
      fun hid heng => ?_
    subst hid
    exact Or.inl (Or.inr ⟨w, _, workers_serve .., rfl, engaged_serve hsound hw hc hp hopen heng⟩)
  | abort => exact Or.inl (h.mono id fun w t ht => ht)
  | restart => exact Or.inl (held_restart hp hopen)

/-- **A migration is opened** by its creation or by a run that goes on with it. -/
theorem held_of_opened {p : Pos} (hsound : Sound delay e) (hs : Stepped delay e a e')
    (hp : pos e'.store m = some p) (hopen : p.terminal = false)
    (hclosed : ∀ q, pos e.store m = some q → q.terminal = true) :
    Held delay e' m ∨ LetsGo e m a := by
  have hmoved : pos e'.store m ≠ pos e.store m := by
    intro heq
    have := hclosed p (heq ▸ hp)
    rw [hopen] at this
    cases this
  cases hs with
  | @apply q reported vp hr hq =>
    cases hf : e.store.find vp.plan with
    | some id =>
      have hsame : e.store.createMigration vp = (id, e.store) := by
        simp [Store.createMigration, hf]
      exact absurd (by simp [hsame]) hmoved
    | none =>
      have hnew : e.store.createMigration vp = (e.store.nextId, e.store.insert vp) := by
        simp [Store.createMigration, hf]
      have hid : m = e.store.nextId := by
        by_contra hne
        refine hmoved ?_
        simp only [hnew, pos, Store.rows_insert_of_ne e.store vp hne]
      cases reported with
      | false => exact Or.inr ⟨rfl, vp, hq, hf, hid.symm⟩
      | true => exact Or.inl (Or.inl (by simp [waiting, hnew, hid]))
  | @serve w env t op k hw hc =>
    rcases pos_effect (e := e) env op m with heq | ⟨src, dst, c, b, rfl, heq⟩
    · exact absurd heq hmoved
    · obtain ⟨p0, -, rfl⟩ := Option.map_eq_some_iff.mp (heq.symm.trans hp)
      obtain ⟨tr, hstretch, -⟩ := hsound.tracked w t hw
      obtain ⟨rfl, -, -⟩ := (hstretch.ask hc).save_inv
      refine Or.inl (Or.inr ⟨w, _, workers_serve .., rfl, ?_⟩)
      -- the save has left the migration open, so the run goes on
      obtain rfl : b = false := hopen
      rcases hsound.standing w t hw with (hst | howes) | hq
      · cases hst.symm.trans hc
      · rw [hc] at howes
        have hr := howes (e.answer env (.saveState t.id src dst c false))
        simp only [closes, Bool.false_and, Bool.false_eq_true, if_false] at hr
        exact Or.inr hr
      · rw [hc] at hq
        cases hq.1
  | abort =>
    have heq := pos_updateState e.store ‹Id› m .rolledBack true
    rw [show pos (e.store.updateState _ .rolledBack true) m = some p from hp] at heq
    split_ifs at heq
    · obtain ⟨p0, -, rfl⟩ := Option.map_eq_some_iff.mp heq.symm
      cases hopen
    · exact absurd (heq ▸ hp) hmoved
  | _ => exact absurd rfl hmoved

/-! ### Runs -/

/-- Since the last restart, the engine has let go of the migration. -/
def Dropped (delay : ℤ) (m : Id) (as : List (Act n)) : Prop :=
  ∃ bs a cs u, as = bs ++ a :: cs ∧ Act.restart ∉ cs ∧
    Runs delay (fun _ _ => True) (Engine.init n) bs u ∧ LetsGo u m a

theorem Dropped.snoc {as : List (Act n)} (h : Dropped delay m as) (ha : a ≠ .restart) :
    Dropped delay m (as ++ [a]) := by
  obtain ⟨bs, b, cs, u, rfl, hcs, hu, hgo⟩ := h
  refine ⟨bs, b, cs ++ [a], u, by simp, ?_, hu, hgo⟩
  simp [hcs, ha.symm]

theorem sound_of_run {ok : Engine n → Act n → Prop} {as : List (Act n)}
    (h : Runs delay ok (Engine.init n) as e) : Sound delay e :=
  h.invariant sound_init fun _ _ _ hu ha => hu.step (step_inv ha.1)

/-- In every run, an open migration is held or dropped. -/
theorem held_or_dropped {as : List (Act n)} (h : Runs delay (fun _ _ => True) (Engine.init n) as e) :
    ∀ p, pos e.store m = some p → p.terminal = false → Held delay e m ∨ Dropped delay m as := by
  induction h with
  | nil => rintro p ⟨⟩
  | @snoc u v as a h ha ih =>
    intro p hp hopen
    have hs := step_inv ha.1
    have hsound := sound_of_run h
    have hgone : LetsGo u m a → Dropped delay m (as ++ [a]) := fun hgo =>
      ⟨as, a, [], u, rfl, List.not_mem_nil, h, hgo⟩
    by_cases hbefore : ∃ q, pos u.store m = some q ∧ q.terminal = false
    · obtain ⟨q, hq, hqopen⟩ := hbefore
      rcases ih q hq hqopen with hheld | hdrop
      · exact (hheld.step hsound hs hp hopen).imp_right hgone
      · by_cases har : a = .restart
        · subst har
          cases hs
          exact Or.inl (held_restart hp hopen)
        · exact Or.inr (hdrop.snoc har)
    · refine (held_of_opened hsound hs hp hopen fun q hq => ?_).imp_right hgone
      by_contra hne
      exact hbefore ⟨q, hq, Bool.eq_false_iff.mpr hne⟩

end MigrationSafety.Server.Custody
