import MigrationSafety.Server.Steps

/-! # Drivers

Nothing in the pool remembers which migrations are queued or being driven, and a repeated request for
a plan submits the migration it already has. A migration still has at most one driver, in a pool of
one worker, and in every run in which no request submits a migration that is under way
(`one_driver`). -/

namespace MigrationSafety.Server.Drivers

open MigrationSafety.Lib.Paths MigrationSafety.Plan.Validate
open MigrationSafety.StateMachine.Signature MigrationSafety.StateMachine.Run
open MigrationSafety.Server.Migrations MigrationSafety.Server.System MigrationSafety.Server.Steps

variable {n : ℕ} {delay : ℤ} {e e' : Engine n} {a : Act n} {m : Id}

/-- The ids on their way to a worker. -/
def waiting (e : Engine n) : List Id := e.resuming ++ e.blocked ++ e.jobs

/-- The id is on its way to a worker, or with one. -/
def UnderWay (e : Engine n) (m : Id) : Prop :=
  m ∈ waiting e ∨ ∃ w t, e.workers w = some t ∧ t.id = m

/-- With several workers, a request submits no migration that is under way. -/
def NotTwice (e : Engine n) : Act n → Prop
  | .apply p true => n ≤ 1 ∨
      ∀ vp, check p = .ok vp → ¬UnderWay e (e.store.createMigration vp).1
  | _ => True

/-- Every id is in at most one place. -/
structure Exclusive (e : Engine n) : Prop where
  nodup : (waiting e).Nodup
  injective : ∀ w w' t t', e.workers w = some t → e.workers w' = some t' → t.id = t'.id → w = w'
  apart : ∀ w t, e.workers w = some t → t.id ∉ waiting e

/-- At most one worker is inside `Run` for `m`. -/
def OneDriver (e : Engine n) (m : Id) : Prop :=
  ∀ w w' t t', e.workers w = some t → e.workers w' = some t' → t.id = m → t'.id = m → w = w'

/-- The worker of `m` goes on, and nothing else happens to `m`. -/
theorem OneDriver.of_worker {w : Fin n} {t : Task} (h : OneDriver e m) (hw : e.workers w = some t)
    (hm : t.id = m) (hother : ∀ w', w' ≠ w → e'.workers w' = e.workers w') : OneDriver e' m := by
  have hback : ∀ w' t', e'.workers w' = some t' → t'.id = m → w' = w := by
    intro w' t' ht' hm'
    by_contra hne
    rw [hother w' hne] at ht'
    exact hne (h w' w t' t ht' hw hm' hm)
  intro w1 w2 t1 t2 h1 h2 m1 m2
  rw [hback w1 t1 h1 m1, hback w2 t2 h2 m2]

theorem OneDriver.of_same (h : OneDriver e m)
    (hw : ∀ w t, e'.workers w = some t → t.id = m → e.workers w = some t) : OneDriver e' m :=
  fun w1 w2 t1 t2 h1 h2 m1 m2 => h w1 w2 t1 t2 (hw w1 t1 h1 m1) (hw w2 t2 h2 m2) m1 m2

theorem exclusive_init : Exclusive (Engine.init n) :=
  ⟨List.nodup_nil, by rintro w w' t t' ⟨⟩, by rintro w t ⟨⟩⟩

theorem nodup_findResumable (s : Store) : s.findResumable.Nodup :=
  (List.perm_insertionSort _ _).nodup_iff.mpr (List.nodup_range.filter _)

theorem waiting_serve (w : Fin n) (t : Task) (env : Env) (op : Op)
    (k : op.Ret → Lib.Effects.Prog engine Exit) : waiting (e.serve w t env op k) = waiting e := by
  change waiting (e.effect env op) = waiting e
  cases op <;> first | rfl | (simp only [Engine.effect, Engine.write]; split_ifs <;> rfl)

/-- The queues are rearranged, and the workers stay. -/
theorem Exclusive.of_perm (h : Exclusive e) (hp : (waiting e').Perm (waiting e))
    (hw : e'.workers = e.workers) : Exclusive e' := by
  refine ⟨hp.nodup_iff.mpr h.nodup, ?_, ?_⟩
  · rw [hw]
    exact h.injective
  · intro w t ht hm
    rw [hw] at ht
    exact h.apart w t ht (hp.mem_iff.mp hm)

/-- A worker goes on with the id it has, or lets it go. -/
theorem Exclusive.of_worker {w : Fin n} {t : Task} (h : Exclusive e) (hw : e.workers w = some t)
    (hwait : waiting e' = waiting e) (hself : ∀ t', e'.workers w = some t' → t'.id = t.id)
    (hother : ∀ w', w' ≠ w → e'.workers w' = e.workers w') : Exclusive e' := by
  -- whatever a worker has now, it had before
  have hback : ∀ w' t', e'.workers w' = some t' → ∃ t0, e.workers w' = some t0 ∧ t0.id = t'.id := by
    intro w' t' ht'
    by_cases hww : w' = w
    · subst hww
      exact ⟨t, hw, (hself t' ht').symm⟩
    · exact ⟨t', (hother w' hww).symm.trans ht', rfl⟩
  refine ⟨hwait ▸ h.nodup, ?_, ?_⟩
  · intro w1 w2 t1 t2 h1 h2 hid
    obtain ⟨t1', h1', e1⟩ := hback w1 t1 h1
    obtain ⟨t2', h2', e2⟩ := hback w2 t2 h2
    exact h.injective w1 w2 t1' t2' h1' h2' (by rw [e1, e2, hid])
  · intro w1 t1 h1
    obtain ⟨t1', h1', e1⟩ := hback w1 t1 h1
    rw [hwait, ← e1]
    exact h.apart w1 t1' h1'

/-- The next id of the queue goes to a worker. -/
theorem Exclusive.pickup {w : Fin n} {id : Id} {ids : List Id} (h : Exclusive e)
    (hw : e.workers w = none) (hj : e.jobs = id :: ids) :
    Exclusive { e.setWorker w (some (taskAt delay id .start)) with jobs := ids } := by
  have hwait : (waiting e).Perm (id :: (e.resuming ++ e.blocked ++ ids)) := by
    unfold waiting
    rw [hj]
    exact List.perm_middle
  have hnd := hwait.nodup_iff.mp h.nodup
  obtain ⟨hid, hnd'⟩ := List.nodup_cons.mp hnd
  have hfree : ∀ w' t', e.workers w' = some t' → t'.id ≠ id := by
    rintro w' t' ht' rfl
    exact h.apart w' t' ht' (hwait.mem_iff.mpr List.mem_cons_self)
  refine ⟨hnd', ?_, ?_⟩
  · intro w1 w2 t1 t2 h1 h2 heq
    change (e.setWorker w _).workers w1 = some t1 at h1
    change (e.setWorker w _).workers w2 = some t2 at h2
    by_cases hw1 : w1 = w <;> by_cases hw2 : w2 = w
    · rw [hw1, hw2]
    · subst hw1
      rw [setWorker_self] at h1
      rw [setWorker_of_ne _ hw2] at h2
      cases h1
      exact absurd heq.symm (hfree w2 t2 h2)
    · subst hw2
      rw [setWorker_of_ne _ hw1] at h1
      rw [setWorker_self] at h2
      cases h2
      exact absurd heq (hfree w1 t1 h1)
    · rw [setWorker_of_ne _ hw1] at h1
      rw [setWorker_of_ne _ hw2] at h2
      exact h.injective w1 w2 t1 t2 h1 h2 heq
  · intro w1 t1 h1
    change (e.setWorker w _).workers w1 = some t1 at h1
    change t1.id ∉ e.resuming ++ e.blocked ++ ids
    rcases setWorker_cases h1 with ⟨rfl, hx⟩ | ⟨-, h1⟩
    · cases hx
      exact hid
    · exact fun hm => h.apart w1 t1 h1 (hwait.mem_iff.mpr (List.mem_cons_of_mem _ hm))

/-- A request submits an id that is not under way. -/
theorem Exclusive.apply (h : Exclusive e) {s : Store} (hm : ¬UnderWay e m) :
    Exclusive { e with store := s, blocked := e.blocked ++ [m] } := by
  have hwait : (e.resuming ++ (e.blocked ++ [m]) ++ e.jobs).Perm (m :: waiting e) := by
    have hcons : e.resuming ++ (e.blocked ++ [m]) ++ e.jobs =
        e.resuming ++ e.blocked ++ m :: e.jobs := by simp
    exact hcons ▸ List.perm_middle
  refine ⟨hwait.nodup_iff.mpr (List.nodup_cons.mpr ⟨fun h' => hm (Or.inl h'), h.nodup⟩),
    h.injective, fun w t ht hmem => ?_⟩
  rcases List.mem_cons.mp (hwait.mem_iff.mp hmem) with hid | hid
  · exact hm (Or.inr ⟨w, t, ht, hid⟩)
  · exact h.apart w t ht hid

/-- **Every step keeps ids apart**, with several workers if no request submits one twice. -/
theorem Exclusive.step (h : Exclusive e) (hn : ¬n ≤ 1) (ha : NotTwice e a)
    (hs : Stepped delay e a e') : Exclusive e' := by
  cases hs with
  | refused hp => exact h
  | @apply p reported vp hr hp =>
    cases reported with
    | false => exact h.of_perm (List.Perm.refl _) rfl
    | true => exact h.apply ((ha.resolve_left hn) vp hp)
  | @send i id hi hcap =>
    refine h.of_perm ?_ rfl
    obtain ⟨hlt, hget⟩ := List.getElem?_eq_some_iff.mp hi
    have hperm : e.blocked.Perm (id :: e.blocked.eraseIdx i) :=
      hget ▸ (List.getElem_cons_eraseIdx_perm hlt).symm
    change (e.resuming ++ e.blocked.eraseIdx i ++ (e.jobs ++ [id])).Perm _
    unfold waiting
    rw [List.append_assoc, List.append_assoc]
    refine List.Perm.append_left _ (List.Perm.trans ?_ (hperm.symm.append_right _))
    rw [← List.append_assoc]
    exact List.perm_append_singleton id _
  | @resume id ids hr hcap =>
    refine h.of_perm ?_ rfl
    change (ids ++ e.blocked ++ (e.jobs ++ [id])).Perm _
    unfold waiting
    rw [hr, ← List.append_assoc]
    exact List.perm_append_singleton id _
  | pickup hw hj => exact h.pickup hw hj
  | goto hw hc =>
    refine h.of_worker hw rfl ?_ fun w' hww => setWorker_of_ne _ hww
    intro t' ht'
    cases (setWorker_self (e := e) _).symm.trans ht'
    rfl
  | stop hw hc =>
    refine h.of_worker hw rfl ?_ fun w' hww => setWorker_of_ne _ hww
    intro t' ht'
    cases (setWorker_self (e := e) _).symm.trans ht'
  | serve hw hc =>
    refine h.of_worker hw ?_ ?_ fun w' hww => workers_serve_of_ne _ _ _ _ hww
    · exact waiting_serve ..
    · intro t' ht'
      cases (workers_serve ..).symm.trans ht'
      rfl
  | abort => exact h.of_perm (List.Perm.refl _) rfl
  | restart =>
    refine ⟨?_, by rintro w w' t t' ⟨⟩, by rintro w t ⟨⟩⟩
    change (e.store.findResumable ++ [] ++ []).Nodup
    simpa using nodup_findResumable e.store

/-- **One driver per migration**, in every run in which no request submits a migration that is under
way. -/
theorem one_driver {as : List (Act n)} (h : Runs delay NotTwice (Engine.init n) as e) :
    OneDriver e m := by
  intro w w' t t' hw hw' hm hm'
  by_cases hn : n ≤ 1
  · exact Fin.ext (by omega)
  · have hex : Exclusive e := h.invariant exclusive_init fun u a v hu ha =>
      hu.step hn ha.2 (step_inv ha.1)
    exact hex.injective w w' t t' hw hw' (hm.trans hm'.symm)

/-- The requests that submit nothing that is under way. -/
def submitsNew (e : Engine n) : Act n → Bool
  | .apply p _ =>
    match check p with
    | .error _ => true
    | .ok vp =>
      let id := (e.store.createMigration vp).1
      decide (id ∉ waiting e) && decide (∀ w, (e.workers w).all (·.id ≠ id) = true)
  | _ => true

theorem notTwice_of_submitsNew (e : Engine n) (a : Act n) (h : submitsNew e a = true) :
    NotTwice e a := by
  cases a with
  | apply p reported =>
    cases reported with
    | false => trivial
    | true =>
      refine Or.inr fun vp hp => ?_
      simp only [submitsNew, hp, Bool.and_eq_true, decide_eq_true_eq] at h
      rintro (hm | ⟨w, t, ht, hm⟩)
      · exact h.1 hm
      · have := h.2 w
        simp [ht, hm] at this
  | _ => trivial

/-- Two workers on two migrations. -/
theorem one_driver_two_workers : ∃ e : Engine 2,
    (e.workers 0).isSome = true ∧ (e.workers 1).isSome = true ∧ OneDriver e 0 := by
  have hrun : ((runs (Engine.step 0) submitsNew (Engine.init 2)
      (submit plainPlan 0 ++ submit { plainPlan with version := 2 } 1)).any fun e =>
        (e.workers 0).isSome && (e.workers 1).isSome) = true := by
    decide +kernel
  obtain ⟨e, he, hP⟩ := exists_path_of_any notTwice_of_submitsNew hrun
  obtain ⟨h0, h1⟩ := Bool.and_eq_true_iff.mp hP
  exact ⟨e, h0, h1, one_driver he⟩

/-- **A repeated request gives a migration a second driver.** -/
theorem two_drivers : ¬∀ (n : ℕ) (delay : ℤ) (as : List (Act n)) (e : Engine n) (m : Id),
    Runs delay (fun _ _ => True) (Engine.init n) as e → OneDriver e m := by
  intro hall
  have hrun : ((runs (Engine.step 0) (fun _ _ => true) (Engine.init 2)
      (submit plainPlan 0 ++ submit plainPlan 1)).any fun e =>
        (e.workers 0).any (·.id = 0) && (e.workers 1).any (·.id = 0)) = true := by
    decide +kernel
  obtain ⟨e, he, hP⟩ := exists_path_of_any_free hrun
  obtain ⟨h0, h1⟩ := Bool.and_eq_true_iff.mp hP
  obtain ⟨t, ht, hid⟩ := (Option.any_eq_true _ _).mp h0
  obtain ⟨t', ht', hid'⟩ := (Option.any_eq_true _ _).mp h1
  have := hall 2 0 _ e 0 he 0 1 t t' ht ht' (of_decide_eq_true hid) (of_decide_eq_true hid')
  exact absurd this (by decide)

end MigrationSafety.Server.Drivers
