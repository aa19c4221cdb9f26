import MigrationSafety.Server.Audit

/-! # The life of a migration

A run saves the state its handler leads to, so every event of the log is progress within a state or an
edge of the lifecycle (`Edge`): the happy path, and the two ways into a rollback. This holds in every
run of the engine, whoever drives the migration and whatever fails (`lawful_of_run`).

`entered` is the list of states the events have entered. With one driver, and no abort that cuts in,
it is a walk along the edges that ends in the stored state; as every edge goes up (`Edge.rank_lt`), no
state is entered twice, however often the process dies and the handlers are entered again, and at most
eight are entered (`phases_once`). -/

namespace MigrationSafety.Server.Lifecycle

open MigrationSafety.Lib.Effects MigrationSafety.Lib.Paths MigrationSafety.Plan.Validate
open MigrationSafety.StateMachine.Signature MigrationSafety.StateMachine.Run
open MigrationSafety.StateMachine.Trace MigrationSafety.StateMachine.Outcomes
open MigrationSafety.StateMachine.Checkpoints (View body_view)
open MigrationSafety.Server.Migrations MigrationSafety.Server.System MigrationSafety.Server.Steps
open MigrationSafety.Server.Follow MigrationSafety.Server.History MigrationSafety.Server.Audit

variable {n : ℕ} {delay : ℤ} {e e' : Engine n} {a : Act n} {m : Id} {r : Row}

/-! ### Edges -/

/-- The happy path, and the ways into a rollback. -/
inductive Edge : State → State → Prop
  | next {s t : State} (h : next s = some t) : Edge s t
  | divert {s : State} (h : s = .canary ∨ s = .cutover) : Edge s .rollingBack

variable {s t : State}

/-- How far along a state is. -/
def rank : State → ℕ
  | .pending => 0
  | .expanding => 1
  | .backfilling => 2
  | .verifying => 3
  | .canary => 4
  | .cutover => 5
  | .contracting | .rollingBack => 6
  | .done | .rolledBack => 7

/-- **Every edge goes up.** -/
theorem Edge.rank_lt (h : Edge s t) : rank s < rank t := by
  cases h with
  | next h => cases s <;> cases h <;> decide
  | divert h => rcases h with rfl | rfl <;> decide

theorem rank_le (s : State) : rank s ≤ 7 := by cases s <;> decide

theorem edge_of_advance {id : Id} {p : MigrationPlan} {tr : List (Event engine)}
    (h : Advance delay id p tr s t) : Edge s t := by
  cases h with
  | diverted h => exact .divert h
  | _ => exact .next rfl

/-- **A completed handler leads along an edge.** -/
theorem edge_of_completed {id : Id} {pt : Pt} {tr : List (Event engine)}
    (h : Completed delay id pt tr s t) : Edge s t := by
  cases h with
  | handler hc ht hd hb => exact edge_of_advance (advance_of_handler hc ht hd)
  | @batch r pr _ _ res ht hd =>
    have hn : res.next = none := ((backfillTurn_all_straight r pr).runs ht).1 _ rfl res rfl
    exact .next ((target_of_next hn).symm.trans hd)

/-! ### Events -/

/-- The first event is the creation, and every other is progress within a state or an edge. -/
structure Lawful (r : Row) : Prop where
  born : r.events.head? = some (none, .pending)
  edges : ∀ s t, (some s, t) ∈ r.events → s = t ∨ Edge s t

theorem Lawful.snoc {r' : Row} (h : Lawful r) (he : r'.events = r.events ++ [(some s, t)])
    (hst : s = t ∨ Edge s t) : Lawful r' := by
  refine ⟨by rw [he, List.head?_append, h.born]; rfl, fun s' t' hm => ?_⟩
  rw [he] at hm
  rcases List.mem_append.mp hm with hm | hm
  · exact h.edges s' t' hm
  · cases List.mem_singleton.mp hm
    exact hst

/-- What a worker writes. -/
theorem lawful_effect {t : Task} {tr : List (Event engine)} {env : Env} {op : Op}
    {k : op.Ret → Code Exit} {i : Id} (hst : Stretch delay t tr) (hc : t.code = .call op k)
    (h : ∀ r, e.store.rows i = some r → Lawful r)
    (hr : (e.effect env op).store.rows i = some r) : Lawful r := by
  cases op with
  | saveState j src dst c b =>
    obtain ⟨-, -, hcom⟩ := (hst.ask hc).save_inv
    simp only [Engine.effect, Engine.write] at hr
    split_ifs at hr
    · exact h r hr
    · simp only [Store.saveState, Store.rows_modify] at hr
      split_ifs at hr
      · obtain ⟨r0, hr0, rfl⟩ := Option.map_eq_some_iff.mp hr
        exact (h r0 hr0).snoc rfl (Or.inr (edge_of_completed hcom))
      · exact h r hr
  | saveCheckpoint j st c =>
    simp only [Engine.effect, Engine.write] at hr
    split_ifs at hr
    · exact h r hr
    · simp only [Store.saveCheckpoint, Store.rows_modify] at hr
      split_ifs at hr
      · obtain ⟨r0, hr0, rfl⟩ := Option.map_eq_some_iff.mp hr
        exact (h r0 hr0).snoc rfl (Or.inl rfl)
      · exact h r hr
  | _ => exact h r hr

theorem lawful_step (ht : Tracked delay e) (h : ∀ i r, e.store.rows i = some r → Lawful r)
    (hs : Stepped delay e a e') : ∀ i r, e'.store.rows i = some r → Lawful r := by
  intro i r hr
  cases hs with
  | @apply q reported vp hres hq =>
    rcases Store.events_createMigration hr with hr0 | ⟨-, hev⟩
    · exact h i r hr0
    · exact ⟨by rw [hev]; rfl, fun s t hm => by rw [hev] at hm; cases List.mem_singleton.mp hm⟩
  | @serve w env t op k hw hc =>
    obtain ⟨tr, hst, -⟩ := ht w t hw
    exact lawful_effect hst hc (h i) hr
  | @abort id =>
    change (e.store.updateState id .rolledBack true).rows i = some r at hr
    rw [Store.updateState, Store.rows_modify] at hr
    split_ifs at hr
    · obtain ⟨r0, hr0, rfl⟩ := Option.map_eq_some_iff.mp hr
      exact ⟨(h i r0 hr0).born, (h i r0 hr0).edges⟩
    · exact h i r hr
  | _ => exact h i r hr

/-- **Every event is progress or an edge**, in every run of the engine. -/
theorem lawful_of_run {ok : Engine n → Act n → Prop} {as : List (Act n)}
    (h : Runs delay ok (Engine.init n) as e) (hr : e.store.rows m = some r) : Lawful r := by
  have hinv : Tracked delay e ∧ ∀ i r, e.store.rows i = some r → Lawful r := by
    refine h.invariant (I := fun e => Tracked delay e ∧ ∀ i r, e.store.rows i = some r → Lawful r)
      ⟨tracked_init, by rintro i r ⟨⟩⟩ ?_
    rintro u a v ⟨ht, hl⟩ ⟨hstep, -⟩
    exact ⟨ht.step (step_inv hstep), lawful_step ht hl (step_inv hstep)⟩
  exact hinv.2 m r hr

/-! ### Walks -/

/-- The states the events have entered. -/
def entered (evs : List (Option State × State)) : List State :=
  evs.filterMap fun ev => if ev.1 = some ev.2 then none else some ev.2

/-- **A life**: a walk along the edges from `Pending` to the stored state that enters no state
twice. -/
structure Life (r : Row) : Prop where
  born : (entered r.events).head? = some .pending
  walk : (entered r.events).IsChain Edge
  last : (entered r.events).getLast? = some r.state
  once : (entered r.events).Nodup
  few : (entered r.events).length ≤ 8

theorem entered_snoc (evs : List (Option State × State)) (ev : Option State × State) :
    entered (evs ++ [ev]) = entered evs ++ if ev.1 = some ev.2 then [] else [ev.2] := by
  unfold entered
  rw [List.filterMap_append]
  split_ifs with h <;> simp [h]

/-- Events that continue each other along edges are a walk. -/
theorem walk_of_events {evs : List (Option State × State)} {s : State}
    (hborn : evs.head? = some (none, .pending)) (hchain : evs.IsChain Continues)
    (hedges : ∀ s t, (some s, t) ∈ evs → s = t ∨ Edge s t)
    (hlast : evs.getLast?.map Prod.snd = some s) :
    (entered evs).head? = some .pending ∧ (entered evs).IsChain Edge ∧
      (entered evs).getLast? = some s := by
  induction evs using List.reverseRecOn generalizing s with
  | nil => cases hborn
  | append_singleton evs ev ih =>
    obtain rfl : ev.2 = s := by simpa using hlast
    rcases evs.eq_nil_or_concat with rfl | ⟨evs', x, rfl⟩
    · obtain rfl : ev = (none, .pending) := by simpa using hborn
      exact ⟨rfl, List.isChain_singleton _, rfl⟩
    · rw [List.concat_eq_append] at *
      obtain ⟨hchain, -, hcont⟩ := List.isChain_append.mp hchain
      have hfrom : ev.1 = some x.2 := hcont x (by simp) ev (by simp)
      obtain ⟨hhead, hwalk, hend⟩ := ih (s := x.2) (by simpa using hborn) hchain
        (fun s t hm => hedges s t (List.mem_append_left _ hm)) (by simp)
      rw [entered_snoc]
      split_ifs with hstay
      · have hx : x.2 = ev.2 := Option.some.inj (hfrom.symm.trans hstay)
        simpa [← hx] using And.intro hhead ⟨hwalk, hend⟩
      · have hedge : Edge x.2 ev.2 := by
          refine (hedges x.2 ev.2 ?_).resolve_left fun heq => hstay (heq ▸ hfrom)
          rw [← hfrom]
          simp
        refine ⟨by simp [hhead], ?_, by simp⟩
        refine hwalk.append (List.isChain_singleton _) fun y hy z hz => ?_
        obtain rfl : x.2 = y := Option.some.inj (hend.symm.trans hy)
        obtain rfl : ev.2 = z := by simpa using hz
        exact hedge

/-- A walk that only goes up. -/
theorem rank_of_walk {l : List State} (h : l.IsChain Edge) :
    l.Pairwise fun s t => rank s < rank t := by
  have hup : l.IsChain fun s t => rank s < rank t := h.imp fun _ _ => Edge.rank_lt
  exact hup.pairwise

theorem length_of_walk {l : List State} (h : l.IsChain Edge) : l.length ≤ 8 := by
  have hnodup : (l.map rank).Nodup :=
    List.pairwise_map.mpr ((rank_of_walk h).imp fun hlt => hlt.ne)
  have hsub : (l.map rank).length ≤ (List.range 8).length := by
    refine (List.subperm_of_subset hnodup fun i hi => ?_).length_le
    obtain ⟨s, -, rfl⟩ := List.mem_map.mp hi
    exact List.mem_range.mpr (Nat.lt_succ_of_le (rank_le s))
  simpa using hsub

/-- **No phase is entered twice**: in every run in which the migration has one driver and no abort
moves it, its events are one walk along the lifecycle. -/
theorem phases_once {as : List (Act n)} (h : Runs delay (Logged m) (Engine.init n) as e)
    (hr : e.store.rows m = some r) : Life r := by
  have hinv : History.Inv delay m e ∧ Followed delay e ∧
      ∀ r, e.store.rows m = some r → Explained r := by
    refine h.invariant (I := fun e => History.Inv delay m e ∧ Followed delay e ∧
      ∀ r, e.store.rows m = some r → Explained r) ⟨inv_init, followed_init, by rintro r ⟨⟩⟩ ?_
    rintro e a e' ⟨hi, hf, hex⟩ ⟨hstep, hok⟩
    have hs := step_inv hstep
    exact ⟨hi.step hok.orderly hs, hf.step hs, explained_step hi hf hok hex hs⟩
  obtain ⟨hchain, hlast⟩ := hinv.2.2 r hr
  obtain ⟨hborn, hedges⟩ := lawful_of_run h hr
  obtain ⟨hhead, hwalk, hend⟩ := walk_of_events hborn hchain hedges hlast
  exact ⟨hhead, hwalk, hend, (rank_of_walk hwalk).imp fun hlt heq => (heq ▸ hlt).false,
    length_of_walk hwalk⟩

/-- The process dies, and the migration is taken up again and rolled back. -/
theorem phases_once_crash : ∃ (e : Engine 1) (r : Row), e.store.rows 0 = some r ∧
    r.state = .rolledBack ∧ Life r := by
  have hrun : ((runs (Engine.step 0) single (Engine.init 1)
      (submit breachingPlan 0 ++ drive 0 20 ++ crash 0 ++ drive 0 31)).any fun e =>
        (e.store.rows 0).any fun r => r.state = .rolledBack) = true := by
    decide +kernel
  obtain ⟨e, he, hP⟩ := exists_path_of_any (logged_of_single (m := 0)) hrun
  obtain ⟨r, hr, hst⟩ := (Option.any_eq_true _ _).mp hP
  exact ⟨e, r, hr, of_decide_eq_true hst, phases_once he hr⟩

end MigrationSafety.Server.Lifecycle
