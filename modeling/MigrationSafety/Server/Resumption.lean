import MigrationSafety.Server.FullCanary

/-! # Canaries across restarts

A canary starts from its first step, whatever an earlier one has left. So the traffic of a migration
only rises (`canary_progressive`), if the steps of its plan do and no run enters its canary with a
checkpoint of an earlier canary in the store (`Unresumed`); otherwise a restart goes back to steps
that have been recorded healthy (`canary_goes_back`). -/

namespace MigrationSafety.Server.Resumption

open MigrationSafety.Lib.Effects MigrationSafety.Lib.Paths MigrationSafety.Lib.Histories
open MigrationSafety.Plan.Validate
open MigrationSafety.StateMachine.Signature MigrationSafety.StateMachine.Handlers
open MigrationSafety.StateMachine.Run MigrationSafety.StateMachine.Outcomes
open MigrationSafety.StateMachine.CanarySteps MigrationSafety.StateMachine.Checkpoints
open MigrationSafety.StateMachine.Trace (Completed NoSave Op.isSave Ask)
open MigrationSafety.Server.Migrations MigrationSafety.Server.System MigrationSafety.Server.Steps
open MigrationSafety.Server.Drivers (OneDriver)
open MigrationSafety.Server.Follow MigrationSafety.Server.History

variable {n : ℕ} {delay : ℤ} {e e' : Engine n} {a : Act n} {w : Fin n} {m : Id}
  {p : MigrationPlan} {h new : List (Entry n)} {x : Entry n} {s : ℤ}

/-! ### Traffic -/

/-- The percentages published in a history. -/
def published (h : List (Entry n)) : List ℤ := h.filterMap fun x => traffic x.event

@[simp] theorem published_nil : published ([] : List (Entry n)) = [] := rfl

@[simp] theorem published_append (h h' : List (Entry n)) :
    published (h ++ h') = published h ++ published h' := List.filterMap_append

theorem published_map (w : Fin n) (t : Task) (tr : List (Event engine)) :
    published (tr.map (entry w t)) = tr.filterMap traffic := by
  unfold published
  rw [List.filterMap_map]
  rfl

/-- **The traffic only rises.** -/
def Progressive (h : List (Entry n)) : Prop := (published h).Pairwise (· ≤ ·)

/-- Has a step of a canary been checkpointed? -/
def started (c : Checkpoint) : Bool := (c.lookup "canary_pct").isSome

/-- The `canary_pct` a run has loaded. -/
def resumesAt (c : Checkpoint) : Option ℤ :=
  match c.lookup "canary_pct" with
  | some (.float x) => some (toInt64 x)
  | _ => none

/-- The record a load has returned. -/
def loadedBy : Event engine → Option Record
  | ⟨.load _, r⟩ => r
  | _ => none

/-- The record the last run to load has gone by. -/
def lastLoad (h : List (Entry n)) : Option Record := latest (fun x => loadedBy x.event) h

/-- The step has been recorded healthy. -/
def Healthy (m : Id) (s : ℤ) (h : List (Entry n)) : Prop :=
  ∃ x ∈ h, x.event = ⟨.saveCheckpoint m .canary (percent s), true⟩

/-- **No run that resumes at a percentage goes back** to a step at or below it that has been recorded
healthy. -/
def NeverBack (m : Id) (h : List (Entry n)) : Prop :=
  Preceded (fun l x => ∀ i s obs b r k, x.event.op = .logCanaryObservation i s obs b →
    lastLoad l = some r → resumesAt r.checkpoint = some k → s ≤ k → ¬Healthy m s l) h

/-- The steps of the plan rise. -/
def Ordered (p : MigrationPlan) : Prop :=
  p.canary.steps.Pairwise (· ≤ ·)

/-- Only the first step has been published. -/
def FirstOnly (p : MigrationPlan) (h : List (Entry n)) : Prop :=
  ∀ s ∈ published h, p.canary.steps.head? = some s

theorem head_le {steps : List ℤ} {x y : ℤ} (hs : steps.Pairwise (· ≤ ·)) (hx : steps.head? = some x)
    (hy : y ∈ steps) : x ≤ y := by
  cases steps with
  | nil => cases hx
  | cons z zs =>
    cases hx
    rcases List.mem_cons.mp hy with rfl | hy
    · exact le_rfl
    · exact List.rel_of_pairwise_cons hs hy

@[simp] theorem started_percent (s : ℤ) : started (percent s) = true := by simp [started, percent]

/-- What the store does not have is not loaded. -/
theorem resumesAt_decode {c : Checkpoint} (h : started c = false) :
    resumesAt c.decode = none := by
  have hnone : c.lookup "canary_pct" = none := by simpa [started] using h
  have hdec : c.decode.lookup "canary_pct" = none := by
    rw [List.lookup_eq_none_iff] at hnone ⊢
    intro kv hkv
    obtain ⟨kv', hkv', rfl⟩ := List.mem_map.mp hkv
    exact hnone kv' hkv'
  simp [resumesAt, hdec]

/-! ### One canary -/

/-- What a canary publishes next, after the events `tr`. -/
structure Climbs (p : MigrationPlan) (tr : List (Event engine)) (s : ℤ) : Prop where
  sorted : (tr.filterMap traffic ++ [s]).Pairwise (· ≤ ·)
  above : ∀ x, p.canary.steps.head? = some x → ∀ y ∈ tr.filterMap traffic ++ [s], x ≤ y
  first : p.canary.steps.head? = some s ∨
    ∃ i s', ⟨.saveCheckpoint i .canary (percent s'), true⟩ ∈ tr

section Climbs
variable {r : Record} {tr : List (Event engine)} {walked rest : List ℤ}

/-- The step after those that have been walked. -/
theorem climbs_observe (ho : Ordered r.plan) (hs : walked ++ s :: rest = r.plan.canary.steps)
    (hw : Walked r walked tr) : Climbs r.plan tr s := by
  have hpre : (walked ++ [s]).Sublist r.plan.canary.steps := by
    rw [← hs]
    exact (List.Sublist.refl walked).append (by simp)
  refine ⟨?_, fun x hx y hy => ?_, ?_⟩
  · rw [hw.published]
    exact List.Pairwise.sublist hpre ho
  · rw [hw.published] at hy
    exact head_le ho hx (hpre.subset hy)
  · cases walked with
    | nil =>
      rw [← hs]
      exact Or.inl rfl
    | cons s' walked => exact Or.inr ⟨_, _, hw.saved s' List.mem_cons_self⟩

/-- A breach is logged again. -/
theorem climbs_breach {i : Id} {obs : CanaryObs} {b : Bool} (h : Climbs p tr s) :
    Climbs p (tr ++ [⟨.logCanaryObservation i s obs false, b⟩]) s := by
  have htr : (tr ++ [(⟨.logCanaryObservation i s obs false, b⟩ : Event engine)]).filterMap traffic =
      tr.filterMap traffic ++ [s] := List.filterMap_append
  refine ⟨?_, fun x hx y hy => ?_, ?_⟩
  · rw [htr, List.pairwise_append]
    refine ⟨h.sorted, by simp, fun y hy z hz => ?_⟩
    rw [List.mem_singleton.mp hz]
    rcases List.mem_append.mp hy with hy | hy
    · exact (List.pairwise_append.mp h.sorted).2.2 y hy s (by simp)
    · rw [List.mem_singleton.mp hy]
  · rw [htr] at hy
    refine h.above x hx y ?_
    rcases List.mem_append.mp hy with hy | hy
    · exact hy
    · exact List.mem_append_right _ hy
  · refine h.first.imp_right ?_
    rintro ⟨i', s', hmem⟩
    exact ⟨i', s', List.mem_append_left _ hmem⟩

/-- The end of a canary that has passed. -/
theorem climbs_passed (ho : Ordered r.plan) (ha : Accepted r.plan)
    (hw : Walked r r.plan.canary.steps tr) : Climbs r.plan tr 100 := by
  refine ⟨?_, fun x hx y hy => ?_, Or.inr ?_⟩
  · rw [hw.published, List.pairwise_append]
    refine ⟨ho, by simp, fun y hy z hz => ?_⟩
    rw [List.mem_singleton.mp hz]
    exact (ha.steps y hy).2
  · rw [hw.published] at hy
    rcases List.mem_append.mp hy with hy | hy
    · exact head_le ho hx hy
    · rw [List.mem_singleton.mp hy]
      exact (ha.steps x (List.mem_of_mem_head? hx)).2
  · obtain ⟨s, hs⟩ := List.exists_mem_of_ne_nil _ ha.steps_ne_nil
    exact ⟨_, _, hw.saved s hs⟩

/-- The history before a canary with only the first step in it, and the canary. -/
theorem Climbs.pairwise (hc : Climbs p tr s) (hf : FirstOnly p h) :
    (published h ++ (tr.filterMap traffic ++ [s])).Pairwise (· ≤ ·) := by
  rw [List.pairwise_append]
  refine ⟨?_, hc.sorted, fun y hy z hz => hc.above y (hf y hy) z hz⟩
  refine List.pairwise_of_forall_mem_list fun y hy z hz => ?_
  have heq := (hf y hy).symm.trans (hf z hz)
  exact (Option.some_injective _ heq).le

end Climbs

/-! ### The invariant -/

/-- The states before the canary. -/
def Early (s : State) : Prop :=
  s = .pending ∨ s = .expanding ∨ s = .backfilling ∨ s = .verifying

theorem not_early {s : State} (h : s = .canary ∨ s = .rolledBack) : ¬Early s := by
  rcases h with rfl | rfl <;> simp [Early]

/-- What a state and a checkpoint say about the traffic so far. -/
structure Fits (p : MigrationPlan) (h : List (Entry n)) (s : State) (c : Checkpoint) : Prop where
  early : Early s → published h = []
  first : s = .canary → started c = false → FirstOnly p h

/-- The state a worker goes by. -/
inductive Held (t : Task) (tr : List (Event engine)) : State → Prop
  | working {s : State} (hs : NoSave tr) (h : t.pt.state = some s) : Held t tr s
  | loaded {i : Id} {r : Record} (hpt : t.pt = .start) (h : ⟨.load i, some r⟩ ∈ tr) :
      Held t tr r.state
  | saved {i : Id} {src dst : State} {c : Checkpoint} {b : Bool}
      (h : ⟨.saveState i src dst c b, true⟩ ∈ tr) : Held t tr dst

/-- The worker of `m`: its events are the last of the history, the state it goes by is stored unless
the migration has been aborted, and a canary has found nothing of an earlier one. -/
structure Working (delay : ℤ) (m : Id) (p : MigrationPlan) (e : Engine n) (w : Fin n) (t : Task)
    (l l' : List (Entry n)) (tr : List (Event engine)) : Prop where
  follows : Follows delay e w t l tr
  recent : hist e m = l' ++ tr.map (entry w t)
  held : ∀ s, Held t tr s → ∃ r, e.store.rows m = some r ∧ (r.state = s ∨ r.state = .rolledBack) ∧
    Fits p (hist e m) s r.checkpoint
  saved : t.pt = .loop .canary → NoSave tr → ∀ i s, ⟨.saveCheckpoint i .canary (percent s), true⟩ ∈ tr →
    ∃ r, e.store.rows m = some r ∧ started r.checkpoint = true
  fresh : t.pt = .loop .canary → ∀ i r, ⟨.load i, some r⟩ ∈ tr → FirstOnly p l' ∧
    ∀ r', lastLoad (hist e m) = some r' → resumesAt r'.checkpoint = none

structure Inv (delay : ℤ) (m : Id) (p : MigrationPlan) (e : Engine n) : Prop where
  one : OneDriver e m
  sorted : Progressive (hist e m)
  back : NeverBack m (hist e m)
  absent : e.store.rows m = none → published (hist e m) = []
  stored : ∀ r, e.store.rows m = some r → Fits p (hist e m) r.state r.checkpoint
  working : ∀ w t, e.workers w = some t → t.id = m → ∃ l l' tr, Working delay m p e w t l l' tr

/-- No step hands `m` to a second worker, and no run enters the canary of `m` while the store has a
checkpoint of an earlier one. -/
def Unresumed (m : Id) (e : Engine n) : Act n → Prop
  | .pickup _ => e.jobs.head? = some m → ∀ w t, e.workers w = some t → t.id ≠ m
  | .work w _ => ∀ t k, e.workers w = some t → t.pt = .loop .canary → t.code = .call (.load m) k →
      ∀ r, e.store.rows m = some r → started r.checkpoint = false
  | _ => True

theorem inv_init : Inv delay m p (Engine.init n) := by
  have hh : hist (Engine.init n) m = [] := rfl
  refine ⟨by rintro w w' t t' ⟨⟩, ?_, ?_, fun _ => ?_, by rintro r ⟨⟩, by rintro w t ⟨⟩⟩
  · rw [hh]
    exact List.Pairwise.nil
  · rw [hh]
    exact preceded_nil
  · rw [hh]
    rfl

section Working
variable {t : Task} {l l' : List (Entry n)} {tr : List (Event engine)}

/-- Nothing has changed for the worker but, perhaps, the state that is stored. -/
theorem Working.keep (hwk : Working delay m p e w t l l' tr) (hf : Follows delay e' w t l tr)
    (hh : hist e' m = hist e m)
    (hs : ∀ r, e.store.rows m = some r → ∃ r', e'.store.rows m = some r' ∧
      r'.checkpoint = r.checkpoint ∧ (r'.state = r.state ∨ r'.state = .rolledBack)) :
    Working delay m p e' w t l l' tr := by
  refine ⟨hf, hh ▸ hwk.recent, fun s hheld => ?_, fun hpt hno i s hmem => ?_, hh ▸ hwk.fresh⟩
  · obtain ⟨r, hr, hst, hfit⟩ := hwk.held s hheld
    obtain ⟨r', hr', hcp, hst'⟩ := hs r hr
    refine ⟨r', hr', ?_, by rw [hh, hcp]; exact hfit⟩
    rcases hst' with hst' | hst'
    · rwa [hst']
    · exact Or.inr hst'
  · obtain ⟨r, hr, hstart⟩ := hwk.saved hpt hno i s hmem
    obtain ⟨r', hr', hcp, -⟩ := hs r hr
    exact ⟨r', hr', by rw [hcp, hstart]⟩

theorem working_taskAt (e : Engine n) (w : Fin n) (pt : Pt)
    (hb : ∀ r pr, pt = .batch r pr → r.id = m)
    (hs : ∀ s, pt.state = some s → ∃ r, e.store.rows m = some r ∧
      (r.state = s ∨ r.state = .rolledBack) ∧ Fits p (hist e m) s r.checkpoint) :
    Working delay m p e w (taskAt delay m pt) (e.log.filter fun x => x.worker = w) (hist e m) [] := by
  refine ⟨follows_taskAt e w m hb, by simp, fun s hheld => ?_, by simp, by simp⟩
  cases hheld with
  | working hno hst => exact hs s hst
  | loaded hpt hmem => cases hmem
  | saved hmem => cases hmem

/-- The next control point. -/
theorem Working.goto {pt : Pt} (hwk : Working delay m p e w t l l' tr) (hm : t.id = m)
    (hc : t.code = .ret (.goto pt)) :
    Working delay m p e w (taskAt delay m pt) (e.log.filter fun x => x.worker = w) (hist e m) [] := by
  refine working_taskAt e w pt (fun r pr hpt => (hwk.follows.goto hc r pr hpt).trans hm) fun s hst => ?_
  have hdone := hwk.follows.stretch.done hc
  refine hwk.held s ?_
  generalize hpt : t.pt = pt0 at hdone
  cases hdone with
  | @loaded r =>
    cases hst
    exact .loaded hpt List.mem_cons_self
  | @saved _ tr1 tr2 src dst c htr ht =>
    cases hst
    exact .saved (List.mem_append_right tr1 List.mem_cons_self)
  | enter ht =>
    cases hst
    exact .working ht (by rw [hpt]; rfl)
  | again ht =>
    cases hst
    exact .working ht (by rw [hpt]; rfl)

/-- One more entry does not change what a state says, unless it is published. -/
theorem Fits.snoc {st : State} {c : Checkpoint} (hf : Fits p h st c)
    (hx : ∀ s, traffic x.event = some s →
      ¬Early st ∧ (started c = false → p.canary.steps.head? = some s)) : Fits p (h ++ [x]) st c := by
  cases htr : traffic x.event with
  | none =>
    have hsame : published (h ++ [x]) = published h := by simp [published, htr]
    refine ⟨fun hst => by rw [hsame, hf.early hst], fun hst hc s hs => ?_⟩
    rw [hsame] at hs
    exact hf.first hst hc s hs
  | some s =>
    obtain ⟨hlate, hhead⟩ := hx s htr
    refine ⟨fun hst => absurd hst hlate, fun hst hc s' hs' => ?_⟩
    have hsnoc : published (h ++ [x]) = published h ++ [s] := by simp [published, htr]
    rw [hsnoc] at hs'
    rcases List.mem_append.mp hs' with hs' | hs'
    · exact hf.first hst hc s' hs'
    · rw [List.mem_singleton.mp hs']
      exact hhead hc

/-- The events that come before a canary publish nothing. -/
theorem Climbs.enter {r : Record} {i : Id} (hc : Climbs p tr s) :
    Climbs p (⟨.ctxDone, false⟩ :: ⟨.load i, some r⟩ :: tr) s := by
  refine ⟨hc.sorted, hc.above, hc.first.imp_right ?_⟩
  rintro ⟨i', s', hmem⟩
  exact ⟨i', s', List.mem_cons_of_mem _ (List.mem_cons_of_mem _ hmem)⟩

/-- **Only a canary publishes**, and it climbs. -/
theorem Working.climbs (hwk : Working delay m p e w t l l' tr) (hm : t.id = m)
    (hp : ∀ r, e.store.rows m = some r → r.plan.plan = p) (ho : Ordered p) (ha : Accepted p)
    {op : Op} {k : op.Ret → Code Exit} (hc : t.code = .call op k) {ans : op.Ret}
    (hs : traffic ⟨op, ans⟩ = some s) :
    NoSave tr ∧ t.pt = .loop .canary ∧ Climbs p tr s ∧ ∃ r, ⟨.load t.id, some r⟩ ∈ tr := by
  have hask := hwk.follows.stretch.ask hc
  cases op with
  | logCanaryObservation i step obs b =>
    obtain rfl : step = s := Option.some.inj hs
    have hno : NoSave tr := by
      cases hask with
      | work hs _ => exact hs
    have hv := hwk.follows.view hc
    generalize hpt : t.pt = pt at hv
    cases hv with
    | @canary r u _ hask =>
      obtain ⟨hid, rfl⟩ := hwk.follows.of_plan (i := t.id) (r := r) hm hp (by simp)
      refine ⟨hno, rfl, Climbs.enter ?_, r, by simp⟩
      cases hask with
      | other hk => rcases hk with hk | hk <;> cases hk
      | observe hsplit hw => exact climbs_observe ho hsplit hw
      | breach hsplit hw ht hb =>
        rw [ht]
        exact climbs_breach (climbs_observe ho hsplit hw)
    | plain hmark => cases hmark
  | saveState i src dst c b =>
    obtain ⟨rfl, rfl, rfl⟩ := traffic_saveState hs
    obtain ⟨-, -, hcom⟩ := hask.save_inv
    have hno := hcom.noSave
    generalize hpt : t.pt = pt at hcom
    cases hcom with
    | @handler _ _ hd r u res hcan hrun hdst hb =>
      obtain rfl : hd = canary delay := (Option.some_injective _ hcan).symm
      obtain ⟨hid, rfl⟩ := hwk.follows.of_plan (i := t.id) (r := r) hm hp (by simp)
      refine ⟨hno, rfl, Climbs.enter ?_, r, by simp⟩
      have hend := canary_spec.runs hrun
      generalize hout : (Except.ok res : Outcome) = out at hend
      cases hend with
      | passed hw => exact climbs_passed ho ha hw
      | failed => cases hout
      | breached =>
        cases hout
        cases hdst
  | _ => cases hs

/-! ### One answer -/

/-- What the answer makes of the history. -/
theorem Working.recent_snoc (hwk : Working delay m p e w t l l' tr) (ev : Event engine) :
    hist e m ++ [entry w t ev] = l' ++ (tr ++ [ev]).map (entry w t) := by
  rw [hwk.recent]
  simp

/-- The traffic still rises. -/
theorem Working.sorted_snoc (hwk : Working delay m p e w t l l' tr) (hm : t.id = m)
    (hp : ∀ r, e.store.rows m = some r → r.plan.plan = p) (ho : Ordered p) (ha : Accepted p)
    {op : Op} {k : op.Ret → Code Exit} (hc : t.code = .call op k) (ans : op.Ret)
    (h : Progressive (hist e m)) : Progressive (hist e m ++ [entry w t ⟨op, ans⟩]) := by
  cases htr : traffic ⟨op, ans⟩ with
  | none =>
    have hsame : published (hist e m ++ [entry w t ⟨op, ans⟩]) = published (hist e m) := by
      simp [published, entry, htr]
    unfold Progressive
    rwa [hsame]
  | some s =>
    obtain ⟨hno, hpt, hcl, r, hl⟩ := hwk.climbs hm hp ho ha hc htr
    obtain ⟨hfirst, -⟩ := hwk.fresh hpt _ r hl
    have hsnoc : published (hist e m ++ [entry w t ⟨op, ans⟩]) =
        published l' ++ (tr.filterMap traffic ++ [s]) := by
      rw [hwk.recent_snoc, published_append, published_map]
      simp [htr]
    unfold Progressive
    rw [hsnoc]
    exact hcl.pairwise hfirst

/-- A canary does not go back. -/
theorem Working.back_snoc (hwk : Working delay m p e w t l l' tr) (h : NeverBack m (hist e m))
    {op : Op} {k : op.Ret → Code Exit} (hc : t.code = .call op k) (ans : op.Ret) :
    NeverBack m (hist e m ++ [entry w t ⟨op, ans⟩]) := by
  refine preceded_snoc.mpr ⟨h, ?_⟩
  rintro i s obs b r k' hop hlast hres - -
  change op = _ at hop
  subst hop
  have hv := hwk.follows.view hc
  generalize hpt : t.pt = pt at hv
  cases hv with
  | @canary r' u _ hcan =>
    obtain ⟨-, hnone⟩ := hwk.fresh hpt t.id r' (by simp)
    rw [hnone r hlast] at hres
    cases hres
  | plain hmark => cases hmark

/-- What is published fits the row. -/
theorem Working.publishes (hwk : Working delay m p e w t l l' tr) (hm : t.id = m)
    (hp : ∀ r, e.store.rows m = some r → r.plan.plan = p) (ho : Ordered p) (ha : Accepted p)
    {op : Op} {k : op.Ret → Code Exit} (hc : t.code = .call op k) {ans : op.Ret}
    (hs : traffic ⟨op, ans⟩ = some s) {r : Row} (hr : e.store.rows m = some r) :
    ¬Early r.state ∧ (∀ st, Held t tr st → ¬Early st) ∧
      (started r.checkpoint = false → p.canary.steps.head? = some s) := by
  obtain ⟨hno, hpt, hcl, -⟩ := hwk.climbs hm hp ho ha hc hs
  refine ⟨?_, fun st hst => ?_, fun hstart => ?_⟩
  · obtain ⟨r', hr', hst, -⟩ := hwk.held .canary (.working hno (by rw [hpt]; rfl))
    cases hr.symm.trans hr'
    rcases hst with hst | hst
    · rw [hst]
      exact not_early (Or.inl rfl)
    · rw [hst]
      exact not_early (Or.inr rfl)
  · cases hst with
    | working hno hst =>
      rw [hpt] at hst
      cases hst
      exact not_early (Or.inl rfl)
    | loaded hpt' _ => cases hpt.symm.trans hpt'
    | saved hmem => exact absurd (hno _ hmem) (by simp [Op.isSave])
  · refine hcl.first.resolve_right ?_
    rintro ⟨i, s', hmem⟩
    obtain ⟨r', hr', hst⟩ := hwk.saved hpt hno i s' hmem
    cases hr.symm.trans hr'
    rw [hstart] at hst
    cases hst

theorem lastLoad_snoc : lastLoad (h ++ [x]) = (loadedBy x.event).or (lastLoad h) := latest_snoc

/-- A canary that is entered has found nothing of an earlier one. -/
theorem Working.fresh_snoc (hwk : Working delay m p e w t l l' tr) (hm : t.id = m) {env : Env}
    {op : Op} {k : op.Ret → Code Exit} (hc : t.code = .call op k)
    (hok : Unresumed m e (.work w env)) (hw : e.workers w = some t) (hpt : t.pt = .loop .canary)
    {i : Id} {r : Record} (hmem : ⟨.load i, some r⟩ ∈ tr ++ [⟨op, e.answer env op⟩]) :
    FirstOnly p l' ∧ ∀ r', lastLoad (hist e m ++ [entry w t ⟨op, e.answer env op⟩]) = some r' →
      resumesAt r'.checkpoint = none := by
  rw [lastLoad_snoc]
  change _ ∧ ∀ r', (loadedBy ⟨op, e.answer env op⟩).or (lastLoad (hist e m)) = some r' → _
  cases hl : loadedBy ⟨op, e.answer env op⟩ with
  | none =>
    rw [Option.none_or]
    rcases List.mem_append.mp hmem with hmem | hmem
    · exact hwk.fresh hpt i r hmem
    · rw [← List.mem_singleton.mp hmem] at hl
      cases hl
  | some r0 =>
    -- the guard: the row has no checkpoint of a canary
    obtain ⟨i0, rfl⟩ : ∃ i0, op = .load i0 := by
      cases op <;> first | exact ⟨_, rfl⟩ | cases hl
    obtain rfl := (hwk.follows.stretch.ask hc).load_inv.trans hm
    have hno : NoSave tr := by
      cases hwk.follows.stretch.ask hc with
      | load hs => exact hs
      | work hs _ => exact hs
    obtain ⟨row, hrow, -, hfit⟩ := hwk.held .canary (.working hno (by rw [hpt]; rfl))
    have hstart := hok t k hw hpt hc row hrow
    refine ⟨fun s hs => hfit.first rfl hstart s ?_, ?_⟩
    · rw [hwk.recent, published_append]
      exact List.mem_append_left _ hs
    · rintro r' hr'
      obtain rfl : r0 = r' := by simpa using hr'
      have hans : e.answer env (.load i0) = some r0 := hl
      simp only [Engine.answer] at hans
      split_ifs at hans
      obtain ⟨row', hrow', rfl⟩ := Store.load_eq_some.mp hans
      cases hrow.symm.trans hrow'
      exact resumesAt_decode hstart

/-- An answer after which the row is what it was. -/
theorem Working.serve_quiet (hwk : Working delay m p e w t l l' tr) (hm : t.id = m)
    (hp : ∀ r, e.store.rows m = some r → r.plan.plan = p) (ho : Ordered p) (ha : Accepted p)
    {env : Env} {op : Op} {k : op.Ret → Code Exit} (hc : t.code = .call op k)
    (hok : Unresumed m e (.work w env)) (hw : e.workers w = some t)
    (hstored : ∀ r, e.store.rows m = some r → Fits p (hist e m) r.state r.checkpoint)
    (hrow : (e.effect env op).store.rows m = e.store.rows m)
    (hsave : ∀ i src dst c b, (⟨op, e.answer env op⟩ : Event engine) ≠ ⟨.saveState i src dst c b, true⟩)
    (hmark : ∀ i s, (⟨op, e.answer env op⟩ : Event engine) ≠ ⟨.saveCheckpoint i .canary (percent s), true⟩)
    (hf : Follows delay (e.serve w t env op k) w { t with code := k (e.answer env op) } l
      (tr ++ [⟨op, e.answer env op⟩])) :
    (∀ r, (e.effect env op).store.rows m = some r →
      Fits p (hist (e.serve w t env op k) m) r.state r.checkpoint) ∧
    Working delay m p (e.serve w t env op k) w { t with code := k (e.answer env op) } l l'
      (tr ++ [⟨op, e.answer env op⟩]) := by
  have hh : hist (e.serve w t env op k) m = _ := hist_serve t env op k hm
  have hrow' : (e.serve w t env op k).store.rows m = e.store.rows m := hrow
  have hpub : ∀ s, traffic ⟨op, e.answer env op⟩ = some s → ∀ r, e.store.rows m = some r → _ :=
    fun s hs r hr => hwk.publishes hm hp ho ha hc hs hr
  have hfits : ∀ r, e.store.rows m = some r →
      Fits p (hist (e.serve w t env op k) m) r.state r.checkpoint := by
    intro r hr
    rw [hh]
    refine (hstored r hr).snoc fun s hs => ?_
    obtain ⟨h1, -, h2⟩ := hpub s hs r hr
    exact ⟨h1, h2⟩
  refine ⟨fun r hr => hfits r (hrow.symm.trans hr), hf, ?_, fun st hst => ?_, fun hpt hno i s hmem => ?_,
    fun hpt i r hmem => ?_⟩
  · rw [hh]
    exact hwk.recent_snoc _
  · have hold : Held t tr st → ∃ r, (e.serve w t env op k).store.rows m = some r ∧
        (r.state = st ∨ r.state = .rolledBack) ∧
          Fits p (hist (e.serve w t env op k) m) st r.checkpoint := by
      intro hst
      obtain ⟨r, hr, hsync, hfit⟩ := hwk.held st hst
      refine ⟨r, hrow'.trans hr, hsync, ?_⟩
      rw [hh]
      refine hfit.snoc fun s hs => ?_
      obtain ⟨-, h1, h2⟩ := hpub s hs r hr
      exact ⟨h1 st hst, h2⟩
    cases hst with
    | working hno hst =>
      exact hold (.working (fun ev hev => hno ev (List.mem_append_left _ hev)) hst)
    | @loaded i r hpt hmem =>
      rcases List.mem_append.mp hmem with hmem | hmem
      · exact hold (.loaded hpt hmem)
      · obtain ⟨rfl, hans⟩ := Event.mk.inj (List.mem_singleton.mp hmem)
        obtain rfl := ((hwk.follows.stretch.ask hc).load_inv).trans hm
        have hans := (eq_of_heq hans).symm
        simp only [Engine.answer] at hans
        split_ifs at hans
        obtain ⟨row, hrw, rfl⟩ := Store.load_eq_some.mp hans
        exact ⟨row, hrow'.trans hrw, Or.inl rfl, hfits row hrw⟩
    | @saved i src _ c b hmem =>
      rcases List.mem_append.mp hmem with hmem | hmem
      · exact hold (.saved hmem)
      · exact absurd (List.mem_singleton.mp hmem).symm (hsave i src st c b)
  · rcases List.mem_append.mp hmem with hmem | hmem
    · obtain ⟨r, hr, hst⟩ :=
        hwk.saved hpt (fun ev hev => hno ev (List.mem_append_left _ hev)) i s hmem
      exact ⟨r, hrow'.trans hr, hst⟩
    · exact absurd (List.mem_singleton.mp hmem).symm (hmark i s)
  · rw [hh]
    exact hwk.fresh_snoc hm hc hok hw hpt hmem

/-- A checkpoint that has been written. -/
theorem Working.serve_checkpoint (hwk : Working delay m p e w t l l' tr) (hm : t.id = m) {env : Env}
    {i : Id} {st : State} {c : Checkpoint} {k : (Op.saveCheckpoint i st c).Ret → Code Exit}
    (hc : t.code = .call (.saveCheckpoint i st c) k) (hok : Unresumed m e (.work w env))
    (hw : e.workers w = some t)
    (hstored : ∀ r, e.store.rows m = some r → Fits p (hist e m) r.state r.checkpoint)
    (hrow : ∀ r', (e.effect env (.saveCheckpoint i st c)).store.rows m = some r' →
      ∃ r, e.store.rows m = some r ∧ r'.state = r.state ∧ r'.checkpoint = c)
    (hf : Follows delay (e.serve w t env (.saveCheckpoint i st c) k) w
      { t with code := k (e.answer env (.saveCheckpoint i st c)) } l
      (tr ++ [⟨.saveCheckpoint i st c, e.answer env (.saveCheckpoint i st c)⟩])) :
    (∀ r, (e.effect env (.saveCheckpoint i st c)).store.rows m = some r →
      Fits p (hist (e.serve w t env (.saveCheckpoint i st c) k) m) r.state r.checkpoint) ∧
    Working delay m p (e.serve w t env (.saveCheckpoint i st c) k) w
      { t with code := k (e.answer env (.saveCheckpoint i st c)) } l l'
      (tr ++ [⟨.saveCheckpoint i st c, e.answer env (.saveCheckpoint i st c)⟩]) := by
  have hh : hist (e.serve w t env (.saveCheckpoint i st c) k) m = _ := hist_serve t env _ k hm
  have hpub : published (hist (e.serve w t env (.saveCheckpoint i st c) k) m) =
      published (hist e m) := by
    rw [hh]
    simp [published, entry, traffic]
  have hno : NoSave tr := by
    cases hwk.follows.stretch.ask hc with
    | work hs _ => exact hs
  -- outside the canary the state is another one, and inside the checkpoint is one of it
  have hview : (∃ s, c = percent s) ∨ t.pt.state = some .backfilling := by
    have hv := hwk.follows.view hc
    generalize t.pt = pt at hv
    cases hv with
    | canary hcan =>
      cases hcan with
      | other hk => rcases hk with hk | hk <;> cases hk
      | save => exact Or.inl ⟨_, rfl⟩
    | backfill => exact Or.inr rfl
    | plain hmark => cases hmark
  have hfits : ∀ {s c0}, Held t tr s ∨ (∃ r, e.store.rows m = some r ∧ r.state = s) →
      Fits p (hist e m) s c0 →
      Fits p (hist (e.serve w t env (.saveCheckpoint i st c) k) m) s c := by
    intro s c0 hs hfit
    refine ⟨fun hearly => by rw [hpub, hfit.early hearly], fun hcan hstart => ?_⟩
    rcases hview with ⟨s', rfl⟩ | hbf
    · simp at hstart
    · exfalso
      rcases hs with hs | ⟨r, hr, hst⟩
      · cases hs with
        | working _ hst =>
          rw [hbf, hcan] at hst
          cases hst
        | loaded hpt _ =>
          rw [hpt] at hbf
          cases hbf
        | saved hmem => exact absurd (hno _ hmem) (by simp [Op.isSave])
      · obtain ⟨r', hr', hsync, -⟩ := hwk.held _ (.working hno hbf)
        cases hr.symm.trans hr'
        rw [hst, hcan] at hsync
        rcases hsync with hsync | hsync <;> cases hsync
  have hkeep : ∀ r, e.store.rows m = some r →
      ∃ r', (e.effect env (.saveCheckpoint i st c)).store.rows m = some r' ∧ r'.state = r.state ∧
        r'.checkpoint = c := by
    intro r hr
    obtain ⟨r', hr', -⟩ := keeps_step (.serve hw hc : Stepped delay e (.work w env) _) m r hr
    obtain ⟨r0, hr0, hst, hcp⟩ := hrow r' hr'
    cases hr.symm.trans hr0
    exact ⟨r', hr', hst, hcp⟩
  refine ⟨fun r' hr' => ?_, hf, ?_, fun s hst => ?_, fun hpt hno' i' s hmem => ?_,
    fun hpt i' r hmem => ?_⟩
  · obtain ⟨r, hr, hst, hcp⟩ := hrow r' hr'
    rw [hst, hcp]
    exact hfits (Or.inr ⟨r, hr, rfl⟩) (hstored r hr)
  · rw [hh]
    exact hwk.recent_snoc _
  · have hheld : Held t tr s := by
      cases hst with
      | working hno' hst => exact .working hno hst
      | loaded hpt hmem =>
        rcases List.mem_append.mp hmem with hmem | hmem
        · exact .loaded hpt hmem
        · cases List.mem_singleton.mp hmem
      | saved hmem =>
        rcases List.mem_append.mp hmem with hmem | hmem
        · exact .saved hmem
        · cases List.mem_singleton.mp hmem
    obtain ⟨r, hr, hsync, hfit⟩ := hwk.held s hheld
    obtain ⟨r', hr', hst', hcp⟩ := hkeep r hr
    refine ⟨r', hr', by rwa [hst'], ?_⟩
    rw [hcp]
    exact hfits (Or.inl hheld) hfit
  · have hpt : t.pt = .loop .canary := hpt
    have hst : t.pt.state = some .canary := by rw [hpt]; rfl
    obtain ⟨s', rfl⟩ := hview.resolve_right (by simp [hst])
    obtain ⟨r, hr, -⟩ := hwk.held .canary (.working hno hst)
    obtain ⟨r', hr', -, hcp⟩ := hkeep r hr
    exact ⟨r', hr', by rw [hcp, started_percent]⟩
  · rw [hh]
    exact hwk.fresh_snoc hm hc hok hw hpt hmem

/-- A state that has been written. -/
theorem Working.serve_save (hwk : Working delay m p e w t l l' tr) (hm : t.id = m)
    (hp : ∀ r, e.store.rows m = some r → r.plan.plan = p) {env : Env} {i : Id} {src dst : State}
    {c : Checkpoint} {b : Bool} {k : (Op.saveState i src dst c b).Ret → Code Exit}
    (hc : t.code = .call (.saveState i src dst c b) k) (hok : Unresumed m e (.work w env))
    (hw : e.workers w = some t)
    (hrow : ∀ r', (e.effect env (.saveState i src dst c b)).store.rows m = some r' →
      r'.state = dst ∧ r'.checkpoint = c)
    (hf : Follows delay (e.serve w t env (.saveState i src dst c b) k) w
      { t with code := k (e.answer env (.saveState i src dst c b)) } l
      (tr ++ [⟨.saveState i src dst c b, e.answer env (.saveState i src dst c b)⟩])) :
    (∀ r, (e.effect env (.saveState i src dst c b)).store.rows m = some r →
      Fits p (hist (e.serve w t env (.saveState i src dst c b) k) m) r.state r.checkpoint) ∧
    Working delay m p (e.serve w t env (.saveState i src dst c b) k) w
      { t with code := k (e.answer env (.saveState i src dst c b)) } l l'
      (tr ++ [⟨.saveState i src dst c b, e.answer env (.saveState i src dst c b)⟩]) := by
  have hh : hist (e.serve w t env (.saveState i src dst c b) k) m = _ := hist_serve t env _ k hm
  obtain ⟨-, -, hcom⟩ := (hwk.follows.stretch.ask hc).save_inv
  have hno := hcom.noSave
  have hpt := hcom.pt_state
  obtain ⟨r0, hr0, -, hfit⟩ := hwk.held src (.working hno hpt)
  obtain ⟨t0, u, -, hadv⟩ := completed_advance (p := p) hcom fun r hr => by
    obtain ⟨hid, hplan⟩ := hwk.follows.of_plan hm hp hr
    exact ⟨hid.trans hm.symm, hplan⟩
  -- up to the canary nothing has been published
  have hnone : Early dst ∨ dst = .canary →
      published (hist (e.serve w t env (.saveState i src dst c b) k) m) = [] := by
    intro hd
    have hsrc : Early src ∧ dst ≠ .cutover := by
      cases hadv <;> simp_all [Early]
    rw [hh, published_append, hfit.early hsrc.1]
    have : traffic ⟨.saveState i src dst c b, e.answer env (.saveState i src dst c b)⟩ = none := by
      by_contra hne
      obtain ⟨s, hs⟩ := Option.ne_none_iff_exists'.mp hne
      exact hsrc.2 (traffic_saveState hs).2.1
    simp [published, entry, this]
  have hfits : Fits p (hist (e.serve w t env (.saveState i src dst c b) k) m) dst c := by
    refine ⟨fun hd => hnone (Or.inl hd), fun hd _ s hs => ?_⟩
    rw [hnone (Or.inr hd)] at hs
    cases hs
  refine ⟨fun r hr => ?_, hf, ?_, fun s hst => ?_, fun _ hno' => ?_,
    fun hpt i' r hmem => ?_⟩
  · obtain ⟨hst, hcp⟩ := hrow r hr
    rw [hst, hcp]
    exact hfits
  · rw [hh]
    exact hwk.recent_snoc _
  · cases hst with
    | working hno' _ =>
      have := hno' _ (List.mem_append_right _ (List.mem_singleton.mpr rfl))
      cases this
    | loaded hstart _ =>
      have hstart : t.pt = .start := hstart
      rw [hstart] at hpt
      cases hpt
    | saved hmem =>
      rcases List.mem_append.mp hmem with hmem | hmem
      · exact absurd (hno _ hmem) (by simp [Op.isSave])
      · obtain ⟨hop, -⟩ := Event.mk.inj (List.mem_singleton.mp hmem)
        cases hop
        obtain ⟨r', hr', -⟩ := keeps_step (.serve hw hc : Stepped delay e (.work w env) _) m r0 hr0
        obtain ⟨hst, hcp⟩ := hrow r' hr'
        exact ⟨r', hr', Or.inl hst, hcp ▸ hfits⟩
  · have := hno' _ (List.mem_append_right _ (List.mem_singleton.mpr rfl))
    cases this
  · rw [hh]
    exact hwk.fresh_snoc hm hc hok hw hpt hmem

/-- What a write that takes effect makes of the row. -/
theorem rows_effect {env : Env} {op : Op} {i : Id} {f : Row → Row} {r' : Row}
    (he : (e.effect env op).store.rows i = (e.store.rows i).map f)
    (hr : (e.effect env op).store.rows i = some r') : ∃ r, e.store.rows i = some r ∧ r' = f r := by
  rw [he] at hr
  obtain ⟨r, hr, heq⟩ := Option.map_eq_some_iff.mp hr
  exact ⟨r, hr, heq.symm⟩

/-- The answer to the worker of `m`, by what it makes of the row. -/
theorem Working.serve (hwk : Working delay m p e w t l l' tr) (hm : t.id = m)
    (hp : ∀ r, e.store.rows m = some r → r.plan.plan = p) (ho : Ordered p) (ha : Accepted p)
    {env : Env} {op : Op} {k : op.Ret → Code Exit} (hc : t.code = .call op k)
    (hok : Unresumed m e (.work w env)) (hw : e.workers w = some t)
    (hstored : ∀ r, e.store.rows m = some r → Fits p (hist e m) r.state r.checkpoint) :
    (∀ r, (e.effect env op).store.rows m = some r →
      Fits p (hist (e.serve w t env op k) m) r.state r.checkpoint) ∧
    Working delay m p (e.serve w t env op k) w { t with code := k (e.answer env op) } l l'
      (tr ++ [⟨op, e.answer env op⟩]) := by
  have hf := hwk.follows.serve hc (keeps_step (.serve hw hc : Stepped delay e (.work w env) _))
  cases op with
  | saveState i src dst c b =>
    by_cases hwr : (env.fails && !env.landed) = true
    · have hfail : env.fails = true := (Bool.and_eq_true_iff.mp hwr).1
      refine hwk.serve_quiet hm hp ho ha hc hok hw hstored ?_ ?_ (by rintro i s ⟨⟩) hf
      · simp [Engine.effect, Engine.write, hwr]
      · rintro i src dst c b heq
        obtain ⟨hop, hans⟩ := Event.mk.inj heq
        cases hop
        have hans := eq_of_heq hans
        simp [Engine.answer, hfail] at hans
    · obtain rfl := ((hwk.follows.stretch.ask hc).save_inv).1.trans hm
      refine hwk.serve_save hm hp hc hok hw (fun r' hr' => ?_) hf
      obtain ⟨r, -, rfl⟩ := rows_effect
        (by simp [Engine.effect, Engine.write, hwr, Store.saveState]; rfl) hr'
      exact ⟨rfl, rfl⟩
  | saveCheckpoint i st c =>
    by_cases hwr : (env.fails && !env.landed) = true
    · have hfail : env.fails = true := (Bool.and_eq_true_iff.mp hwr).1
      refine hwk.serve_quiet hm hp ho ha hc hok hw hstored ?_ (by rintro i src dst c b ⟨⟩) ?_ hf
      · simp [Engine.effect, Engine.write, hwr]
      · rintro i s heq
        obtain ⟨hop, hans⟩ := Event.mk.inj heq
        cases hop
        have hans := eq_of_heq hans
        simp [Engine.answer, hfail] at hans
    · obtain rfl := (hwk.follows.checkpoint_id hc).trans hm
      refine hwk.serve_checkpoint hm hc hok hw hstored (fun r' hr' => ?_) hf
      obtain ⟨r, hr, rfl⟩ := rows_effect
        (by simp [Engine.effect, Engine.write, hwr, Store.saveCheckpoint]; rfl) hr'
      exact ⟨r, hr, rfl, rfl⟩
  | _ =>
    exact hwk.serve_quiet hm hp ho ha hc hok hw hstored rfl (by rintro i src dst c b ⟨⟩)
      (by rintro i s ⟨⟩) hf

end Working

/-! ### Runs -/

/-- Steps that leave the history of `m` and its workers, and at most abort it. -/
theorem Inv.of_same (h : Inv delay m p e) (hh : hist e' m = hist e m)
    (hrow : ∀ r', e'.store.rows m = some r' → (e.store.rows m = none ∧ r'.state = .pending) ∨
      ∃ r, e.store.rows m = some r ∧ r'.checkpoint = r.checkpoint ∧
        (r'.state = r.state ∨ r'.state = .rolledBack))
    (hk : Store.Keeps e.store e'.store)
    (hw : ∀ w t, e'.workers w = some t → t.id = m → e.workers w = some t)
    (hf : ∀ {w t l tr}, Follows delay e w t l tr → e'.workers w = some t → t.id = m →
      Follows delay e' w t l tr) : Inv delay m p e' := by
  refine ⟨h.one.of_same hw, hh ▸ h.sorted, hh ▸ h.back, fun hnone => ?_, fun r' hr' => ?_,
    fun w t ht hm => ?_⟩
  · rw [hh]
    cases hr : e.store.rows m with
    | none => exact h.absent hr
    | some r =>
      obtain ⟨r', hr', -⟩ := hk m r hr
      cases hnone.symm.trans hr'
  · rw [hh]
    rcases hrow r' hr' with ⟨hnone, hst⟩ | ⟨r, hr, hcp, hst⟩
    · exact ⟨fun _ => h.absent hnone, fun hcan => by rw [hst] at hcan; cases hcan⟩
    · rcases hst with hst | hst
      · rw [hst, hcp]
        exact h.stored r hr
      · rw [hst]
        exact ⟨fun hearly => absurd hearly (not_early (Or.inr rfl)), by rintro ⟨⟩⟩
  · obtain ⟨l, l', tr, hwk⟩ := h.working w t (hw w t ht hm) hm
    refine ⟨l, l', tr, hwk.keep (hf hwk.follows ht hm) hh fun r hr => ?_⟩
    obtain ⟨r', hr', -⟩ := hk m r hr
    rcases hrow r' hr' with ⟨hnone, -⟩ | ⟨r0, hr0, hcp, hst⟩
    · cases hr.symm.trans hnone
    · cases hr.symm.trans hr0
      exact ⟨r', hr', hcp, hst⟩

/-- A step of the worker of `m`. -/
theorem Inv.of_worker {t : Task} (h : Inv delay m p e) (hw : e.workers w = some t) (hm : t.id = m)
    (hh : hist e' m = hist e m) (hs : e'.store = e.store)
    (hother : ∀ w', w' ≠ w → e'.workers w' = e.workers w')
    (hself : ∀ t', e'.workers w = some t' → ∃ l l' tr, Working delay m p e' w t' l l' tr) :
    Inv delay m p e' := by
  refine ⟨h.one.of_worker hw hm hother, hh ▸ h.sorted, hh ▸ h.back, ?_, ?_, fun w' t' ht' hm' => ?_⟩
  · rw [hh, hs]
    exact h.absent
  · rw [hh, hs]
    exact h.stored
  · by_cases hww : w' = w
    · subst hww
      exact hself t' ht'
    · rw [hother w' hww] at ht'
      exact absurd (h.one w' w t' t ht' hw hm' hm) hww

/-- An answer to the worker of `m`. -/
theorem Inv.serve {t : Task} {env : Env} {op : Op} {k : op.Ret → Code Exit} (h : Inv delay m p e)
    (hp : ∀ r, e.store.rows m = some r → r.plan.plan = p) (ho : Ordered p) (ha : Accepted p)
    (hok : Unresumed m e (.work w env)) (hw : e.workers w = some t) (hm : t.id = m)
    (hc : t.code = .call op k) : Inv delay m p (e.serve w t env op k) := by
  obtain ⟨l, l', tr, hwk⟩ := h.working w t hw hm
  obtain ⟨hstored, hself⟩ := hwk.serve hm hp ho ha hc hok hw h.stored
  have hh : hist (e.serve w t env op k) m = _ := hist_serve t env op k hm
  have hother : ∀ w', w' ≠ w → (e.serve w t env op k).workers w' = e.workers w' :=
    fun w' hww => workers_serve_of_ne _ _ _ _ hww
  refine ⟨h.one.of_worker hw hm hother, ?_, ?_, fun hnone => ?_, hstored, fun w' t' ht' hm' => ?_⟩
  · rw [hh]
    exact hwk.sorted_snoc hm hp ho ha hc _ h.sorted
  · rw [hh]
    exact hwk.back_snoc h.back hc _
  · cases hr : e.store.rows m with
    | some r =>
      obtain ⟨r', hr', -⟩ := keeps_step (.serve hw hc : Stepped delay e (.work w env) _) m r hr
      cases hnone.symm.trans hr'
    | none =>
      rw [hh, published_append, h.absent hr]
      cases htr : traffic ⟨op, e.answer env op⟩ with
      | none => simp [published, entry, htr]
      | some s =>
        obtain ⟨hno, hpt, -⟩ := hwk.climbs hm hp ho ha hc htr
        obtain ⟨r, hr', -⟩ := hwk.held .canary (.working hno (by rw [hpt]; rfl))
        cases hr.symm.trans hr'
  · rcases serve_cases ht' with ⟨rfl, rfl⟩ | ⟨hww, ht'⟩
    · exact ⟨_, _, _, hself⟩
    · exact absurd (h.one w' w t' t ht' hw hm' hm) hww

/-- A step without a request or an answer. -/
theorem Inv.of_store (h : Inv delay m p e) (hl : e'.log = e.log) (hs : e'.store = e.store)
    (hw : ∀ w t, e'.workers w = some t → t.id = m → e.workers w = some t) : Inv delay m p e' := by
  have hk : Store.Keeps e.store e'.store := hs ▸ Store.Keeps.refl _
  refine h.of_same (by unfold hist; rw [hl]) (fun r hr => Or.inr ⟨r, hs ▸ hr, rfl, Or.inl rfl⟩) hk hw
    fun hf _ _ => hf.of_log hl hk

/-- **Every step keeps it.** -/
theorem Inv.step (h : Inv delay m p e) (hfl : Followed delay e)
    (hp : ∀ r, e.store.rows m = some r → r.plan.plan = p) (ho : Ordered p) (ha : Accepted p)
    (hok : Unresumed m e a) (hs : Stepped delay e a e') : Inv delay m p e' := by
  have hk := keeps_step hs
  cases hs with
  | @apply q reported vp hr hq =>
    refine h.of_same rfl (fun r hr => ?_) hk (fun _ _ ht _ => ht) fun hf _ _ => hf.of_log rfl hk
    rcases Store.rows_createMigration hr with hr' | ⟨hi, -, hst, -⟩
    · exact Or.inr ⟨r, hr', rfl, Or.inl rfl⟩
    · exact Or.inl ⟨by rw [hi]; exact e.store.fresh _ le_rfl, hst⟩
  | @pickup w id ids hw hj =>
    by_cases hm : id = m
    · have hfree := hok (by rw [hj, hm]; rfl)
      refine ⟨fun w1 w2 t1 t2 h1 h2 m1 m2 => ?_, h.sorted, h.back, h.absent, h.stored,
        fun w' t' ht' hm' => ?_⟩
      · rw [(eq_of_setWorker (e := e) hfree h1 m1).1, (eq_of_setWorker (e := e) hfree h2 m2).1]
      · obtain ⟨rfl, rfl⟩ := eq_of_setWorker (e := e) hfree ht' hm'
        subst hm
        exact ⟨_, _, _, working_taskAt _ _ _ (by rintro r pr ⟨⟩) (by rintro s ⟨⟩)⟩
    · refine h.of_store rfl rfl fun w' t' ht' hm' => ?_
      rcases setWorker_cases (e := e) ht' with ⟨rfl, hx⟩ | ⟨-, ht'⟩
      · cases hx
        exact absurd hm' hm
      · exact ht'
  | @goto w env t pt hw hc =>
    by_cases hm : t.id = m
    · refine h.of_worker hw hm rfl rfl (fun w' hww => setWorker_of_ne _ hww) fun t' ht' => ?_
      rw [setWorker_self] at ht'
      cases ht'
      obtain ⟨l, l', tr, hwk⟩ := h.working w t hw hm
      have hgoto := hwk.goto hm hc
      rw [hm]
      exact ⟨_, _, _, hgoto.keep (hgoto.follows.of_log rfl hk) rfl
        fun r hr => ⟨r, hr, rfl, Or.inl rfl⟩⟩
    · refine h.of_store rfl rfl fun w' t' ht' hm' => ?_
      rcases setWorker_cases ht' with ⟨rfl, hx⟩ | ⟨-, ht'⟩
      · cases hx
        exact absurd hm' hm
      · exact ht'
  | @stop w env t x hw hc =>
    refine h.of_store rfl rfl fun w' t' ht' hm' => ?_
    rcases setWorker_cases ht' with ⟨rfl, hx⟩ | ⟨-, ht'⟩
    · cases hx
    · exact ht'
  | @serve w env t op k hw hc =>
    by_cases hm : t.id = m
    · exact h.serve hp ho ha hok hw hm hc
    · obtain ⟨l, tr, hfw⟩ := hfl w t hw
      have hrow : (e.effect env op).store.rows m = e.store.rows m := hfw.rows_effect_of_ne hc hm
      have hne : ∀ w' t', (e.serve w t env op k).workers w' = some t' → t'.id = m → w' ≠ w := by
        rintro w' t' ht' hm' rfl
        rw [workers_serve] at ht'
        cases ht'
        exact hm hm'
      refine h.of_same (hist_serve_of_ne t env op k hm)
        (fun r hr => Or.inr ⟨r, hrow.symm.trans hr, rfl, Or.inl rfl⟩) hk (fun w' t' ht' hm' => ?_)
        fun hf ht' hm' => hf.serve_of_ne (hne _ _ ht' hm') hk
      exact (workers_serve_of_ne _ _ _ _ (hne w' t' ht' hm')).symm.trans ht'
  | @abort id =>
    refine h.of_same rfl (fun r hr => Or.inr ?_) hk (fun _ _ ht _ => ht)
      fun hf _ _ => hf.of_log rfl hk
    change (e.store.updateState id .rolledBack true).rows m = some r at hr
    rw [Store.updateState, Store.rows_modify] at hr
    split_ifs at hr
    · obtain ⟨r', hr', rfl⟩ := Option.map_eq_some_iff.mp hr
      exact ⟨r', hr', rfl, Or.inr rfl⟩
    · exact ⟨r, hr, rfl, Or.inl rfl⟩
  | restart => exact h.of_store rfl rfl (by rintro w t ⟨⟩)
  | refused hq => exact h
  | send hi hcap => exact h.of_store rfl rfl fun _ _ ht _ => ht
  | resume hr hcap => exact h.of_store rfl rfl fun _ _ ht _ => ht

theorem inv_of_run {as : List (Act n)} (h : Runs delay (Unresumed m) (Engine.init n) as e)
    (ho : Ordered p) (ha : Accepted p) (hp : ∀ r, e.store.rows m = some r → r.plan.plan = p) :
    Inv delay m p e := by
  have hinv : Followed delay e ∧
      ((∀ r, e.store.rows m = some r → r.plan.plan = p) → Inv delay m p e) := by
    refine h.invariant (I := fun e => Followed delay e ∧
      ((∀ r, e.store.rows m = some r → r.plan.plan = p) → Inv delay m p e))
      ⟨followed_init, fun _ => inv_init⟩ fun e a e' hu hstep => ?_
    have hs := step_inv hstep.1
    refine ⟨hu.1.step hs, fun hp' => ?_⟩
    have hp : ∀ r, e.store.rows m = some r → r.plan.plan = p := by
      intro r hr
      obtain ⟨r', hr', heq⟩ := keeps_step hs m r hr
      rw [← heq, hp' r' hr']
    exact (hu.2 hp).step hu.1 hp ho ha hstep.2 hs
  exact hinv.2 hp

/-- **The canary is progressive**, in every run in which it is never entered with a checkpoint of an
earlier one, if the steps of the plan rise. -/
theorem canary_progressive {as : List (Act n)} {r : Row}
    (h : Runs delay (Unresumed m) (Engine.init n) as e) (hr : e.store.rows m = some r)
    (ho : Ordered r.plan.plan) : Progressive (hist e m) ∧ NeverBack m (hist e m) := by
  have hp : ∀ r', e.store.rows m = some r' → r'.plan.plan = r.plan.plan := by
    intro r' hr'
    cases hr.symm.trans hr'
    rfl
  have hinv := inv_of_run h ho r.plan.accepted hp
  exact ⟨hinv.sorted, hinv.back⟩

/-- The only worker is free when a migration is picked up, and no canary finds a checkpoint of an
earlier one. -/
def fromStart (m : Id) (e : Engine 1) : Act 1 → Bool
  | .pickup w => (e.workers w).isNone
  | .work w _ =>
    match e.workers w with
    | none => true
    | some t =>
      match t.pt, t.code with
      | .loop .canary, .call (.load _) _ => (e.store.rows m).all fun r => !started r.checkpoint
      | _, _ => true
  | _ => true

theorem unresumed_of_fromStart (e : Engine 1) (a : Act 1) (h : fromStart m e a = true) :
    Unresumed m e a := by
  cases a with
  | pickup w =>
    rintro - w' t hw -
    rw [Subsingleton.elim w' w, Option.isNone_iff_eq_none.mp h] at hw
    cases hw
  | work w env =>
    rintro t k hw hpt hc r hr
    simpa [fromStart, hw, hpt, hc, hr] using h
  | _ => trivial

/-- A crash after the first observation and before its checkpoint does no harm. -/
theorem canary_progressive_crash : ∃ (e : Engine 1) (r : Row), e.store.rows 0 = some r ∧
    published (hist e 0) = [1, 1, 5, 25, 100, 100] ∧ Progressive (hist e 0) ∧
      NeverBack 0 (hist e 0) := by
  have hrun : ((runs (Engine.step 0) (fromStart 0) (Engine.init 1)
      (submit plainPlan 0 ++ drive 0 32 ++ crash 0 ++ drive 0 22)).any fun e =>
        published (hist e 0) = [1, 1, 5, 25, 100, 100] ∧
          (e.store.rows 0).any fun r => r.plan.plan.canary.steps = [1, 5, 25, 100]) = true := by
    decide +kernel
  obtain ⟨e, he, hP⟩ := exists_path_of_any (unresumed_of_fromStart (m := 0)) hrun
  obtain ⟨hpub, hrow⟩ := of_decide_eq_true hP
  obtain ⟨r, hr, hst⟩ := (Option.any_eq_true _ _).mp hrow
  have hord : Ordered r.plan.plan := by
    unfold Ordered
    rw [of_decide_eq_true hst]
    decide
  exact ⟨e, r, hr, hpub, canary_progressive he hr hord⟩

/-- **A canary that is resumed goes back to its first step.** -/
theorem canary_goes_back : ¬∀ (n : ℕ) (delay : ℤ) (m : Id) (as : List (Act n)) (e : Engine n)
    (r : Row), Runs delay (Alone m) (Engine.init n) as e → e.store.rows m = some r →
      Progressive (hist e m) ∧ NeverBack m (hist e m) := by
  intro hall
  have hrun : ((runs (Engine.step 0) single (Engine.init 1)
      (submit plainPlan 0 ++ drive 0 37 ++ crash 0 ++ drive 0 8)).any fun e =>
        published (hist e 0) = [1, 5, 1] ∧ (e.store.rows 0).isSome) = true := by
    decide +kernel
  obtain ⟨e, he, hP⟩ := exists_path_of_any (alone_of_single (m := 0)) hrun
  obtain ⟨hpub, hrow⟩ := of_decide_eq_true hP
  obtain ⟨r, hr⟩ := Option.isSome_iff_exists.mp hrow
  obtain ⟨hprog, -⟩ := hall 1 0 0 _ e r he hr
  unfold Progressive at hprog
  rw [hpub] at hprog
  revert hprog
  decide

end MigrationSafety.Server.Resumption
