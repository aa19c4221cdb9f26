import MigrationSafety.Frontend.Prometheus
import MigrationSafety.Lib.Histories
import MigrationSafety.StateMachine.Signature

/-! # The metrics of a process

The registry has a number for every list of label values a metric has been told of. A gauge is what it
was last set to (`get_of_gauge`), a counter how often it was told (`get_of_counter`).

Of the states of a migration, one is on if the moves have come in order (`on_iff_of_inOrder`). -/

namespace MigrationSafety.Server.Telemetry

open MigrationSafety.Lib MigrationSafety.Lib.Binary64 MigrationSafety.Lib.Histories
open MigrationSafety.Lib.Tables MigrationSafety.Lib.Texts
open MigrationSafety.Lib.Exposition (Sample Line)
open MigrationSafety.Frontend.Prometheus (Desc Plain valid_of_mem_descs descs)
open MigrationSafety.StateMachine.Signature (State)

/-! ### One metric -/

/-- The children of a metric, by the values of its labels. -/
structure Vec (d : Desc) (α : Type) where
  children : List (List Text × α)
  nodup : (children.map Prod.fst).Nodup
  arity : ∀ c ∈ children, c.1.length = d.labels.length

namespace Vec
variable {d : Desc} {α : Type}

def empty (d : Desc) (α : Type) : Vec d α := ⟨[], List.nodup_nil, fun _ h => by cases h⟩

/-- The child with these values, which is made if it is not there yet. -/
def withLabelValues (v : Vec d α) (values : List Text) (h : values.length = d.labels.length)
    (f : Option α → α) : Vec d α where
  children := alter values f v.children
  nodup := nodup_alter v.nodup
  arity := forall_mem_alter (P := fun ts : List Text => ts.length = d.labels.length) h v.arity

def set (v : Vec d Float64) (values : List Text) (h : values.length = d.labels.length) (x : Float64) :
    Vec d Float64 :=
  v.withLabelValues values h fun _ => x

def inc (v : Vec d ℕ) (values : List Text) (h : values.length = d.labels.length) : Vec d ℕ :=
  v.withLabelValues values h fun n => n.getD 0 + 1

def get (v : Vec d α) (values : List Text) : Option α := v.children.lookup values

/-- The samples of a metric. -/
def samples (v : Vec d α) (hd : d.Valid) (value : α → Float64) : List Sample :=
  v.children.attach.map fun c => d.sample hd c.1.1 (v.arity c.1 c.2) (value c.1.2)

/-- A metric with its samples. -/
def family (v : Vec d α) (hd : d ∈ descs) (value : α → Float64) : Desc × List Sample :=
  (d, v.samples (valid_of_mem_descs d hd) value)

variable {v : Vec d α} {values values' : List Text} (h : values.length = d.labels.length)

@[simp] theorem get_empty : (empty d α).get values = none := rfl

theorem get_withLabelValues {f : Option α → α} : (v.withLabelValues values h f).get values' =
    if values' = values then some (f (v.get values)) else v.get values' := by
  unfold get withLabelValues
  exact lookup_alter values'

@[simp] theorem get_set {v : Vec d Float64} {x : Float64} :
    (v.set values h x).get values' = if values' = values then some x else v.get values' :=
  get_withLabelValues h

@[simp] theorem get_inc {v : Vec d ℕ} : (v.inc values h).get values' =
    if values' = values then some ((v.get values).getD 0 + 1) else v.get values' :=
  get_withLabelValues h

/-- What holds of the values of every child. -/
def Keys (P : List Text → Prop) (v : Vec d α) : Prop := ∀ c ∈ v.children, P c.1

theorem keys_empty {P : List Text → Prop} : (empty d α).Keys P := fun _ h => by cases h

theorem keys_withLabelValues {P : List Text → Prop} {f : Option α → α} (hv : v.Keys P) (hP : P values) :
    (v.withLabelValues values h f).Keys P := by
  unfold Keys withLabelValues
  exact forall_mem_alter hP hv

theorem name_of_mem_family {hd : d ∈ descs} {value : α → Float64} {s : Sample}
    (hs : s ∈ (v.family hd value).2) : s.name = (v.family hd value).1.name.toList := by
  obtain ⟨c, -, rfl⟩ := List.mem_map.mp hs
  rfl

end Vec

/-! ### All metrics -/

structure Registry where
  stateInfo : Vec Frontend.Prometheus.stateInfo Float64
  transitions : Vec Frontend.Prometheus.transitions ℕ
  backfillRowsTotal : Vec Frontend.Prometheus.backfillRowsTotal Float64
  backfillRowsDone : Vec Frontend.Prometheus.backfillRowsDone Float64
  verifyParity : Vec Frontend.Prometheus.verifyParity Float64
  canaryStep : Vec Frontend.Prometheus.canaryStep Float64
  rollbacks : Vec Frontend.Prometheus.rollbacks ℕ
  cutoverParity : Vec Frontend.Prometheus.cutoverParity Float64

namespace Registry

/-- The registry of a new process. -/
def init : Registry where
  stateInfo := .empty _ _
  transitions := .empty _ _
  backfillRowsTotal := .empty _ _
  backfillRowsDone := .empty _ _
  verifyParity := .empty _ _
  canaryStep := .empty _ _
  rollbacks := .empty _ _
  cutoverParity := .empty _ _

variable (r : Registry) (migrationID planID : Text)

def setBackfill (total done : ℤ) : Registry :=
  { r with
    backfillRowsTotal := r.backfillRowsTotal.set [migrationID, planID] rfl (.ofInt total)
    backfillRowsDone := r.backfillRowsDone.set [migrationID, planID] rfl (.ofInt done) }

def setParity (parity : Float64) : Registry :=
  { r with verifyParity := r.verifyParity.set [migrationID, planID] rfl parity }

def setCutoverParity (parity : Float64) : Registry :=
  { r with cutoverParity := r.cutoverParity.set [migrationID, planID] rfl parity }

def setCanaryStep (pct : ℤ) : Registry :=
  { r with canaryStep := r.canaryStep.set [migrationID, planID] rfl (.ofInt pct) }

def incRollback : Registry := { r with rollbacks := r.rollbacks.inc [planID] rfl }

/-- The label of the previous state is cleared, if there is one. -/
def setState (prev cur : Text) : Registry :=
  let cleared := if prev ≠ [] then r.stateInfo.set [migrationID, planID, prev] rfl (.ofInt 0) else r.stateInfo
  { r with
    stateInfo := cleared.set [migrationID, planID, cur] rfl (.ofInt 1)
    transitions := r.transitions.inc [planID, cur] rfl }

end Registry

/-- A call of the package. -/
inductive Call
  | setBackfill (migrationID planID : Text) (total done : ℤ)
  | setParity (migrationID planID : Text) (parity : Float64)
  | setCutoverParity (migrationID planID : Text) (parity : Float64)
  | setCanaryStep (migrationID planID : Text) (pct : ℤ)
  | incRollback (planID : Text)
  | setState (migrationID planID prev cur : Text)

def Registry.tell (r : Registry) : Call → Registry
  | .setBackfill migrationID planID total done => r.setBackfill migrationID planID total done
  | .setParity migrationID planID parity => r.setParity migrationID planID parity
  | .setCutoverParity migrationID planID parity => r.setCutoverParity migrationID planID parity
  | .setCanaryStep migrationID planID pct => r.setCanaryStep migrationID planID pct
  | .incRollback planID => r.incRollback planID
  | .setState migrationID planID prev cur => r.setState migrationID planID prev cur

/-- The registry after these calls. -/
def registry (cs : List Call) : Registry := cs.foldl Registry.tell .init

@[simp] theorem registry_snoc (cs : List Call) (c : Call) :
    registry (cs ++ [c]) = (registry cs).tell c := by
  unfold registry
  rw [List.foldl_append, List.foldl_cons, List.foldl_nil]

/-! ### What a call says -/

namespace Call
variable (m p s : Text)

/-- What a call sets the gauges of a migration to. -/
def total : Call → Option Float64
  | .setBackfill m' p' total _ => if m = m' ∧ p = p' then some (.ofInt total) else none
  | _ => none

def done : Call → Option Float64
  | .setBackfill m' p' _ done => if m = m' ∧ p = p' then some (.ofInt done) else none
  | _ => none

def parity : Call → Option Float64
  | .setParity m' p' parity => if m = m' ∧ p = p' then some parity else none
  | _ => none

def cutoverParity : Call → Option Float64
  | .setCutoverParity m' p' parity => if m = m' ∧ p = p' then some parity else none
  | _ => none

def canaryPct : Call → Option Float64
  | .setCanaryStep m' p' pct => if m = m' ∧ p = p' then some (.ofInt pct) else none
  | _ => none

/-- Whether a state is the one a migration is in. -/
def state : Call → Option Float64
  | .setState m' p' prev cur =>
    if m = m' ∧ p = p' then
      if s = cur then some (.ofInt 1) else if prev ≠ [] ∧ s = prev then some (.ofInt 0) else none
    else none
  | _ => none

def isRollback : Call → Bool
  | .incRollback p' => p = p'
  | _ => false

def isTransition : Call → Bool
  | .setState _ p' _ cur => p = p' ∧ s = cur
  | _ => false

/-- The move of a migration: its plan, and the states. -/
def move : Call → Option (Text × Text × Text)
  | .setState m' p' prev cur => if m = m' then some (p', prev, cur) else none
  | _ => none

end Call

/-! ### Gauges and counters -/

section Values
variable {d : Desc} {values : List Text} {cs : List Call} {m p s : Text}

/-- **A gauge** is what it was last set to. -/
theorem get_of_gauge {v : Registry → Vec d Float64} {f : Call → Option Float64}
    (h0 : (v .init).get values = none)
    (hstep : ∀ r c, (v (r.tell c)).get values = (f c).or ((v r).get values)) (cs : List Call) :
    (v (registry cs)).get values = latest f cs := by
  induction cs using List.reverseRecOn with
  | nil => exact h0
  | append_singleton cs c ih => rw [registry_snoc, hstep, ih, latest_snoc]

/-- **A counter** counts. -/
theorem get_of_counter {v : Registry → Vec d ℕ} {f : Call → Bool} (h0 : (v .init).get values = none)
    (hstep : ∀ r c, (v (r.tell c)).get values =
      if f c = true then some (((v r).get values).getD 0 + 1) else (v r).get values) (cs : List Call) :
    (v (registry cs)).get values = if cs.countP f = 0 then none else some (cs.countP f) := by
  induction cs using List.reverseRecOn with
  | nil => exact h0
  | append_singleton cs c ih =>
    rw [registry_snoc, hstep, ih, List.countP_append, List.countP_singleton]
    by_cases hc : f c = true
    · rw [if_pos hc, if_pos hc, if_neg (Nat.succ_ne_zero _)]
      split_ifs with hzero
      · rw [hzero]
        rfl
      · rfl
    · rw [if_neg hc, if_neg hc, Nat.add_zero]

theorem get_set_pair {v : Vec d Float64} {m' p' : Text} {x : Float64} (h : [m', p'].length = d.labels.length) :
    (v.set [m', p'] h x).get [m, p] = (if m = m' ∧ p = p' then some x else none).or (v.get [m, p]) := by
  rw [Vec.get_set]
  simp only [List.cons.injEq, and_true]
  split_ifs <;> rfl

theorem get_total : (registry cs).backfillRowsTotal.get [m, p] = latest (Call.total m p) cs := by
  refine get_of_gauge (v := Registry.backfillRowsTotal) rfl (fun r c => ?_) cs
  cases c with
  | setBackfill => exact get_set_pair rfl
  | _ => rfl

theorem get_done : (registry cs).backfillRowsDone.get [m, p] = latest (Call.done m p) cs := by
  refine get_of_gauge (v := Registry.backfillRowsDone) rfl (fun r c => ?_) cs
  cases c with
  | setBackfill => exact get_set_pair rfl
  | _ => rfl

theorem get_parity : (registry cs).verifyParity.get [m, p] = latest (Call.parity m p) cs := by
  refine get_of_gauge (v := Registry.verifyParity) rfl (fun r c => ?_) cs
  cases c with
  | setParity => exact get_set_pair rfl
  | _ => rfl

theorem get_cutoverParity :
    (registry cs).cutoverParity.get [m, p] = latest (Call.cutoverParity m p) cs := by
  refine get_of_gauge (v := Registry.cutoverParity) rfl (fun r c => ?_) cs
  cases c with
  | setCutoverParity => exact get_set_pair rfl
  | _ => rfl

theorem get_canaryStep : (registry cs).canaryStep.get [m, p] = latest (Call.canaryPct m p) cs := by
  refine get_of_gauge (v := Registry.canaryStep) rfl (fun r c => ?_) cs
  cases c with
  | setCanaryStep => exact get_set_pair rfl
  | _ => rfl

theorem get_stateInfo : (registry cs).stateInfo.get [m, p, s] = latest (Call.state m p s) cs := by
  refine get_of_gauge (v := Registry.stateInfo) rfl (fun r c => ?_) cs
  cases c with
  | setState m' p' prev cur =>
    refine (Vec.get_set rfl).trans ?_
    unfold Call.state
    by_cases hprev : prev = []
    · simp only [hprev, ne_eq, not_true_eq_false, if_false, false_and, List.cons.injEq, and_true]
      split_ifs <;> simp_all
    · have hcleared : (r.stateInfo.set [m', p', prev] rfl (.ofInt 0)).get [m, p, s] =
          if [m, p, s] = [m', p', prev] then some (.ofInt 0) else r.stateInfo.get [m, p, s] :=
        Vec.get_set rfl
      simp only [ne_eq, hprev, not_false_eq_true, if_true, hcleared, List.cons.injEq, and_true, true_and]
      split_ifs <;> simp_all
  | _ => rfl

theorem get_rollbacks : (registry cs).rollbacks.get [p] =
    if cs.countP (Call.isRollback p) = 0 then none else some (cs.countP (Call.isRollback p)) := by
  refine get_of_counter (v := Registry.rollbacks) rfl (fun r c => ?_) cs
  cases c with
  | incRollback p' =>
    refine (Vec.get_inc rfl).trans ?_
    simp only [Call.isRollback, List.cons.injEq, and_true, decide_eq_true_iff]
    split_ifs with h
    · rw [h]
    · rfl
  | _ => rfl

theorem get_transitions : (registry cs).transitions.get [p, s] =
    if cs.countP (Call.isTransition p s) = 0 then none else some (cs.countP (Call.isTransition p s)) := by
  refine get_of_counter (v := Registry.transitions) rfl (fun r c => ?_) cs
  cases c with
  | setState m' p' prev cur =>
    refine (Vec.get_inc rfl).trans ?_
    simp only [Call.isTransition, List.cons.injEq, and_true, decide_eq_true_iff]
    split_ifs with h
    · rw [h.1, h.2]
    · rfl
  | _ => rfl

end Values

/-! ### The states -/

section States
variable {cs : List Call} {m p p' s : Text}

/-- This state of a migration is on. -/
def On (cs : List Call) (m p s : Text) : Prop := latest (Call.state m p s) cs = some (.ofInt 1)

/-- The state a migration is moved to. -/
def Call.moved (m : Text) (c : Call) : Option Text := (c.move m).map fun move => move.2.2

/-- The moves of a migration follow each other, in its plan: each starts where the last one has ended, or
says again where that is. -/
def InOrder (cs : List Call) (m p : Text) : Prop :=
  Preceded (fun h c => ∀ p' prev cur, c.move m = some (p', prev, cur) → p' = p ∧
    ((prev = [] ∧ (latest (Call.moved m) h = none ∨ latest (Call.moved m) h = some cur)) ∨
      (prev ≠ [] ∧ latest (Call.moved m) h = some prev))) cs

theorem ofInt_zero_ne_one : Float64.ofInt 0 ≠ Float64.ofInt 1 := by
  decide +kernel

/-- **The state is on** that the migration was last moved to, and no other, if the moves are in order. -/
theorem on_iff_of_inOrder (h : InOrder cs m p) :
    On cs m p' s ↔ p' = p ∧ latest (Call.moved m) cs = some s := by
  unfold On
  induction cs using List.reverseRecOn with
  | nil => simp
  | append_singleton cs c ih =>
    obtain ⟨hcs, hc⟩ := preceded_snoc.mp h
    have ih := ih hcs
    rw [latest_snoc, latest_snoc]
    by_cases hmove : ∃ p₀ prev cur, c = .setState m p₀ prev cur
    · obtain ⟨p₀, prev, cur, rfl⟩ := hmove
      obtain ⟨rfl, hfrom⟩ := hc p₀ prev cur (if_pos rfl)
      have hmoved : Call.moved m (.setState m p₀ prev cur) = some cur := by simp [Call.moved, Call.move]
      rw [hmoved, Option.some_or, Option.some.injEq]
      simp only [Call.state, true_and]
      by_cases hp : p' = p₀
      · rw [if_pos hp]
        by_cases hs : s = cur
        · simp [hp, hs]
        · rw [if_neg hs]
          simp only [Ne.symm hs, and_false, iff_false]
          split_ifs with hprev
          · exact fun heq => ofInt_zero_ne_one (Option.some.inj heq)
          · rw [Option.none_or, ih]
            rintro ⟨-, hlast⟩
            rcases hfrom with ⟨-, hnone | hcur⟩ | ⟨hne, hlast'⟩
            · cases hnone.symm.trans hlast
            · exact hs (Option.some.inj (hcur.symm.trans hlast)).symm
            · exact hprev ⟨hne, (Option.some.inj (hlast'.symm.trans hlast)).symm⟩
      · rw [if_neg hp, Option.none_or, ih]
        simp [hp]
    · have hstate : Call.state m p' s c = none := by
        cases c with
        | setState m' p₀ prev cur =>
          have hm : m ≠ m' := fun heq => hmove ⟨p₀, prev, cur, by rw [heq]⟩
          simp [Call.state, hm]
        | _ => rfl
      have hmoved : Call.moved m c = none := by
        cases c with
        | setState m' p₀ prev cur =>
          have hm : m ≠ m' := fun heq => hmove ⟨p₀, prev, cur, by rw [heq]⟩
          simp [Call.moved, Call.move, hm]
        | _ => rfl
      rw [hstate, hmoved, Option.none_or, Option.none_or, ih]

end States

/-! ### What the calls say -/

/-- The text of a state. -/
def IsState (s : Text) : Prop := ∃ state : State, s = state.text.toList

instance (v : Text) : Decidable (Plain v) :=
  decidable_of_iff ([',', '}', '\\', '"', '\n'].all (fun c => !v.contains c) = true ∧ trim v = v)
    (by simp [Plain])

theorem IsState.plain {s : Text} (h : IsState s) : Plain s := by
  obtain ⟨state, rfl⟩ := h
  cases state <;> decide +kernel

/-- The ids are plain, and the states are those of the state machine. -/
def Call.Sound : Call → Prop
  | .setBackfill m p _ _ | .setParity m p _ | .setCutoverParity m p _ | .setCanaryStep m p _ => Plain m ∧ Plain p
  | .incRollback p => Plain p
  | .setState m p prev cur => Plain m ∧ Plain p ∧ (prev = [] ∨ IsState prev) ∧ IsState cur

/-- So are the values of the labels. -/
structure Registry.Sound (r : Registry) : Prop where
  stateInfo : r.stateInfo.Keys fun ts => ∀ t ∈ ts, Plain t
  transitions : r.transitions.Keys fun ts => ∃ p s, ts = [p, s] ∧ Plain p ∧ IsState s
  backfillRowsTotal : r.backfillRowsTotal.Keys fun ts => ∀ t ∈ ts, Plain t
  backfillRowsDone : r.backfillRowsDone.Keys fun ts => ∀ t ∈ ts, Plain t
  verifyParity : r.verifyParity.Keys fun ts => ∀ t ∈ ts, Plain t
  canaryStep : r.canaryStep.Keys fun ts => ∀ t ∈ ts, Plain t
  rollbacks : r.rollbacks.Keys fun ts => ∀ t ∈ ts, Plain t
  cutoverParity : r.cutoverParity.Keys fun ts => ∀ t ∈ ts, Plain t

section Sound
variable {m p s : Text}

theorem forall_mem_pair (hm : Plain m) (hp : Plain p) : ∀ t ∈ [m, p], Plain t := by
  simp [hm, hp]

theorem forall_mem_triple (hm : Plain m) (hp : Plain p) (hs : Plain s) : ∀ t ∈ [m, p, s], Plain t := by
  simp [hm, hp, hs]

theorem Registry.Sound.tell {r : Registry} {c : Call} (hr : r.Sound) (hc : c.Sound) : (r.tell c).Sound := by
  cases c with
  | setBackfill m p =>
    have hkey := forall_mem_pair hc.1 hc.2
    exact { hr with
      backfillRowsTotal := Vec.keys_withLabelValues rfl hr.backfillRowsTotal hkey
      backfillRowsDone := Vec.keys_withLabelValues rfl hr.backfillRowsDone hkey }
  | setParity m p =>
    exact { hr with
      verifyParity := Vec.keys_withLabelValues rfl hr.verifyParity (forall_mem_pair hc.1 hc.2) }
  | setCutoverParity m p =>
    exact { hr with
      cutoverParity := Vec.keys_withLabelValues rfl hr.cutoverParity (forall_mem_pair hc.1 hc.2) }
  | setCanaryStep m p =>
    exact { hr with canaryStep := Vec.keys_withLabelValues rfl hr.canaryStep (forall_mem_pair hc.1 hc.2) }
  | incRollback p =>
    exact { hr with
      rollbacks := Vec.keys_withLabelValues rfl hr.rollbacks fun t ht => List.mem_singleton.mp ht ▸ hc }
  | setState m p prev cur =>
    obtain ⟨hm, hp, hprev, hcur⟩ := hc
    refine { hr with
      stateInfo := Vec.keys_withLabelValues rfl ?_ (forall_mem_triple hm hp hcur.plain)
      transitions := Vec.keys_withLabelValues rfl hr.transitions ⟨p, cur, rfl, hp, hcur⟩ }
    split_ifs with hnil
    · exact Vec.keys_withLabelValues rfl hr.stateInfo
        (forall_mem_triple hm hp (hprev.resolve_left hnil).plain)
    · exact hr.stateInfo

theorem sound_registry {cs : List Call} (h : ∀ c ∈ cs, c.Sound) : (registry cs).Sound := by
  induction cs using List.reverseRecOn with
  | nil => constructor <;> exact Vec.keys_empty
  | append_singleton cs c ih =>
    rw [registry_snoc]
    exact (ih fun c hc => h c (List.mem_append_left _ hc)).tell
      (h c (List.mem_append_right _ (List.mem_singleton.mpr rfl)))

end Sound

/-! ### What is exported -/

namespace Registry

/-- The metrics with their samples. -/
def families (r : Registry) : List (Desc × List Sample) :=
  [r.stateInfo.family (by simp [descs]) id,
    r.transitions.family (by simp [descs]) (fun n => .ofInt n),
    r.backfillRowsTotal.family (by simp [descs]) id,
    r.backfillRowsDone.family (by simp [descs]) id,
    r.verifyParity.family (by simp [descs]) id,
    r.canaryStep.family (by simp [descs]) id,
    r.rollbacks.family (by simp [descs]) (fun n => .ofInt n),
    r.cutoverParity.family (by simp [descs]) id]

variable {r : Registry}

/-- The text has the samples of the registry, in some order, among those of other metrics. -/
def Scraped (r : Registry) (ls : List Line) : Prop :=
  ∀ f ∈ r.families, ((Exposition.samples ls).filter (·.name = f.1.name.toList)).Perm f.2

/-- The metrics one after another. -/
def exposition (r : Registry) : List Line := r.families.flatMap fun f => f.2.map .sample

theorem name_of_mem_families : ∀ f ∈ r.families, ∀ s ∈ f.2, s.name = f.1.name.toList := by
  simp only [families, List.forall_mem_cons, List.not_mem_nil, false_imp_iff, implies_true, and_true]
  refine ⟨?_, ?_, ?_, ?_, ?_, ?_, ?_, ?_⟩ <;> exact fun s hs => Vec.name_of_mem_family hs

end Registry

/-- The samples of one metric. -/
theorem filter_flatMap_of_name {fs : List (Desc × List Sample)} {f : Desc × List Sample}
    (hname : ∀ f ∈ fs, ∀ s ∈ f.2, s.name = f.1.name.toList)
    (hn : (fs.map fun f => f.1.name.toList).Nodup) (hf : f ∈ fs) :
    (fs.flatMap Prod.snd).filter (·.name = f.1.name.toList) = f.2 := by
  induction fs with
  | nil => cases hf
  | cons f₀ fs ih =>
    rw [List.map_cons, List.nodup_cons] at hn
    rw [List.forall_mem_cons] at hname
    rw [List.flatMap_cons, List.filter_append]
    rcases List.mem_cons.mp hf with rfl | hf
    · have hsame : f.2.filter (·.name = f.1.name.toList) = f.2 :=
        List.filter_eq_self.mpr fun s hs => decide_eq_true (hname.1 s hs)
      have hnone : (fs.flatMap Prod.snd).filter (·.name = f.1.name.toList) = [] := by
        rw [List.filter_eq_nil_iff]
        intro s hs heq
        obtain ⟨f', hf', hs⟩ := List.mem_flatMap.mp hs
        have hclash : f'.1.name.toList = f.1.name.toList :=
          (hname.2 f' hf' s hs).symm.trans (of_decide_eq_true heq)
        exact hn.1 (hclash ▸ List.mem_map_of_mem (f := fun f => f.1.name.toList) hf')
      rw [hsame, hnone, List.append_nil]
    · have hnone : f₀.2.filter (·.name = f.1.name.toList) = [] := by
        rw [List.filter_eq_nil_iff]
        intro s hs heq
        have hclash : f₀.1.name.toList = f.1.name.toList :=
          (hname.1 s hs).symm.trans (of_decide_eq_true heq)
        exact hn.1 (hclash ▸ List.mem_map_of_mem (f := fun f => f.1.name.toList) hf)
      rw [hnone, List.nil_append]
      exact ih hname.2 hn.2 hf

theorem samples_exposition (r : Registry) :
    Exposition.samples r.exposition = r.families.flatMap Prod.snd := by
  unfold Registry.exposition Exposition.samples
  rw [List.filterMap_flatMap]
  refine List.flatMap_congr fun f _ => ?_
  rw [List.filterMap_map]
  exact List.filterMap_some

theorem scraped_exposition (r : Registry) : r.Scraped r.exposition := by
  intro f hf
  rw [samples_exposition, filter_flatMap_of_name Registry.name_of_mem_families ?_ hf]
  have hnames : r.families.map (fun f => f.1.name.toList) = descs.map fun d => d.name.toList := rfl
  rw [hnames]
  decide +kernel

end MigrationSafety.Server.Telemetry
