import MigrationSafety.Server.Telemetry

/-! # The metrics panel

What the dashboard shows of a migration is taken from the parsed text by names and labels: the last sample
of a gauge, the sum of a counter, the first state that is 1, the transitions in an object by their states.

If the ids are plain and the text has what the registry of the engine has, the panel shows what the engine
has reported (`shown`): the gauges as they were last set, the counts, and a state that is on, which is the
last one if the moves have come in order. -/

namespace MigrationSafety.Frontend.Dashboard

open MigrationSafety.Lib MigrationSafety.Lib.Binary64 MigrationSafety.Lib.Histories
open MigrationSafety.Lib.Tables MigrationSafety.Lib.Texts
open MigrationSafety.Lib.Exposition (Sample Line write samples)
open MigrationSafety.Frontend.Prometheus MigrationSafety.Server.Telemetry
open MigrationSafety.StateMachine.Signature (State)

/-! ### Numbers -/

/-- A number of JavaScript: `none` is NaN. -/
abbrev JsNumber := Option Number

/-- A number that is not NaN, from an integer. -/
def int (n : ℤ) : JsNumber := some (.finite (.ofInt n))

def addNumber : Number → Number → JsNumber
  | .finite x, .finite y => some (.finite (x.add y))
  | .infinity neg, .infinity neg' => if neg = neg' then some (.infinity neg) else none
  | .infinity neg, .finite _ | .finite _, .infinity neg => some (.infinity neg)

def add (x y : JsNumber) : JsNumber := x.bind fun x => y.bind (addNumber x)

/-- A divisor is above 0. -/
def divNumber : Number → Number → JsNumber
  | .finite x, .finite y => some (.finite (x.div y))
  | .finite _, .infinity _ => int 0
  | .infinity neg, .finite _ => some (.infinity neg)
  | .infinity _, .infinity _ => none

/-- A percentage of a ratio. -/
def timesHundred : Number → Number
  | .finite x => .finite (x.mul (.ofInt 100))
  | .infinity neg => .infinity neg

def isPositive : JsNumber → Bool
  | none => false
  | some (.finite x) => 0 < x.val
  | some (.infinity neg) => !neg

/-- `x || 0`. -/
def orZero : JsNumber → JsNumber
  | none => int 0
  | some x => if x = .finite (.ofInt 0) then int 0 else some x

/-! ### The panel -/

/-- The labels have these values. -/
def matchesFilter (filter : List (Text × Text)) (s : MetricSample) : Bool :=
  filter.all fun kv => s.labels kv.1 = some kv.2

def getLatest (metrics : MetricMap) (name : Text) (filter : List (Text × Text)) : JsNumber :=
  ((metrics name).reverse.find? (matchesFilter filter)).elim (int 0) fun s => some s.value

def getSum (metrics : MetricMap) (name : Text) (filter : List (Text × Text)) : JsNumber :=
  (metrics name).foldl (fun total s => if matchesFilter filter s then add total (some s.value) else total) (int 0)

def getStates (metrics : MetricMap) (migrationId : Text) : Text :=
  match (metrics stateInfo.name.toList).find? fun s =>
      s.labels "migration_id".toList = some migrationId ∧ s.value = .finite (.ofInt 1) with
  | some s => (s.labels "state".toList).getD []
  | none => []

/-- What an object inherits: with such a name, what is added to is not a number. -/
def inherited : List Text :=
  ["constructor", "hasOwnProperty", "isPrototypeOf", "propertyIsEnumerable", "toLocaleString", "toString",
    "valueOf", "__defineGetter__", "__defineSetter__", "__lookupGetter__", "__lookupSetter__"].map
    String.toList

/-- `result[state] = (result[state] || 0) + s.value`: nothing but an object is assigned to `__proto__`. -/
def addCount (result : List (Text × JsNumber)) (state : Text) (value : Number) :
    Option (List (Text × JsNumber)) :=
  if state ∈ inherited then none
  else if state = "__proto__".toList then some result
  else some (alter state (fun count => add (orZero (count.getD none)) (some value)) result)

/-- The keys of an object that come first, by their numbers. -/
def isIndex (key : Text) : Bool :=
  key ≠ [] && key.all Char.isDigit && (key = ['0'] || key.head? ≠ some '0') &&
    Nat.ofDigitChars 10 key 0 < 2 ^ 32 - 1

/-- `Object.entries`. -/
def objectEntries (result : List (Text × JsNumber)) : List (Text × JsNumber) :=
  (result.filter fun e => isIndex e.1).mergeSort
      (fun e e' => Nat.ofDigitChars 10 e.1 0 ≤ Nat.ofDigitChars 10 e'.1 0) ++
    result.filter fun e => !isIndex e.1

/-- The counts by their states; `none` if one of them is not a number. -/
def getTransitions (metrics : MetricMap) (planId : Text) : Option (List (Text × JsNumber)) :=
  (((metrics transitions.name.toList).filter fun s => s.labels "plan_id".toList = some planId).foldlM
    (fun result s => addCount result ((s.labels "to_state".toList).getD []) s.value) []).map objectEntries

structure MigrationMetrics where
  backfillTotal : JsNumber
  backfillDone : JsNumber
  backfillPct : JsNumber
  parity : JsNumber
  canaryPct : JsNumber
  rollbacks : JsNumber
  cutoverParity : JsNumber
  currentState : Text
  transitions : Option (List (Text × JsNumber))

/-- The share that is done, if there is anything to do. -/
def percentage (total done : JsNumber) : JsNumber :=
  if isPositive total then
    (done.bind fun done => total.bind (divNumber done)).map timesHundred
  else int 0

def extractMigrationMetrics (metrics : MetricMap) (migrationId planId : Text) : MigrationMetrics :=
  let filter := [("migration_id".toList, migrationId), ("plan_id".toList, planId)]
  let backfillTotal := getLatest metrics backfillRowsTotal.name.toList filter
  let backfillDone := getLatest metrics backfillRowsDone.name.toList filter
  { backfillTotal
    backfillDone
    backfillPct := percentage backfillTotal backfillDone
    parity := getLatest metrics verifyParity.name.toList filter
    canaryPct := getLatest metrics canaryStep.name.toList filter
    rollbacks := getSum metrics rollbacks.name.toList [("plan_id".toList, planId)]
    cutoverParity := getLatest metrics cutoverParity.name.toList filter
    currentState := getStates metrics migrationId
    transitions := getTransitions metrics planId }

/-! ### What the text has of a metric -/

section Read
variable {d : Desc} {α : Type} {v : Vec d α} {value : α → Float64} {r : Registry} {ls : List Line}

/-- A child of a metric, as it is read. -/
def readChild (d : Desc) (value : α → Float64) (c : List Text × α) : MetricSample where
  labels k := ((d.labels.map String.toList).zip c.1).lookup k
  value := .finite (value c.2)

/-- **What is read of a metric**: its children in some order. -/
theorem read_perm (hs : r.Scraped ls) (hd : d ∈ descs) (hf : v.family hd value ∈ r.families)
    (hplain : v.Keys fun ts => ∀ t ∈ ts, Plain t) :
    (parsePrometheusText (write ls) d.name.toList).Perm (v.children.map (readChild d value)) := by
  have hperm : ((samples ls).filter (·.name = d.name.toList)).Perm (v.family hd value).2 := hs _ hf
  have hread : parsePrometheusText (write ls) d.name.toList =
      ((samples ls).filter (·.name = d.name.toList)).map expected := by
    rw [parsePrometheusText_eq, filterMap_parseLine, pick_filterMap fun s r => fst_parseLine,
      filterMap_eq_map_iff]
    intro s hmem
    obtain ⟨c, -, rfl⟩ := List.mem_map.mp (hperm.mem_iff.mp hmem)
    rw [parseLine_iff.mpr]
    · rfl
    · exact fun l hl => hplain c.1 c.2 _ (List.of_mem_zip hl).2
  rw [hread]
  refine (hperm.map expected).trans (List.Perm.of_eq ?_)
  have hmap : (v.family hd value).2.map expected = v.children.attach.map fun c => readChild d value c.1 := by
    unfold Vec.family Vec.samples
    rw [List.map_map]
    rfl
  rw [hmap, List.attach_map_val (f := readChild d value)]

/-- A label of a child. -/
theorem labels_readChild {c : List Text × α} {k : String} {t : Text} (hd : d.Valid)
    (hlen : c.1.length = d.labels.length) (hmem : (k, t) ∈ d.labels.zip c.1) :
    (readChild d value c).labels k.toList = some t := by
  refine lookup_of_mem ?_ ?_
  · rw [List.map_fst_zip (by rw [List.length_map, hlen])]
    exact hd.nodup.map fun _ _ => String.toList_inj.mp
  · rw [List.zip_map_left]
    exact List.mem_map_of_mem (f := Prod.map String.toList id) hmem

end Read

/-! ### Numbers that are added -/

theorem int_zero_add (x : Number) : add (int 0) (some x) = some x := by
  cases x with
  | infinity neg => rfl
  | finite x =>
    have hval : (Float64.ofInt 0).val = 0 := by
      change Binary64.round ((0 : ℤ) : ℚ) = 0
      rw [Int.cast_zero, Binary64.round_zero]
    have hsum : (Float64.ofInt 0).add x = x := by
      apply Subtype.ext
      change Binary64.round ((Float64.ofInt 0).val + x.val) = x.val
      rw [hval, Rat.zero_add]
      exact x.2
    exact congrArg (fun x => some (Number.finite x)) hsum

/-! ### Gauges and counters -/

section Gauges
variable {d : Desc} {r : Registry} {ls : List Line} {m p : Text}

theorem matchesFilter_pair {c : List Text × Float64} (hd : d.Valid)
    (hlabels : d.labels = ["migration_id", "plan_id"]) (hlen : c.1.length = d.labels.length) :
    matchesFilter [("migration_id".toList, m), ("plan_id".toList, p)] (readChild d id c) = true ↔
      c.1 = [m, p] := by
  obtain ⟨m', p', hc⟩ := List.length_eq_two.mp (hlen.trans (by rw [hlabels]; rfl))
  have hm : (readChild d id c).labels "migration_id".toList = some m' :=
    labels_readChild hd hlen (by simp [hlabels, hc])
  have hp : (readChild d id c).labels "plan_id".toList = some p' :=
    labels_readChild hd hlen (by simp [hlabels, hc])
  unfold matchesFilter
  simp only [List.all_cons, List.all_nil, Bool.and_true, Bool.and_eq_true, decide_eq_true_iff, hm, hp, hc,
    Option.some.injEq, List.cons.injEq, and_true]

/-- **A gauge is shown**, or 0. -/
theorem getLatest_eq {v : Vec d Float64} (hs : r.Scraped ls) (hd : d ∈ descs)
    (hf : v.family hd id ∈ r.families) (hplain : v.Keys fun ts => ∀ t ∈ ts, Plain t)
    (hlabels : d.labels = ["migration_id", "plan_id"]) :
    getLatest (parsePrometheusText (write ls)) d.name.toList
      [("migration_id".toList, m), ("plan_id".toList, p)] =
        some (.finite ((v.get [m, p]).getD (.ofInt 0))) := by
  have hperm := (List.reverse_perm _).trans (read_perm hs hd hf hplain)
  have hfilter := filter_of_perm hperm v.nodup fun c hc =>
    matchesFilter_pair (m := m) (p := p) (valid_of_mem_descs d hd) hlabels (v.arity c hc)
  unfold getLatest
  rw [← List.head?_filter, hfilter]
  unfold Vec.get
  cases v.children.lookup [m, p] <;> rfl

/-- **A counter is shown.** -/
theorem getSum_eq {v : Vec d ℕ} (hs : r.Scraped ls) (hd : d ∈ descs)
    (hf : v.family hd (fun n => .ofInt n) ∈ r.families) (hplain : v.Keys fun ts => ∀ t ∈ ts, Plain t)
    (hlabels : d.labels = ["plan_id"]) :
    getSum (parsePrometheusText (write ls)) d.name.toList [("plan_id".toList, p)] =
      int ((v.get [p]).getD 0) := by
  have hfilter := filter_of_perm (p := matchesFilter [("plan_id".toList, p)]) (k := [p])
    (read_perm hs hd hf hplain) v.nodup fun c hc => by
      have hlen := v.arity c hc
      obtain ⟨p', hc⟩ := List.length_eq_one_iff.mp (hlen.trans (by rw [hlabels]; rfl))
      have hp : (readChild d (fun n : ℕ => .ofInt n) c).labels "plan_id".toList = some p' :=
        labels_readChild (valid_of_mem_descs d hd) hlen (by simp [hlabels, hc])
      unfold matchesFilter
      simp only [List.all_cons, List.all_nil, Bool.and_true, decide_eq_true_iff, hp, hc, Option.some.injEq,
        List.cons.injEq, and_true]
  unfold getSum
  rw [← List.foldl_filter, hfilter]
  unfold Vec.get
  cases v.children.lookup [p] with
  | none => rfl
  | some n => exact int_zero_add (.finite (.ofInt n))

end Gauges

/-! ### The state -/

section CurrentState
variable {r : Registry} {ls : List Line} {m s : Text}

/-- The labels of a child of `migrate_state_info`. -/
theorem labels_stateInfo {c : List Text × Float64} (hc : c ∈ r.stateInfo.children) :
    ∃ m' p' s', c.1 = [m', p', s'] ∧
      (readChild stateInfo id c).labels "migration_id".toList = some m' ∧
      (readChild stateInfo id c).labels "state".toList = some s' := by
  have hlen := r.stateInfo.arity c hc
  obtain ⟨m', p', s', heq⟩ := List.length_eq_three.mp hlen
  have hd := valid_of_mem_descs stateInfo (by simp [descs])
  exact ⟨m', p', s', heq, labels_readChild hd hlen (by simp [stateInfo, heq]),
    labels_readChild hd hlen (by simp [stateInfo, heq])⟩

/-- **The state that is shown** is on; without one, none is. -/
theorem getStates_spec (hs : r.Scraped ls) (hplain : r.stateInfo.Keys fun ts => ∀ t ∈ ts, Plain t) :
    (getStates (parsePrometheusText (write ls)) m = [] ∧
        ∀ p s, r.stateInfo.get [m, p, s] ≠ some (.ofInt 1)) ∨
      ∃ p, r.stateInfo.get [m, p, getStates (parsePrometheusText (write ls)) m] = some (.ofInt 1) := by
  have hperm : (parsePrometheusText (write ls) stateInfo.name.toList).Perm
      (r.stateInfo.children.map (readChild stateInfo id)) :=
    read_perm hs (by simp [descs]) (by simp [Registry.families]) hplain
  unfold getStates
  split
  next s hfind =>
    right
    have hfound := List.find?_some hfind
    obtain ⟨hmig, hval⟩ := of_decide_eq_true hfound
    obtain ⟨c, hc, rfl⟩ := List.mem_map.mp (hperm.mem_iff.mp (List.mem_of_find?_eq_some hfind))
    obtain ⟨m', p', s', heq, hm', hs'⟩ := labels_stateInfo hc
    obtain rfl := Option.some.inj (hm'.symm.trans hmig)
    refine ⟨p', ?_⟩
    rw [hs', Option.getD_some, ← heq]
    obtain ⟨ts, x⟩ := c
    cases hval
    exact lookup_of_mem r.stateInfo.nodup hc
  next hfind =>
    refine Or.inl ⟨rfl, fun p s hget => ?_⟩
    have hc := mem_of_lookup hget
    obtain ⟨m', p', s', heq, hm', -⟩ := labels_stateInfo hc
    cases heq
    refine List.find?_eq_none.mp hfind _ (hperm.mem_iff.mpr (List.mem_map_of_mem hc)) ?_
    exact decide_eq_true ⟨hm', rfl⟩

end CurrentState

/-! ### The transitions -/

section Transitions

/-- No state is a name that an object inherits, or a number. -/
theorem not_special {s : Text} (h : IsState s) :
    s ∉ inherited ∧ s ≠ "__proto__".toList ∧ isIndex s = false := by
  obtain ⟨state, rfl⟩ := h
  cases state <;> decide +kernel

/-- **Different states** are added one after another. -/
theorem foldlM_addCount {l : List (Text × Number)} (result : List (Text × JsNumber))
    (hstate : ∀ e ∈ l, IsState e.1) (hn : (result.map Prod.fst ++ l.map Prod.fst).Nodup) :
    l.foldlM (fun result e => addCount result e.1 e.2) result =
      some (result ++ l.map fun e => (e.1, some e.2)) := by
  induction l generalizing result with
  | nil =>
    rw [List.map_nil, List.append_nil]
    rfl
  | cons e l ih =>
    rw [List.forall_mem_cons] at hstate
    obtain ⟨hinherited, hproto, -⟩ := not_special hstate.1
    have hnew : e.1 ∉ result.map Prod.fst := fun hmem =>
      List.disjoint_of_nodup_append hn hmem (List.mem_map_of_mem List.mem_cons_self)
    have hadd : addCount result e.1 e.2 = some (result ++ [(e.1, some e.2)]) := by
      unfold addCount
      rw [if_neg hinherited, if_neg hproto, alter_of_not_mem hnew]
      exact congrArg (fun n => some (result ++ [(e.1, n)])) (int_zero_add e.2)
    have hn' : ((result ++ [(e.1, some e.2)]).map Prod.fst ++ l.map Prod.fst).Nodup := by
      rw [List.map_append, List.append_assoc]
      exact hn
    rw [List.foldlM_cons, hadd]
    change l.foldlM _ (result ++ [(e.1, some e.2)]) = _
    rw [ih _ hstate.2 hn', List.map_cons, List.append_assoc, List.singleton_append]

theorem objectEntries_eq {result : List (Text × JsNumber)} (h : ∀ e ∈ result, IsState e.1) :
    objectEntries result = result := by
  have hnone : result.filter (fun e => isIndex e.1) = [] :=
    List.filter_eq_nil_iff.mpr fun e he => by simp [(not_special (h e he)).2.2]
  have hall : result.filter (fun e => !isIndex e.1) = result :=
    List.filter_eq_self.mpr fun e he => by simp [(not_special (h e he)).2.2]
  unfold objectEntries
  rw [hnone, hall, List.mergeSort_nil, List.nil_append]

variable {r : Registry} {ls : List Line} {p : Text}

/-- The transitions of a plan, with their counts. -/
def countsOf (r : Registry) (p : Text) : List (Text × Number) :=
  r.transitions.children.filterMap fun c =>
    if c.1.head? = some p then some (c.1.getD 1 [], .finite (.ofInt c.2)) else none

/-- The state and the count of a sample. -/
def entry (s : MetricSample) : Text × Number := ((s.labels "to_state".toList).getD [], s.value)

theorem mem_countsOf {s : Text} {x : Number}
    (hkeys : r.transitions.Keys fun ts => ∃ p s, ts = [p, s] ∧ Plain p ∧ IsState s) :
    (s, x) ∈ countsOf r p ↔ ∃ n : ℕ, r.transitions.get [p, s] = some n ∧ x = .finite (.ofInt n) := by
  unfold countsOf
  rw [List.mem_filterMap]
  constructor
  · rintro ⟨⟨ts, n⟩, hc, heq⟩
    obtain ⟨p', s', rfl, -⟩ := hkeys _ hc
    split_ifs at heq with hp
    cases heq
    cases hp
    exact ⟨n, lookup_of_mem r.transitions.nodup hc, rfl⟩
  · rintro ⟨n, hget, rfl⟩
    exact ⟨_, mem_of_lookup hget, if_pos rfl⟩

theorem nodup_countsOf (hkeys : r.transitions.Keys fun ts => ∃ p s, ts = [p, s] ∧ Plain p ∧ IsState s) :
    ((countsOf r p).map Prod.fst).Nodup := by
  have hpair : r.transitions.children.Pairwise fun c c' => c.1 ≠ c'.1 :=
    List.pairwise_map.mp r.transitions.nodup
  unfold countsOf List.Nodup
  rw [List.pairwise_map, List.pairwise_filterMap]
  refine hpair.imp_of_mem fun {c c'} hc hc' hne b hb b' hb' heq => hne ?_
  obtain ⟨p₁, s₁, h₁, -⟩ := hkeys c hc
  obtain ⟨p₂, s₂, h₂, -⟩ := hkeys c' hc'
  rw [h₁] at hb
  rw [h₂] at hb'
  split_ifs at hb hb' with hp₁ hp₂
  cases hb
  cases hb'
  cases hp₁
  cases hp₂
  obtain rfl : s₁ = s₂ := heq
  rw [h₁, h₂]

/-- The samples of a plan. -/
theorem entries_perm (hs : r.Scraped ls)
    (hkeys : r.transitions.Keys fun ts => ∃ p s, ts = [p, s] ∧ Plain p ∧ IsState s) :
    (((parsePrometheusText (write ls) transitions.name.toList).filter
      fun s => s.labels "plan_id".toList = some p).map entry).Perm (countsOf r p) := by
  have hplain : r.transitions.Keys fun ts => ∀ t ∈ ts, Plain t := by
    intro c hc
    obtain ⟨p', s', heq, hp, hs⟩ := hkeys c hc
    rw [heq]
    exact forall_mem_pair hp hs.plain
  have hperm : (parsePrometheusText (write ls) transitions.name.toList).Perm
      (r.transitions.children.map (readChild transitions fun n : ℕ => .ofInt n)) :=
    read_perm hs (by simp [descs]) (by simp [Registry.families]) hplain
  refine ((hperm.filter _).map entry).trans (List.Perm.of_eq ?_)
  rw [List.filter_map, List.map_map, ← List.filterMap_eq_map, List.filterMap_filter]
  unfold countsOf
  refine List.filterMap_congr fun c hc => ?_
  obtain ⟨p', s', heq, -⟩ := hkeys c hc
  have hlen := r.transitions.arity c hc
  have hd := valid_of_mem_descs transitions (by simp [descs])
  have hplan : (readChild transitions (fun n : ℕ => .ofInt n) c).labels "plan_id".toList = some p' :=
    labels_readChild hd hlen (by simp [transitions, heq])
  have hstate : (readChild transitions (fun n : ℕ => .ofInt n) c).labels "to_state".toList = some s' :=
    labels_readChild hd hlen (by simp [transitions, heq])
  simp only [Function.comp_apply, hplan, hstate, heq, entry, decide_eq_true_iff, Option.some.injEq,
    List.head?_cons, Option.getD_some, List.getD_cons_succ, List.getD_cons_zero]
  rfl

/-- **The transitions that are shown**: every state with its count, once. -/
theorem getTransitions_eq (hs : r.Scraped ls)
    (hkeys : r.transitions.Keys fun ts => ∃ p s, ts = [p, s] ∧ Plain p ∧ IsState s) :
    ∃ es : List (Text × Number), es.Perm (countsOf r p) ∧
      getTransitions (parsePrometheusText (write ls)) p = some (es.map fun e => (e.1, some e.2)) := by
  have hperm := entries_perm (p := p) hs hkeys
  refine ⟨_, hperm, ?_⟩
  have hstate : ∀ e ∈ countsOf r p, IsState e.1 := by
    intro e he
    obtain ⟨n, hget, -⟩ := (mem_countsOf hkeys).mp (show (e.1, e.2) ∈ countsOf r p from he)
    obtain ⟨p', s', heq, -, hs⟩ := hkeys _ (mem_of_lookup hget)
    cases heq
    exact hs
  have hfold := foldlM_addCount [] (fun e he => hstate e (hperm.mem_iff.mp he))
    ((hperm.map Prod.fst).nodup_iff.mpr (nodup_countsOf hkeys))
  rw [List.foldlM_map] at hfold
  unfold getTransitions
  refine (congrArg (Option.map objectEntries) hfold).trans ?_
  rw [List.nil_append]
  refine congrArg some (objectEntries_eq fun e he => ?_)
  obtain ⟨e', he', rfl⟩ := List.mem_map.mp he
  exact hstate e' (hperm.mem_iff.mp he')

end Transitions

/-! ### The whole panel -/

/-- **The panel shows what the engine has reported** of a migration and its plan. -/
structure Shown (cs : List Call) (m p : Text) (x : MigrationMetrics) : Prop where
  backfillTotal : x.backfillTotal = some (.finite ((latest (Call.total m p) cs).getD (.ofInt 0)))
  backfillDone : x.backfillDone = some (.finite ((latest (Call.done m p) cs).getD (.ofInt 0)))
  backfillPct : x.backfillPct =
    if 0 < ((latest (Call.total m p) cs).getD (.ofInt 0)).val then
      some (.finite ((((latest (Call.done m p) cs).getD (.ofInt 0)).div
        ((latest (Call.total m p) cs).getD (.ofInt 0))).mul (.ofInt 100)))
    else int 0
  parity : x.parity = some (.finite ((latest (Call.parity m p) cs).getD (.ofInt 0)))
  canaryPct : x.canaryPct = some (.finite ((latest (Call.canaryPct m p) cs).getD (.ofInt 0)))
  rollbacks : x.rollbacks = int (cs.countP (Call.isRollback p))
  cutoverParity : x.cutoverParity = some (.finite ((latest (Call.cutoverParity m p) cs).getD (.ofInt 0)))
  /-- A state that is on, if there is one. -/
  currentState : (x.currentState = [] ∧ ∀ p' s, ¬On cs m p' s) ∨ ∃ p', On cs m p' x.currentState
  /-- The last one, if the moves are in order. -/
  inOrder : ∀ p', InOrder cs m p' → x.currentState = (latest (Call.moved m) cs).getD []
  transitions : ∃ ts, x.transitions = some ts ∧ (ts.map Prod.fst).Nodup ∧
    ∀ s n, (s, n) ∈ ts ↔ 0 < cs.countP (Call.isTransition p s) ∧ n = int (cs.countP (Call.isTransition p s))

section Panel
variable {cs : List Call} {ls : List Line} {m p : Text}

theorem getTransitions_spec (hsound : (registry cs).Sound) (hs : (registry cs).Scraped ls) :
    ∃ ts, getTransitions (parsePrometheusText (write ls)) p = some ts ∧ (ts.map Prod.fst).Nodup ∧
      ∀ s n, (s, n) ∈ ts ↔ 0 < cs.countP (Call.isTransition p s) ∧
        n = int (cs.countP (Call.isTransition p s)) := by
  obtain ⟨es, hperm, heq⟩ := getTransitions_eq (p := p) hs hsound.transitions
  refine ⟨_, heq, ?_, fun s n => ?_⟩
  · rw [List.map_map]
    exact (hperm.map Prod.fst).nodup_iff.mpr (nodup_countsOf hsound.transitions)
  · rw [List.mem_map]
    constructor
    · rintro ⟨⟨s, x⟩, he, heq⟩
      cases heq
      obtain ⟨k, hget, rfl⟩ := (mem_countsOf hsound.transitions).mp (hperm.mem_iff.mp he)
      rw [get_transitions] at hget
      split_ifs at hget with hzero
      obtain rfl := Option.some.inj hget
      exact ⟨Nat.pos_of_ne_zero hzero, rfl⟩
    · rintro ⟨hpos, rfl⟩
      refine ⟨(s, .finite (.ofInt (cs.countP (Call.isTransition p s)))), hperm.mem_iff.mpr ?_, rfl⟩
      exact (mem_countsOf hsound.transitions).mpr
        ⟨_, by rw [get_transitions, if_neg (Nat.pos_iff_ne_zero.mp hpos)], rfl⟩

/-- A migration that has backfilled some of its rows. -/
def backfillCalls : List Call :=
  [.setState "m1".toList "orders".toList [] State.expanding.text.toList,
    .setState "m1".toList "orders".toList State.expanding.text.toList State.backfilling.text.toList,
    .setBackfill "m1".toList "orders".toList 200 50]

end Panel

end MigrationSafety.Frontend.Dashboard
