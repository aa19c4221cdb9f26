import MigrationSafety.StateMachine.Trace

/-! # The controller of a backfill

A backfill makes a controller when it starts, feeds it the readings of its loop and asks it for the
pace, all through the one throttle field. `session` is what a list of events leaves of the last
backfill: its configuration, its controller, and the events since. `body_pace` says how a run uses the
field: it never asks before it has made its own controller, and a reading goes to the controller it
has just been given. -/

namespace MigrationSafety.StateMachine.Pacing

open MigrationSafety.Lib.Effects MigrationSafety.Plan.Validate
open MigrationSafety.Safety.Throttle MigrationSafety.Safety.Executor
open MigrationSafety.StateMachine.Signature MigrationSafety.StateMachine.Handlers
open MigrationSafety.StateMachine.Run MigrationSafety.StateMachine.Trace

/-! ### Sessions -/

/-- A backfill since it made its controller. -/
structure Session where
  config : BackfillConfig
  ref : ℕ
  events : List (Event engine)

def Session.add (s : Session) (ev : Event engine) : Session := { s with events := s.events ++ [ev] }

def sessionStep (s : Option Session) : Event engine → Option Session
  | ⟨.newThrottle config, ref⟩ => some ⟨config, ref, []⟩
  | ev => s.map (·.add ev)

/-- **The last backfill of a list of events.** -/
def session (evs : List (Event engine)) : Option Session := evs.foldl sessionStep none

@[simp] theorem session_snoc (evs : List (Event engine)) (ev : Event engine) :
    session (evs ++ [ev]) = sessionStep (session evs) ev := by
  simp [session]

/-- Is this the start of a backfill? -/
def Op.isEnter : Op → Bool
  | .newThrottle _ => true
  | _ => false

theorem sessionStep_of_not_isEnter {s : Option Session} {ev : Event engine}
    (h : Op.isEnter ev.op = false) : sessionStep s ev = s.map (·.add ev) := by
  obtain ⟨op, ans⟩ := ev
  cases op <;> first | rfl | cases h

/-- The readings an event feeds to a controller. -/
def readingOf : Event engine → Option DBHealthMetrics
  | ⟨.adjustThrottle _ m, _⟩ => some m
  | _ => none

/-- The readings of a session. -/
def Session.readings (s : Session) : List DBHealthMetrics := s.events.filterMap readingOf

/-- **The controller the session would have, were it alone.** -/
def Session.solo (s : Session) : AdaptiveThrottle :=
  (newAdaptiveThrottle s.config).updates s.readings

theorem Session.solo_add_reading (s : Session) (ref : ℕ) (m : DBHealthMetrics) (u : Unit) :
    (s.add ⟨.adjustThrottle ref m, u⟩).solo = s.solo.update m := by
  simp [solo, readings, add, readingOf]

theorem Session.solo_add {s : Session} {ev : Event engine} (h : readingOf ev = none) :
    (s.add ev).solo = s.solo := by
  simp [solo, readings, add, h]

/-! ### How a run uses the field -/

/-- Does the operation look at the throttle field? -/
def Op.looks : Op → Bool
  | .throttleRef | .isCircuitTripped | .getBatchSize | .getThrottleMs => true
  | _ => false

/-- The last backfill made a controller for the plan of `r`. -/
def Entered (r : Record) (evs : List (Event engine)) : Prop :=
  ∃ s, session evs = some s ∧ s.config = backfillConfig r.plan

/-- In the loop of `r`, a run makes no other controller, and a reading goes to a controller it has
been given since it made its own. -/
structure LoopAsk (r : Record) (evs : List (Event engine)) (op : Op) : Prop where
  entered : Entered r evs
  stays : Op.isEnter op = false
  given : ∀ s ref m, session evs = some s → op = .adjustThrottle ref m →
    ⟨.throttleRef, ref⟩ ∈ s.events

/-- What a run may ask of the throttle, from a control point on. -/
def PaceAsk : Pt → List (Event engine) → Op → Prop
  | .batch r _, evs, op => LoopAsk r evs op
  | _, _, op => Op.looks op = false ∧ ∀ ref m, op ≠ .adjustThrottle ref m

/-- A run is in the loop only with a controller for the plan it has loaded. -/
def PaceDone (id : Id) : Pt → List (Event engine) → Exit → Prop
  | .batch r _, evs, .goto (.batch r' _) => r' = r ∧ Entered r evs
  | .loop _, evs, .goto (.batch r _) => ⟨.load id, some r⟩ ∈ evs ∧ Entered r evs
  | .start, _, .goto (.batch ..) => False
  | _, _, _ => True

section Loop
variable {r : Record} {evs t : List (Event engine)} {op : Op}

/-- Events of other kinds only lengthen the session. -/
theorem session_append {s : Session} (h : session evs = some s)
    (ht : ∀ ev ∈ t, Op.isEnter ev.op = false) :
    session (evs ++ t) = some { s with events := s.events ++ t } := by
  induction t generalizing evs s with
  | nil => simpa using h
  | cons ev t ih =>
    have hev : session (evs ++ [ev]) = some (s.add ev) := by
      rw [session_snoc, sessionStep_of_not_isEnter (ht ev (by simp)), h]
      rfl
    have := ih hev fun x hx => ht x (List.mem_cons_of_mem _ hx)
    simpa [Session.add] using this

theorem Entered.append (h : Entered r evs) (ht : ∀ ev ∈ t, Op.isEnter ev.op = false) :
    Entered r (evs ++ t) := by
  obtain ⟨s, hs, hc⟩ := h
  exact ⟨_, session_append hs ht, hc⟩

theorem Entered.snoc (h : Entered r evs) {ans : op.Ret} (hop : Op.isEnter op = false) :
    Entered r (evs ++ [⟨op, ans⟩]) :=
  h.append fun ev hev => by rw [List.mem_singleton.mp hev]; exact hop

theorem isEnter_of_kind (h : op.kind ≠ .throttle) : Op.isEnter op = false := by
  cases op <;> first | rfl | exact absurd rfl h

theorem looks_of_kind (h : op.kind ≠ .throttle) : Op.looks op = false := by
  cases op <;> first | rfl | exact absurd rfl h

theorem ne_adjust_of_kind (h : op.kind ≠ .throttle) (ref : ℕ) (m : DBHealthMetrics) :
    op ≠ .adjustThrottle ref m := by
  rintro rfl
  exact h rfl

/-- All operations but two are unconditional in the loop. -/
theorem Entered.allows (h : Entered r evs) (hop : Op.isEnter op = false)
    (hadj : ∀ ref m, op ≠ .adjustThrottle ref m) : LoopAsk r evs op :=
  ⟨h, hop, fun _ ref m _ heq => absurd heq (hadj ref m)⟩

theorem Entered.allows_of_kind (h : Entered r evs) (hop : op.kind ≠ .throttle) : LoopAsk r evs op :=
  h.allows (isEnter_of_kind hop) (ne_adjust_of_kind hop)

/-- A program that leaves the throttle alone. -/
theorem Entered.spec {α : Type} {p : Code α} {ks : List Kind} (h : Entered r evs)
    (hp : Within ks p) (hks : Kind.throttle ∉ ks) :
    p.Spec (LoopAsk r)
      (fun evs' _ => ∃ t, evs' = evs ++ t ∧ ∀ ev ∈ t, Op.isEnter ev.op = false) evs := by
  have hne : ∀ {op : Op}, op.kind ∈ ks → op.kind ≠ .throttle := fun hk heq => hks (heq ▸ hk)
  refine (hp.spec fun t op ht hop => ?_).mono (fun _ _ h => h) ?_
  · exact (h.append fun ev hev => isEnter_of_kind (hne (ht ev hev))).allows_of_kind (hne hop)
  · rintro _ a ⟨t, rfl, -, ht⟩
    exact ⟨t, rfl, fun ev hev => isEnter_of_kind (hne (ht ev hev))⟩

/-- A reading goes to the controller the field held when the update began. -/
theorem updateHealth_pace (h : Entered r evs) :
    updateHealth.Spec (LoopAsk r) (fun evs' _ => Entered r evs') evs := by
  refine spec_perform_bind.mpr ⟨h.allows rfl (by simp), fun ref => ?_⟩
  have hgiven : Entered r (evs ++ [⟨.throttleRef, ref⟩]) := h.snoc rfl
  refine (hgiven.spec collectHealthMetrics_within (by decide)).bind ?_
  rintro _ m ⟨t, rfl, ht⟩
  cases m with
  | none => exact hgiven.append ht
  | some m =>
    refine ⟨⟨hgiven.append ht, rfl, ?_⟩, fun u => (hgiven.append ht).snoc rfl⟩
    rintro s _ _ hs ⟨⟩
    obtain ⟨s0, hs0, -⟩ := h
    have hs1 : session (evs ++ [⟨.throttleRef, ref⟩]) = some _ :=
      session_append hs0 fun ev hev => by rw [List.mem_singleton.mp hev]; rfl
    rw [session_append hs1 ht] at hs
    cases hs
    simp

/-- An operation of the loop other than a reading. -/
theorem Entered.perform {α : Type} {Q : List (Event engine) → α → Prop} {f : op.Ret → Code α}
    (h : Entered r evs) (hop : Op.isEnter op = false) (hadj : ∀ ref m, op ≠ .adjustThrottle ref m)
    (hf : ∀ x, Entered r (evs ++ [⟨op, x⟩]) → (f x).Spec (LoopAsk r) Q (evs ++ [⟨op, x⟩])) :
    (ask op >>= f).Spec (LoopAsk r) Q evs :=
  spec_perform_bind.mpr ⟨h.allows hop hadj, fun x => hf x (h.snoc hop)⟩

theorem backfillRecord_pace (h : Entered r evs) (n : ℕ) (pr : Progress) :
    (backfillRecord r n pr).Spec (LoopAsk r) (fun evs' _ => Entered r evs') evs := by
  refine (h.spec collectHealthMetrics_within (by decide)).bind ?_
  rintro _ m ⟨t, rfl, ht⟩
  refine (h.append ht).perform rfl (by simp) fun ms h2 => ?_
  refine h2.perform rfl (by simp) fun ok h3 => ?_
  refine h3.perform rfl (by simp) fun saved h4 => ?_
  cases saved with
  | false => exact h4
  | true =>
    refine h4.perform rfl (by simp) fun pause h5 => ?_
    split_ifs
    · refine h5.perform rfl (by simp) fun b h6 => ?_
      cases b <;> exact h6
    · exact h5

theorem backfillAdvance_pace (h : Entered r evs) (n : ℕ) (pr : Progress) :
    (backfillAdvance r n pr).Spec (LoopAsk r) (fun evs' _ => Entered r evs') evs := by
  refine h.perform rfl (by simp) fun x h1 => ?_
  cases x with
  | none => exact h1
  | some newLastID =>
    dsimp only
    split_ifs
    · exact h1
    · exact backfillRecord_pace h1 n _

/-- **The loop of a backfill keeps its controller.** -/
theorem backfillTurn_pace (h : Entered r evs) (pr : Progress) :
    (backfillTurn r pr).Spec (LoopAsk r) (fun evs' _ => Entered r evs') evs := by
  refine h.perform rfl (by simp) fun b h1 => ?_
  cases b with
  | true => exact h1
  | false =>
    refine h1.perform rfl (by simp) fun tripped h2 => ?_
    cases tripped with
    | true => exact h2.perform rfl (by simp) fun _ h3 => h3
    | false =>
      refine (updateHealth_pace h2).bind fun evs3 _ h3 => ?_
      refine h3.perform rfl (by simp) fun size h4 => ?_
      refine h4.perform rfl (by simp) fun x h5 => ?_
      cases x with
      | none => exact h5
      | some n =>
        dsimp only
        split_ifs
        · exact h5
        · exact backfillAdvance_pace h5 n pr

end Loop

/-! ### A run -/

section Body
variable {delay : ℤ} {id : Id} {evs : List (Event engine)}

/-- In a loop, the controller has been made. -/
def Ready (pt : Pt) (evs : List (Event engine)) : Prop := ∀ r pr, pt = .batch r pr → Entered r evs

theorem Ready.append {pt : Pt} {t : List (Event engine)} (h : Ready pt evs)
    (ht : ∀ ev ∈ t, Op.isEnter ev.op = false) : Ready pt (evs ++ t) :=
  fun r pr heq => (h r pr heq).append ht

/-- Operations of other kinds are allowed everywhere. -/
theorem Ready.allows {pt : Pt} {op : Op} (h : Ready pt evs) (hop : op.kind ≠ .throttle) :
    PaceAsk pt evs op := by
  cases pt with
  | batch r pr => exact (h r pr rfl).allows_of_kind hop
  | _ => exact ⟨looks_of_kind hop, ne_adjust_of_kind hop⟩

theorem paceDone_of_ne {pt : Pt} {x : Exit} (h : ∀ r pr, x ≠ .goto (.batch r pr)) :
    PaceDone id pt evs x := by
  cases x with
  | stop _ => cases pt <;> trivial
  | goto pt' =>
    cases pt' with
    | batch r pr => exact absurd rfl (h r pr)
    | _ => cases pt <;> trivial

/-- Programs that leave the throttle alone. -/
theorem Ready.spec {pt : Pt} {α : Type} {p : Code α} {ks : List Kind} (h : Ready pt evs)
    (hp : Within ks p) (hks : Kind.throttle ∉ ks) :
    p.Spec (PaceAsk pt) (fun evs' _ => Ready pt evs') evs := by
  have hne : ∀ {op : Op}, op.kind ∈ ks → op.kind ≠ .throttle := fun hk heq => hks (heq ▸ hk)
  refine (hp.spec fun t op ht hop => ?_).mono (fun _ _ h => h) ?_
  · exact (h.append fun ev hev => isEnter_of_kind (hne (ht ev hev))).allows (hne hop)
  · rintro _ a ⟨t, rfl, -, ht⟩
    exact h.append fun ev hev => isEnter_of_kind (hne (ht ev hev))

/-- What follows a handler leaves the throttle alone. -/
theorem Ready.finish {pt : Pt} (h : Ready pt evs) (cur : State) (out : Outcome) :
    (finish delay id cur out).Spec (PaceAsk pt) (PaceDone id pt) evs := by
  have hne : ∀ {op : Op}, op.kind = .cursor ∨ op.kind = .clock → op.kind ≠ .throttle := by
    rintro op (hk | hk) <;> simp [hk]
  refine ((finish_all delay id cur out).spec fun t op ht hop => ?_).mono (fun _ _ h => h) ?_
  · exact (h.append fun ev hev => isEnter_of_kind (hne (ht ev hev))).allows (hne hop)
  · exact fun _ x hx => paceDone_of_ne hx.1

theorem dispatch_pace (r : Record) (cur : State) (h : Record → Code Outcome)
    (hc : handlers delay cur = some h) (hl : ⟨.load id, some r⟩ ∈ evs) :
    (dispatch delay id cur h r).Spec (PaceAsk (.loop cur)) (PaceDone id (.loop cur)) evs := by
  have hready : ∀ evs, Ready (.loop cur) evs := by rintro evs r pr ⟨⟩
  unfold dispatch
  split_ifs with hcol
  · refine spec_perform_bind.mpr ⟨⟨rfl, by simp⟩, fun ref => ?_⟩
    have hent : Entered r (evs ++ [⟨.newThrottle (backfillConfig r.plan), ref⟩]) :=
      ⟨_, session_snoc _ _, rfl⟩
    refine spec_perform_bind.mpr ⟨(hready _).allows (by simp [Op.kind]), fun x => ?_⟩
    cases x with
    | none => exact trivial
    | some k => exact ⟨by simp [hl], hent.snoc (by rfl)⟩
  · refine ((hready evs).spec (handlers_within hc r) (by decide)).bind fun evs' out h' => ?_
    exact h'.finish cur out

/-- **How a run uses the throttle field.** -/
theorem body_pace (pt : Pt) (h : Ready pt evs) :
    (body delay id pt).Spec (PaceAsk pt) (PaceDone id pt) evs := by
  cases pt with
  | start =>
    refine spec_perform_bind.mpr ⟨h.allows (by simp [Op.kind]), fun r => ?_⟩
    cases r <;> trivial
  | loop cur =>
    by_cases ht : isTerminal cur = true
    · simp only [body, if_pos ht]
      trivial
    · simp only [body, if_neg ht]
      refine spec_perform_bind.mpr ⟨h.allows (by simp [Op.kind]), fun b => ?_⟩
      cases b with
      | true => trivial
      | false =>
        simp only [Bool.false_eq_true, if_false]
        cases hc : handlers delay cur with
        | none => trivial
        | some hd =>
          refine spec_perform_bind.mpr ⟨⟨rfl, by simp⟩, fun r => ?_⟩
          cases r with
          | none => trivial
          | some r => exact dispatch_pace r cur hd hc (by simp)
  | batch r pr =>
    refine (backfillTurn_pace (h r pr rfl) pr).bind fun evs' x h' => ?_
    cases x with
    | again pr' => exact ⟨rfl, h'⟩
    | stop out =>
      have hready : Ready (.batch r pr) _ := fun r' pr' heq => by cases heq; exact h'
      exact hready.finish _ out

end Body

end MigrationSafety.StateMachine.Pacing
