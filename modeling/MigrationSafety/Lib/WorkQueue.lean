import Mathlib.Algebra.BigOperators.Ring.Finset
import Mathlib.Algebra.Order.BigOperators.Group.Finset
import Mathlib.Data.Fintype.BigOperators
import Mathlib.Tactic.Abel
import MigrationSafety.Lib.Paths

/-! # Work queues

A producer sends the jobs of a source into a channel of some capacity and closes it after the last one.
Workers receive them, wait for a slot of a semaphore, and finish them with some outcome; a worker that
finds the channel closed and empty stops. When the context is cancelled the producer may quit, and a
worker that waits may leave.

* `Inv`: every job the source has given is in the channel, with a worker, or done.
* `length_eq_taken`: what a run has done so far is its length, so no run is long (`length_le`).
* `progress`: as long as some worker has not stopped, a step is possible.
* `perm_of_stopped`: when all workers have stopped, every job has been done once. -/

namespace MigrationSafety.Lib.WorkQueue

open MigrationSafety.Lib.Paths

variable {σ α ρ : Type} {n : ℕ}

/-- The source gives a job and goes on. -/
def Gives (next : σ → Option (α × σ)) (x : σ) (a : α) (y : σ) : Prop := next x = some (a, y)

structure Config (σ α : Type) where
  /-- The next job of the source, or none. -/
  next : σ → Option (α × σ)
  capacity : ℕ
  slots : ℕ

inductive Worker (α : Type)
  | receiving
  /-- It has received the job and waits for a slot. -/
  | waiting (a : α)
  | working (a : α)
  | stopped

def Worker.isWorking : Worker α → Bool
  | working _ => true
  | _ => false

structure State (σ α ρ : Type) (n : ℕ) where
  /-- Without one the channel is closed. -/
  source : Option σ
  channel : List α
  workers : Fin n → Worker α
  /-- The jobs done, with their outcomes. -/
  done : List (α × ρ)
  cancelled : Bool

def start (x : σ) : State σ α ρ n where
  source := some x
  channel := []
  workers := fun _ => .receiving
  done := []
  cancelled := false

namespace State

def setWorker (s : State σ α ρ n) (w : Fin n) (x : Worker α) : State σ α ρ n :=
  { s with workers := Function.update s.workers w x }

/-- The slots in use. -/
def busy (s : State σ α ρ n) : ℕ := (Finset.univ.filter fun w => (s.workers w).isWorking = true).card

def Stopped (s : State σ α ρ n) : Prop := ∀ w, s.workers w = .stopped

end State

inductive Event (ρ : Type) (n : ℕ)
  | send
  | close
  | receive (w : Fin n)
  | acquire (w : Fin n)
  | finish (w : Fin n) (r : ρ)
  | stop (w : Fin n)
  | cancel
  | quit
  | leave (w : Fin n)

/-- **One step** of the producer, of a worker, or of the context. -/
inductive Step (c : Config σ α) (s : State σ α ρ n) : Event ρ n → State σ α ρ n → Prop
  | send {x y : σ} {a : α} (hsource : s.source = some x) (hnext : c.next x = some (a, y))
      (hroom : s.channel.length < c.capacity) :
      Step c s .send { s with source := some y, channel := s.channel ++ [a] }
  | close {x : σ} (hsource : s.source = some x) (hnext : c.next x = none) :
      Step c s .close { s with source := none }
  | receive {w : Fin n} {a : α} {l : List α} (hw : s.workers w = .receiving) (hl : s.channel = a :: l) :
      Step c s (.receive w) { s.setWorker w (.waiting a) with channel := l }
  | acquire {w : Fin n} {a : α} (hw : s.workers w = .waiting a) (hslot : s.busy < c.slots) :
      Step c s (.acquire w) (s.setWorker w (.working a))
  | finish {w : Fin n} {a : α} {r : ρ} (hw : s.workers w = .working a) :
      Step c s (.finish w r) { s.setWorker w .receiving with done := s.done ++ [(a, r)] }
  | stop {w : Fin n} (hw : s.workers w = .receiving) (hl : s.channel = []) (hsource : s.source = none) :
      Step c s (.stop w) (s.setWorker w .stopped)
  | cancel : Step c s .cancel { s with cancelled := true }
  | quit (hcancelled : s.cancelled = true) : Step c s .quit { s with source := none }
  | leave {w : Fin n} {a : α} (hw : s.workers w = .waiting a) (hcancelled : s.cancelled = true) :
      Step c s (.leave w) (s.setWorker w .stopped)

/-- The context is not cancelled, and a job that is finished has the outcome `r`. -/
def Event.Smooth (r : ρ) : Event ρ n → Prop
  | cancel => False
  | finish _ r' => r' = r
  | _ => True

/-- A step of a smooth run. -/
def SmoothStep (c : Config σ α) (r : ρ) (s : State σ α ρ n) (e : Event ρ n) (t : State σ α ρ n) : Prop :=
  Step c s e t ∧ e.Smooth r

/-! ### Sums over the workers -/

theorem sum_update {M : Type} [AddCommMonoid M] (f : Fin n → Worker α) (g : Worker α → M) (w : Fin n)
    (x : Worker α) : (∑ v, g (Function.update f w x v)) + g (f w) = (∑ v, g (f v)) + g x := by
  have hrest : ∑ v ∈ Finset.univ.erase w, g (Function.update f w x v) =
      ∑ v ∈ Finset.univ.erase w, g (f v) :=
    Finset.sum_congr rfl fun v hv => by rw [Function.update_of_ne (Finset.ne_of_mem_erase hv)]
  rw [← Finset.add_sum_erase _ _ (Finset.mem_univ w), hrest, Function.update_self,
    ← Finset.add_sum_erase Finset.univ (fun v => g (f v)) (Finset.mem_univ w), add_right_comm,
    add_comm (g x), add_right_comm]

/-- The job a worker has. -/
def Worker.held : Worker α → Multiset α
  | waiting a => {a}
  | working a => {a}
  | _ => 0

/-- The steps a worker has taken since it has last finished a job, that of the producer for its job
included. -/
def Worker.taken : Worker α → ℕ
  | receiving => 0
  | waiting _ => 2
  | working _ => 3
  | stopped => 1

/-- Whether the channel is closed, as a number. -/
def State.closed (s : State σ α ρ n) : ℕ := if s.source.isNone then 1 else 0

/-- **The steps taken so far**: four for a job that is done. -/
def State.taken (s : State σ α ρ n) : ℕ :=
  4 * s.done.length + (∑ w, (s.workers w).taken) + s.channel.length + s.closed

/-! ### The invariant -/

/-- The jobs `l` the source has given so far are in the channel, with a worker, or done. -/
structure Balanced (c : Config σ α) (x₀ : σ) (s : State σ α ρ n) (l : List α) (x : σ) : Prop where
  given : Path (Gives c.next) x₀ l x
  source : s.source = some x ∨ (s.source = none ∧ c.next x = none)
  jobs : (l : Multiset α) = s.channel + (∑ w, (s.workers w).held) + (s.done.map Prod.fst : List α)

/-- **What holds in a smooth run.** -/
structure Inv (c : Config σ α) (x₀ : σ) (r : ρ) (s : State σ α ρ n) : Prop where
  cancelled : s.cancelled = false
  outcome : ∀ p ∈ s.done, p.2 = r
  stopped : ∀ w, s.workers w = .stopped → s.source = none ∧ s.channel = []
  balanced : ∃ l x, Balanced c x₀ s l x

variable {c : Config σ α} {x₀ : σ} {r : ρ} {s t : State σ α ρ n} {e : Event ρ n}

theorem inv_start : Inv c x₀ r (start x₀ : State σ α ρ n) where
  cancelled := rfl
  outcome := List.forall_mem_nil _
  stopped := by
    intro w hw
    cases hw
  balanced := by
    refine ⟨[], x₀, Path.nil, Or.inl rfl, ?_⟩
    simp [start, Worker.held]

/-- A worker that goes on with the same job, or takes or leaves one. -/
theorem held_setWorker {w : Fin n} {y : Worker α} (hw : s.workers w = y) (x : Worker α) :
    (∑ v, ((s.setWorker w x).workers v).held) + y.held = (∑ v, (s.workers v).held) + x.held :=
  hw ▸ sum_update s.workers Worker.held w x

theorem taken_setWorker {w : Fin n} {y : Worker α} (hw : s.workers w = y) (x : Worker α) :
    (∑ v, ((s.setWorker w x).workers v).taken) + y.taken = (∑ v, (s.workers v).taken) + x.taken :=
  hw ▸ sum_update s.workers Worker.taken w x

/-- The source of an open channel. -/
theorem Balanced.source_eq {l : List α} {x y : σ} (hb : Balanced c x₀ s l x) (hy : s.source = some y) :
    x = y := by
  rcases hb.source with hx | ⟨hnone, -⟩
  · exact Option.some.inj (hx.symm.trans hy)
  · rw [hnone] at hy
    cases hy

/-- **What a step leaves of the balance**: only the producer gives jobs. -/
theorem Balanced.step {l : List α} {x : σ} (hb : Balanced c x₀ s l x) (hc : s.cancelled = false)
    (h : Step c s e t) (he : e.Smooth r) : ∃ l x, Balanced c x₀ t l x := by
  have hgiven := hb.given
  have hsource := hb.source
  have hjobs := hb.jobs
  cases h with
  | @send x' y a hx' hnext hroom =>
    obtain rfl := hb.source_eq hx'
    refine ⟨l ++ [a], y, hgiven.snoc hnext, Or.inl rfl, ?_⟩
    rw [← Multiset.coe_add, hjobs, ← Multiset.coe_add]
    abel
  | @close x' hx' hnext =>
    obtain rfl := hb.source_eq hx'
    exact ⟨l, x, hgiven, Or.inr ⟨rfl, hnext⟩, hjobs⟩
  | @receive w a rest hw hl =>
    have hheld := held_setWorker hw (.waiting a)
    refine ⟨l, x, hgiven, hsource, ?_⟩
    change (l : Multiset α) = rest + (∑ v, ((s.setWorker w (.waiting a)).workers v).held) + _
    have hsum : (∑ v, ((s.setWorker w (.waiting a)).workers v).held) =
        (∑ v, (s.workers v).held) + {a} := by simpa [Worker.held] using hheld
    rw [hsum, hjobs, hl, ← Multiset.cons_coe, ← Multiset.singleton_add]
    change _ = (rest : Multiset α) + _ + (s.done.map Prod.fst : List α)
    abel
  | @acquire w a hw hslot =>
    have hheld := held_setWorker hw (.working a)
    refine ⟨l, x, hgiven, hsource, ?_⟩
    have hsum : (∑ v, ((s.setWorker w (.working a)).workers v).held) = ∑ v, (s.workers v).held :=
      add_right_cancel hheld
    rw [hsum]
    exact hjobs
  | @finish w a r' hw =>
    have hheld := held_setWorker hw .receiving
    refine ⟨l, x, hgiven, hsource, ?_⟩
    have hsum : (∑ v, (s.workers v).held) =
        (∑ v, ((s.setWorker w .receiving).workers v).held) + {a} := by
      simpa [Worker.held] using hheld.symm
    rw [hjobs, hsum, List.map_append, ← Multiset.coe_add]
    change _ = (s.channel : Multiset α) + (∑ v, ((s.setWorker w .receiving).workers v).held) +
      ((s.done.map Prod.fst : List α) + ([a] : List α))
    rw [← Multiset.coe_singleton]
    abel
  | @stop w hw hl hnone =>
    have hheld := held_setWorker hw .stopped
    refine ⟨l, x, hgiven, hsource, ?_⟩
    have hsum : (∑ v, ((s.setWorker w .stopped).workers v).held) = ∑ v, (s.workers v).held :=
      add_right_cancel hheld
    rw [hsum]
    exact hjobs
  | cancel => cases he
  | quit hcancelled =>
    rw [hc] at hcancelled
    cases hcancelled
  | leave hw hcancelled =>
    rw [hc] at hcancelled
    cases hcancelled

/-- A worker that has stopped has done so before, or by this step. -/
theorem stopped_setWorker {w v : Fin n} {x : Worker α} (h : (s.setWorker w x).workers v = .stopped) :
    s.workers v = .stopped ∨ x = .stopped := by
  change Function.update s.workers w x v = .stopped at h
  by_cases hv : v = w
  · subst hv
    rw [Function.update_self] at h
    exact Or.inr h
  · rw [Function.update_of_ne hv] at h
    exact Or.inl h

/-- **A step keeps the invariant.** -/
theorem Inv.step (hi : Inv c x₀ r s) (h : SmoothStep c r s e t) : Inv c x₀ r t := by
  obtain ⟨h, he⟩ := h
  obtain ⟨l, x, hb⟩ := hi.balanced
  have hbalanced := hb.step hi.cancelled h he
  -- a worker stops only at a channel that is closed and empty, and nothing is sent there any more
  have hkeep : ∀ {w : Fin n} {y : Worker α} {v : Fin n}, y ≠ .stopped →
      (s.setWorker w y).workers v = .stopped → s.source = none ∧ s.channel = [] := fun hy hv =>
    hi.stopped _ ((stopped_setWorker hv).resolve_right hy)
  cases h with
  | send hx' hnext hroom =>
    refine ⟨hi.cancelled, hi.outcome, fun v hv => ?_, hbalanced⟩
    rw [(hi.stopped v hv).1] at hx'
    cases hx'
  | close hx' hnext => exact ⟨hi.cancelled, hi.outcome, fun v hv => ⟨rfl, (hi.stopped v hv).2⟩, hbalanced⟩
  | receive hw hl =>
    refine ⟨hi.cancelled, hi.outcome, fun v hv => ?_, hbalanced⟩
    have hnil := (hkeep (by simp) hv).2
    rw [hl] at hnil
    cases hnil
  | acquire hw hslot => exact ⟨hi.cancelled, hi.outcome, fun v hv => hkeep (by simp) hv, hbalanced⟩
  | finish hw =>
    obtain rfl : _ = r := he
    refine ⟨hi.cancelled, fun p hp => ?_, fun v hv => hkeep (by simp) hv, hbalanced⟩
    rcases List.mem_append.mp hp with hp | hp
    · exact hi.outcome p hp
    · rw [List.mem_singleton.mp hp]
  | stop hw hl hnone => exact ⟨hi.cancelled, hi.outcome, fun _ _ => ⟨hnone, hl⟩, hbalanced⟩
  | cancel => cases he
  | quit hcancelled =>
    rw [hi.cancelled] at hcancelled
    cases hcancelled
  | leave hw hcancelled =>
    rw [hi.cancelled] at hcancelled
    cases hcancelled

/-! ### Runs -/

variable {es : List (Event ρ n)}

theorem inv_of_run (h : Path (SmoothStep c r) (start x₀) es s) : Inv c x₀ r s :=
  h.invariant inv_start fun _ _ _ hi hstep => hi.step hstep

/-- **When all workers have stopped**, the jobs of the source are done, each once. -/
theorem perm_of_stopped (h : Path (SmoothStep c r) (start x₀) es s) (hn : 0 < n) (hstop : s.Stopped) :
    ∃ l x, Path (Gives c.next) x₀ l x ∧ c.next x = none ∧ (s.done.map Prod.fst).Perm l ∧
      ∀ p ∈ s.done, p.2 = r := by
  have hi := inv_of_run h
  obtain ⟨l, x, hgiven, hsource, hjobs⟩ := hi.balanced
  obtain ⟨hnone, hnil⟩ := hi.stopped ⟨0, hn⟩ (hstop _)
  have hend : c.next x = none := by
    rcases hsource with hx | ⟨-, hend⟩
    · rw [hnone] at hx
      cases hx
    · exact hend
  have hheld : ∑ w, (s.workers w).held = 0 := Finset.sum_eq_zero fun w _ => by
    rw [hstop w]
    rfl
  rw [hnil, hheld, add_zero, Multiset.coe_nil, zero_add] at hjobs
  exact ⟨l, x, hgiven, hend, (Multiset.coe_eq_coe.mp hjobs).symm, hi.outcome⟩

/-- **Every step counts.** -/
theorem taken_step (hc : s.cancelled = false) (h : SmoothStep c r s e t) : t.taken = s.taken + 1 := by
  obtain ⟨h, he⟩ := h
  unfold State.taken
  cases h with
  | send hx' hnext hroom =>
    simp only [State.closed, hx', Option.isNone_some, Bool.false_eq_true, if_false, List.length_append,
      List.length_singleton]
    omega
  | close hx' hnext => simp [State.closed, hx']
  | @receive w a rest hw hl =>
    have htaken := taken_setWorker hw (.waiting a)
    change _ + 0 = _ + 2 at htaken
    change 4 * s.done.length + (∑ v, ((s.setWorker w (.waiting a)).workers v).taken) + rest.length + s.closed =
      _
    rw [hl, List.length_cons]
    omega
  | @acquire w a hw hslot =>
    have htaken := taken_setWorker hw (.working a)
    change _ + 2 = _ + 3 at htaken
    change 4 * s.done.length + (∑ v, ((s.setWorker w (.working a)).workers v).taken) +
      s.channel.length + s.closed = _
    omega
  | @finish w a r' hw =>
    have htaken := taken_setWorker hw .receiving
    change _ + 3 = _ + 0 at htaken
    change 4 * (s.done ++ [(a, r')]).length + (∑ v, ((s.setWorker w .receiving).workers v).taken) +
      s.channel.length + s.closed = _
    rw [List.length_append, List.length_singleton]
    omega
  | @stop w hw hl hnone =>
    have htaken := taken_setWorker hw .stopped
    change _ + 0 = _ + 1 at htaken
    change 4 * s.done.length + (∑ v, ((s.setWorker w .stopped).workers v).taken) + s.channel.length + s.closed = _
    omega
  | cancel => cases he
  | quit hcancelled =>
    rw [hc] at hcancelled
    cases hcancelled
  | leave hw hcancelled =>
    rw [hc] at hcancelled
    cases hcancelled

theorem length_eq_taken (h : Path (SmoothStep c r) (start x₀) es s) : es.length = s.taken := by
  induction h with
  | nil => simp [State.taken, State.closed, start, Worker.taken]
  | snoc h ha ih => rw [List.length_append, List.length_singleton, ih, taken_step (inv_of_run h).cancelled ha]

/-- What a source has given is the beginning of all it gives. -/
theorem prefix_of_given {next : σ → Option (α × σ)} {l jobs : List α} {x y z : σ}
    (h : Path (Gives next) x l y) (hall : Path (Gives next) x jobs z) (hend : next z = none) :
    l <+: jobs := by
  induction l generalizing x jobs with
  | nil => exact List.nil_prefix
  | cons a l ih =>
    obtain ⟨u, hu, hrest⟩ := path_cons.mp h
    cases jobs with
    | nil =>
      obtain rfl := path_nil.mp hall
      cases hend.symm.trans hu
    | cons b jobs =>
      obtain ⟨v, hv, hall'⟩ := path_cons.mp hall
      cases hu.symm.trans hv
      exact List.cons_prefix_cons.mpr ⟨rfl, ih hrest hall'⟩

/-- All it gives is determined. -/
theorem given_unique {next : σ → Option (α × σ)} {l l' : List α} {x y z : σ}
    (h : Path (Gives next) x l y) (hy : next y = none) (h' : Path (Gives next) x l' z)
    (hz : next z = none) : l = l' :=
  (prefix_of_given h h' hz).eq_of_length_le (prefix_of_given h' h hy).length_le

/-- **No run is longer** than four steps for a job, one for each worker and one for the channel. -/
theorem length_le {jobs : List α} {z : σ} (h : Path (SmoothStep c r) (start x₀) es s)
    (hall : Path (Gives c.next) x₀ jobs z) (hend : c.next z = none) :
    es.length ≤ 4 * jobs.length + n + 1 := by
  obtain ⟨l, x, hgiven, -, hjobs⟩ := (inv_of_run h).balanced
  have hlen := (prefix_of_given hgiven hall hend).length_le
  have hcard := congrArg Multiset.card hjobs
  simp only [Multiset.card_add, Multiset.coe_card, Multiset.card_sum, List.length_map] at hcard
  -- a worker has taken at most four steps for its job, and one to stop
  have hworker : ∀ x : Worker α, x.taken ≤ 4 * x.held.card + 1 := by
    intro x
    cases x <;> simp [Worker.taken, Worker.held]
  have hworkers : ∑ w, (s.workers w).taken ≤ ∑ w, (4 * (s.workers w).held.card + 1) :=
    Finset.sum_le_sum fun w _ => hworker _
  rw [Finset.sum_add_distrib, ← Finset.mul_sum, Finset.sum_const, Finset.card_univ, Fintype.card_fin,
    nsmul_one, Nat.cast_id] at hworkers
  rw [length_eq_taken h]
  unfold State.taken State.closed
  split_ifs <;> omega

/-! ### Progress -/

/-- **A step is possible** as long as some worker has not stopped. -/
theorem progress (hcap : 0 < c.capacity) (hslots : 0 < c.slots) (hlive : ¬s.Stopped) (r : ρ) :
    ∃ e t, SmoothStep c r s e t := by
  by_cases hworking : ∃ w a, s.workers w = .working a
  · obtain ⟨w, a, hw⟩ := hworking
    exact ⟨.finish w r, _, .finish hw, rfl⟩
  by_cases hwaiting : ∃ w a, s.workers w = .waiting a
  · obtain ⟨w, a, hw⟩ := hwaiting
    have hbusy : s.busy = 0 := by
      refine Finset.card_eq_zero.mpr (Finset.filter_eq_empty_iff.mpr fun v _ hv => ?_)
      cases hx : s.workers v with
      | working b => exact hworking ⟨v, b, hx⟩
      | receiving => simp [hx, Worker.isWorking] at hv
      | waiting b => simp [hx, Worker.isWorking] at hv
      | stopped => simp [hx, Worker.isWorking] at hv
    exact ⟨.acquire w, _, .acquire hw (by omega), trivial⟩
  -- the others receive
  obtain ⟨w, hw⟩ := not_forall.mp hlive
  have hreceiving : s.workers w = .receiving := by
    cases hx : s.workers w with
    | receiving => rfl
    | waiting a => exact absurd ⟨w, a, hx⟩ hwaiting
    | working a => exact absurd ⟨w, a, hx⟩ hworking
    | stopped => exact absurd hx hw
  cases hl : s.channel with
  | cons a l => exact ⟨.receive w, _, .receive hreceiving hl, trivial⟩
  | nil =>
    cases hsource : s.source with
    | none => exact ⟨.stop w, _, .stop hreceiving hl hsource, trivial⟩
    | some x =>
      cases hnext : c.next x with
      | none => exact ⟨.close, _, .close hsource hnext, trivial⟩
      | some p => exact ⟨.send, _, .send hsource hnext (by rw [hl]; exact hcap), trivial⟩

/-- **A run to the end**, if no run is longer than `N`. -/
theorem exists_stopped {N : ℕ} (hcap : 0 < c.capacity) (hslots : 0 < c.slots)
    (hbound : ∀ es s, Path (SmoothStep c r) (start x₀ : State σ α ρ n) es s → es.length ≤ N) :
    ∃ es s, Path (SmoothStep c r) (start x₀ : State σ α ρ n) es s ∧ s.Stopped := by
  -- a run of any length, or one that has come to its end before
  have hrun : ∀ k, ∃ es s, Path (SmoothStep c r) (start x₀ : State σ α ρ n) es s ∧
      (s.Stopped ∨ es.length = k) := by
    intro k
    induction k with
    | zero => exact ⟨[], _, Path.nil, Or.inr rfl⟩
    | succ k ih =>
      obtain ⟨es, s, h, hstop | hlen⟩ := ih
      · exact ⟨es, s, h, Or.inl hstop⟩
      by_cases hstop : s.Stopped
      · exact ⟨es, s, h, Or.inl hstop⟩
      obtain ⟨e, t, ht⟩ := progress hcap hslots hstop r
      exact ⟨es ++ [e], t, h.snoc ht, Or.inr (by rw [List.length_append, hlen]; rfl)⟩
  obtain ⟨es, s, h, hstop | hlen⟩ := hrun (N + 1)
  · exact ⟨es, s, h, hstop⟩
  · have := hbound es s h
    omega

end MigrationSafety.Lib.WorkQueue
