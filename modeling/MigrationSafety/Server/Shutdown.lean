import MigrationSafety.Lib.Paths
import MigrationSafety.Plan.Validate
import MigrationSafety.StateMachine.Signature

/-! # The shutdown

The engine shutting down while it still serves: the main goroutine cancels the context, closes the queue
of the worker pool, waits for the workers, and only then shuts the HTTP server down. Handlers of
`POST /plans` go on meanwhile, each in a goroutine of its own. A send on a closed queue panics, also one
that was blocked when the queue was closed.

* `handlers_step`: what a step does to the handlers.
* `never_sends_iff`: when no handler sends on the closed queue. -/

namespace MigrationSafety.Server.Shutdown

open MigrationSafety.Lib.Paths
open MigrationSafety.Plan.Validate
open MigrationSafety.StateMachine.Signature (Id)

/-! ### The engine -/

/-- Where the main goroutine is. -/
inductive Phase
  /-- `<-ctx.Done()` -/
  | serving
  | cancelled
  /-- `Stop` has called `cancel`. -/
  | stopping
  /-- The queue is closed, `Stop` waits for the workers. -/
  | waiting
  /-- `Shutdown` has closed the listener. -/
  | shuttingDown
  | exited
deriving DecidableEq

/-- A connection and the handler of its request. -/
inductive Handler
  | connected
  /-- The body of `POST /plans`, if it is JSON. -/
  | received (body : Option MigrationPlan)
  /-- In `Submit`. -/
  | submitting (id : Id)
  | replied (status : ℕ)
  /-- It has sent on the closed queue. -/
  | panicked

inductive Worker
  | idle
  | busy (id : Id)
  | stopped
deriving DecidableEq

structure Engine (n : ℕ) where
  phase : Phase
  jobs : List Id
  /-- The queue is closed. -/
  closed : Bool
  workers : Fin n → Worker
  handlers : List Handler

/-- The main goroutine. -/
inductive MainAct
  /-- The context is cancelled. -/
  | signal
  | cancel
  /-- `close(p.jobs)` -/
  | close
  /-- `p.wg.Wait()` returns. -/
  | stopped
  /-- `httpSrv.Shutdown` returns, with or without all handlers done, and the process ends. -/
  | exit

inductive HandlerAct
  | request (body : Option MigrationPlan)
  /-- `Validate` and `CreateMigration`, with its result. -/
  | create (result : Option Id)
  /-- The send of `Submit`. -/
  | send

inductive WorkerAct
  | take
  | finish
  | leave

inductive Act (n : ℕ)
  | main (a : MainAct)
  | connect
  | handler (i : ℕ) (a : HandlerAct)
  | worker (w : Fin n) (a : WorkerAct)

/-- **The handler up to `Submit`.** -/
def applyPlan (body : Option MigrationPlan) (result : Option Id) : Handler :=
  match body with
  | none => .replied 400
  | some p =>
    match check p with
    | .error _ => .replied 422
    | .ok _ =>
      match result with
      | none => .replied 500
      | some id => .submitting id

variable {n : ℕ}

namespace Engine

/-- The listener is open until `Shutdown`. -/
def listening (s : Engine n) : Bool := s.phase ≠ .shuttingDown && s.phase ≠ .exited

def setHandler (s : Engine n) (i : ℕ) (h : Handler) : Engine n :=
  { s with handlers := s.handlers.set i h }

def setWorker (s : Engine n) (w : Fin n) (x : Worker) : Engine n :=
  { s with workers := Function.update s.workers w x }

/-- `p.jobs <- id`: it panics if the queue is closed, and blocks if the queue is full. -/
def submit (s : Engine n) (i : ℕ) (id : Id) : Option (Engine n) :=
  if s.closed then some (s.setHandler i .panicked)
  else if s.jobs.length < 2 * n then
    some { s.setHandler i (.replied 202) with jobs := s.jobs ++ [id] }
  else none

/-- The main goroutine goes from a phase to the next. -/
def advance (s : Engine n) (src dst : Phase) : Option (Engine n) :=
  if s.phase = src then some { s with phase := dst } else none

def main (s : Engine n) : MainAct → Option (Engine n)
  | .signal => s.advance .serving .cancelled
  | .cancel => s.advance .cancelled .stopping
  | .close => { s with closed := true }.advance .stopping .waiting
  | .stopped => if ∀ w, s.workers w = .stopped then s.advance .waiting .shuttingDown else none
  | .exit => s.advance .shuttingDown .exited

/-- A step of the `i`-th handler. -/
def handle (s : Engine n) (i : ℕ) (a : HandlerAct) : Option (Engine n) :=
  match s.handlers[i]?, a with
  | some .connected, .request body => some (s.setHandler i (.received body))
  | some (.received body), .create result => some (s.setHandler i (applyPlan body result))
  | some (.submitting id), .send => s.submit i id
  | _, _ => none

/-- A step of a worker: a `select` takes any case that is ready, and a closed queue is drained. -/
def work (s : Engine n) (w : Fin n) (a : WorkerAct) : Option (Engine n) :=
  match s.workers w, a with
  | .idle, .take =>
    match s.jobs with
    | id :: ids => some { s.setWorker w (.busy id) with jobs := ids }
    | [] => none
  | .busy _, .finish => some (s.setWorker w .idle)
  | .idle, .leave =>
    if s.phase ≠ .serving ∨ (s.closed = true ∧ s.jobs = []) then some (s.setWorker w .stopped)
    else none
  | _, _ => none

/-- **One step** of one of the goroutines; after the end of the process there is none. -/
def step (s : Engine n) : Act n → Option (Engine n)
  | .main a => s.main a
  | .connect => if s.listening then some { s with handlers := s.handlers ++ [.connected] } else none
  | .handler i a => if s.phase = .exited then none else s.handle i a
  | .worker w a => if s.phase = .exited then none else s.work w a

end Engine

/-- When the server begins to listen: the queue is open, and holds what has been resumed. -/
structure Initial (s : Engine n) : Prop where
  serving : s.phase = .serving
  jobs_le : s.jobs.length ≤ 2 * n
  opened : s.closed = false
  handlers : s.handlers = []

/-- **A send on the closed queue**, now or with the next step. -/
def Sends (s : Engine n) : Prop :=
  .panicked ∈ s.handlers ∨ ∃ a t, s.step a = some t ∧ .panicked ∈ t.handlers

/-- **Nobody is in `Submit`**: when the queue is closed no handler is, and after that none gets there,
for its body is no valid plan or its migration is not created. -/
def Orderly (s : Engine n) : Act n → Prop
  | .main .close => ∀ id, .submitting id ∉ s.handlers
  | .handler i (.create result) => s.closed = true → ∀ p vp,
      s.handlers[i]? = some (.received (some p)) → check p = .ok vp → result = none
  | _ => True

variable {s t u : Engine n} {a : Act n} {as : List (Act n)} {i : ℕ} {id : Id} {h : Handler}

/-! ### One step -/

theorem applyPlan_submitting {body : Option MigrationPlan} {result : Option Id}
    (h : applyPlan body result = .submitting id) :
    ∃ p vp, body = some p ∧ check p = .ok vp ∧ result = some id := by
  unfold applyPlan at h
  split at h
  · cases h
  · split at h
    · cases h
    · rename_i p _ vp hp
      split at h
      · cases h
      · cases h
        exact ⟨p, vp, rfl, hp, rfl⟩

theorem applyPlan_ne_panicked {body : Option MigrationPlan} {result : Option Id} :
    applyPlan body result ≠ .panicked := by
  unfold applyPlan
  repeat' split
  all_goals exact Handler.noConfusion

/-- What a handler can do with a step. -/
inductive Goes (s : Engine n) (i : ℕ) : HandlerAct → Handler → Handler → Prop
  | request (body : Option MigrationPlan) : Goes s i (.request body) .connected (.received body)
  | create (body : Option MigrationPlan) (result : Option Id) :
      Goes s i (.create result) (.received body) (applyPlan body result)
  | sent (id : Id) (opened : s.closed = false) : Goes s i .send (.submitting id) (.replied 202)
  | panic (id : Id) (closed : s.closed = true) : Goes s i .send (.submitting id) .panicked

theorem handle_cases {b : HandlerAct} (hs : s.handle i b = some t) :
    t.closed = s.closed ∧ ∃ h h', s.handlers[i]? = some h ∧ Goes s i b h h' ∧
      t.handlers = s.handlers.set i h' := by
  unfold Engine.handle at hs
  split at hs
  · rename_i hi
    cases hs
    exact ⟨rfl, _, _, hi, .request _, rfl⟩
  · rename_i hi
    cases hs
    exact ⟨rfl, _, _, hi, .create _ _, rfl⟩
  · rename_i id hi
    unfold Engine.submit at hs
    split_ifs at hs with hclosed
    · cases hs
      exact ⟨rfl, _, _, hi, .panic id hclosed, rfl⟩
    · cases hs
      exact ⟨rfl, _, _, hi, .sent id (Bool.eq_false_iff.mpr hclosed), rfl⟩
  · cases hs

theorem work_cases {w : Fin n} {b : WorkerAct} (hs : s.work w b = some t) :
    t.closed = s.closed ∧ t.handlers = s.handlers := by
  unfold Engine.work at hs
  repeat' split at hs
  all_goals cases hs <;> exact ⟨rfl, rfl⟩

theorem main_cases {b : MainAct} (hs : s.main b = some t) :
    (t.closed = s.closed ∨ b = .close) ∧ t.handlers = s.handlers := by
  unfold Engine.main Engine.advance at hs
  cases b <;> dsimp only at hs <;> split_ifs at hs <;> cases hs <;> simp

/-- Only the main goroutine closes the queue. -/
theorem closed_step (hs : s.step a = some t) : t.closed = s.closed ∨ a = .main .close := by
  cases a with
  | main b => exact (main_cases hs).1.imp_right (congrArg Act.main)
  | connect =>
    simp only [Engine.step, Option.ite_none_right_eq_some, Option.some.injEq] at hs
    exact Or.inl (hs.2 ▸ rfl)
  | handler i b =>
    simp only [Engine.step, Option.ite_none_left_eq_some] at hs
    exact Or.inl (handle_cases hs.2).1
  | worker w b =>
    simp only [Engine.step, Option.ite_none_left_eq_some] at hs
    exact Or.inl (work_cases hs.2).1

/-- **What a step does to the handlers**: one of them goes on, or a connection is accepted. -/
theorem handlers_step (hs : s.step a = some t) (hmem : h ∈ t.handlers) :
    h ∈ s.handlers ∨ h = .connected ∨
      ∃ i b h₀, a = .handler i b ∧ s.handlers[i]? = some h₀ ∧ Goes s i b h₀ h := by
  cases a with
  | main b => exact Or.inl ((main_cases hs).2 ▸ hmem)
  | connect =>
    simp only [Engine.step, Option.ite_none_right_eq_some, Option.some.injEq] at hs
    obtain ⟨-, rfl⟩ := hs
    rcases List.mem_append.mp hmem with hmem | hmem
    · exact Or.inl hmem
    · exact Or.inr (Or.inl (List.mem_singleton.mp hmem))
  | handler i b =>
    simp only [Engine.step, Option.ite_none_left_eq_some] at hs
    obtain ⟨-, h₀, h', hi, hgoes, hset⟩ := handle_cases hs.2
    rw [hset] at hmem
    rcases List.mem_or_eq_of_mem_set hmem with hmem | rfl
    · exact Or.inl hmem
    · exact Or.inr (Or.inr ⟨i, b, h₀, rfl, hi, hgoes⟩)
  | worker w b =>
    simp only [Engine.step, Option.ite_none_left_eq_some] at hs
    exact Or.inl ((work_cases hs.2).2 ▸ hmem)

/-! ### Orderly steps -/

/-- No handler has sent on the closed queue, and none is about to. -/
structure Calm (s : Engine n) : Prop where
  intact : .panicked ∉ s.handlers
  empty : s.closed = true → ∀ id, .submitting id ∉ s.handlers

theorem calm_of_initial (h : Initial s) : Calm s := by
  refine ⟨?_, fun _ id => ?_⟩ <;> rw [h.handlers] <;> exact List.not_mem_nil

/-- Where nobody is in `Submit` once the queue is closed, no step sends on it. -/
theorem intact_step (hc : Calm s) (hs : s.step a = some t) : .panicked ∉ t.handlers := by
  intro hmem
  rcases handlers_step hs hmem with hmem | heq | ⟨i, b, h₀, -, hi, hgoes⟩
  · exact hc.intact hmem
  · cases heq
  · generalize hp : Handler.panicked = h at hgoes
    cases hgoes with
    | request => cases hp
    | create => exact applyPlan_ne_panicked hp.symm
    | sent => cases hp
    | panic id hclosed => exact hc.empty hclosed id (List.mem_of_getElem? hi)

theorem not_sends_of_calm (h : Calm s) : ¬Sends s := by
  rintro (hmem | ⟨a, t, hs, hmem⟩)
  · exact h.intact hmem
  · exact intact_step h hs hmem

/-- A handler that gets to `Submit` has created its migration. -/
theorem goes_submitting {b : HandlerAct} (hg : Goes s i b h (.submitting id)) :
    ∃ p vp, h = .received (some p) ∧ check p = .ok vp ∧ b = .create (some id) := by
  generalize hp : Handler.submitting id = h' at hg
  cases hg with
  | request => cases hp
  | create body result =>
    obtain ⟨p, vp, rfl, hvalid, rfl⟩ := applyPlan_submitting hp.symm
    exact ⟨p, vp, rfl, hvalid, rfl⟩
  | sent => cases hp
  | panic => cases hp

/-- **Orderly steps** keep it so. -/
theorem calm_step (hc : Calm s) (hs : s.step a = some t) (ho : Orderly s a) : Calm t := by
  refine ⟨intact_step hc hs, fun hclosed id hmem => ?_⟩
  rcases closed_step hs with hsame | rfl
  · rcases handlers_step hs hmem with hmem | heq | ⟨i, b, h₀, rfl, hi, hgoes⟩
    · exact hc.empty (hsame ▸ hclosed) id hmem
    · cases heq
    · obtain ⟨p, vp, rfl, hvalid, rfl⟩ := goes_submitting hgoes
      cases ho (hsame ▸ hclosed) p vp hi hvalid
  · rcases handlers_step hs hmem with hmem | heq | ⟨i, b, h₀, hact, -, -⟩
    · exact ho id hmem
    · cases heq
    · cases hact

/-- A handler in `Submit` sends next, also if it was blocked. -/
theorem sends_of_submitting (hphase : s.phase ≠ .exited) (hclosed : s.closed = true)
    (hmem : .submitting id ∈ s.handlers) : Sends s := by
  obtain ⟨i, hi⟩ := List.mem_iff_getElem?.mp hmem
  refine Or.inr ⟨.handler i .send, s.setHandler i .panicked, ?_, ?_⟩
  · simp only [Engine.step, Engine.handle, hi, Engine.submit, if_neg hphase, if_pos hclosed]
  · exact List.mem_set (List.getElem?_eq_some_iff.mp hi).1 _

theorem applyPlan_valid {p : MigrationPlan} {vp : ValidPlan} (h : check p = .ok vp) :
    applyPlan (some p) (some id) = .submitting id := by
  unfold applyPlan
  dsimp only
  rw [h]

/-- Closing the queue with a handler in `Submit`. -/
theorem sends_of_close (hs : s.step (.main .close) = some t) (hmem : .submitting id ∈ s.handlers) :
    Sends t := by
  simp only [Engine.step, Engine.main, Engine.advance, Option.ite_none_right_eq_some,
    Option.some.injEq] at hs
  obtain ⟨-, rfl⟩ := hs
  exact sends_of_submitting (fun h => Phase.noConfusion h) rfl hmem

/-- A new migration with the queue closed. -/
theorem sends_of_create {p : MigrationPlan} {vp : ValidPlan}
    (hs : s.step (.handler i (.create (some id))) = some t) (hclosed : s.closed = true)
    (hi : s.handlers[i]? = some (.received (some p))) (hp : check p = .ok vp) : Sends t := by
  simp only [Engine.step, Engine.handle, hi, Option.ite_none_left_eq_some, Option.some.injEq] at hs
  obtain ⟨hphase, rfl⟩ := hs
  refine @sends_of_submitting _ _ id hphase hclosed ?_
  rw [applyPlan_valid hp]
  exact List.mem_set (List.getElem?_eq_some_iff.mp hi).1 _

/-- **A step that is not orderly** leaves a handler in `Submit` with the queue closed. -/
theorem sends_of_not_orderly (hs : s.step a = some t) (ho : ¬Orderly s a) : Sends t := by
  unfold Orderly at ho
  split at ho
  · push Not at ho
    obtain ⟨id, hmem⟩ := ho
    exact sends_of_close hs hmem
  · push Not at ho
    obtain ⟨hclosed, p, vp, hi, hp, hresult⟩ := ho
    obtain ⟨id, rfl⟩ := Option.ne_none_iff_exists'.mp hresult
    exact sends_of_create hs hclosed hi hp
  · exact absurd trivial ho

/-! ### Runs -/

/-- The runs of the engine. -/
abbrev Runs (s : Engine n) (as : List (Act n)) (t : Engine n) : Prop :=
  Path (Guarded Engine.step fun _ _ => True) s as t

/-- The runs all of whose steps are orderly. -/
abbrev OrderlyRuns (s : Engine n) (as : List (Act n)) (t : Engine n) : Prop :=
  Path (Guarded Engine.step Orderly) s as t

theorem calm_of_orderlyRuns (h0 : Initial s) (h : OrderlyRuns s as t) : Calm t :=
  h.invariant (calm_of_initial h0) fun _ _ _ hc ⟨hs, ho⟩ => calm_step hc hs ho

/-- **The shutdown**: in no state of a run a handler has sent on the closed queue or does so with the next
step, if and only if all steps of the run are orderly. -/
theorem never_sends_iff (h0 : Initial s) (h : Runs s as t) :
    (∀ bs u, bs <+: as → Runs s bs u → ¬Sends u) ↔ OrderlyRuns s as t := by
  constructor
  · intro hnever
    induction h with
    | nil => exact Path.nil
    | @snoc t u as a h ha ih =>
      have horderly := ih fun bs v hbs => hnever bs v (hbs.trans (List.prefix_append _ _))
      refine horderly.snoc ⟨ha.1, ?_⟩
      by_contra ho
      exact hnever _ u (List.prefix_refl _) (h.snoc ha) (sends_of_not_orderly ha.1 ho)
  · rintro horderly bs u ⟨cs, rfl⟩ hbs
    obtain ⟨v, hv, -⟩ := horderly.split
    obtain rfl := guarded_unique hbs hv
    exact not_sends_of_calm (calm_of_orderlyRuns h0 hv)

/-- An engine with one worker, which has nothing to do. -/
def idle : Engine 1 where
  phase := .serving
  jobs := []
  closed := false
  workers := fun _ => .idle
  handlers := []

theorem initial_idle : Initial idle := ⟨rfl, Nat.zero_le _, rfl, rfl⟩

/-- A request is queued, and then the engine shuts down, with its worker. -/
def quiet (w : Fin 1) : List (Act 1) :=
  [.connect, .handler 0 (.request (some plainPlan)), .handler 0 (.create (some 0)), .handler 0 .send,
    .main .signal, .main .cancel, .main .close, .worker w .leave, .main .stopped, .main .exit]

/-- The engine shuts down while a handler creates its migration. -/
def hasty : List (Act 1) :=
  [.connect, .handler 0 (.request (some plainPlan)), .main .signal, .main .cancel, .main .close,
    .handler 0 (.create (some 0)), .handler 0 .send]

theorem never_sends_quiet : ∃ t, Runs idle (quiet 0) t ∧
    ((∀ bs u, bs <+: quiet 0 → Runs idle bs u → ¬Sends u) ↔ OrderlyRuns idle (quiet 0) t) := by
  have hrun : ((runs Engine.step (fun _ _ => true) idle (quiet 0)).any fun _ => true) = true := by
    decide +kernel
  obtain ⟨t, ht, -⟩ := exists_path_of_any_free hrun
  exact ⟨t, ht, never_sends_iff initial_idle ht⟩

def Handler.isPanicked : Handler → Bool
  | .panicked => true
  | _ => false

/-- **A send on the closed queue.** -/
theorem sends_on_closed : ∃ (n : ℕ) (s t : Engine n) (as : List (Act n)),
    Initial s ∧ Runs s as t ∧ .panicked ∈ t.handlers := by
  have hrun : ((runs Engine.step (fun _ _ => true) idle hasty).any fun t =>
      t.handlers.any Handler.isPanicked) = true := by
    decide +kernel
  obtain ⟨t, ht, hP⟩ := exists_path_of_any_free hrun
  obtain ⟨h, hmem, hpanicked⟩ := List.any_eq_true.mp hP
  refine ⟨1, idle, t, hasty, initial_idle, ht, ?_⟩
  cases h <;> first | exact hmem | cases hpanicked

end MigrationSafety.Server.Shutdown
