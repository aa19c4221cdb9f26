import Mathlib.Algebra.Order.Ring.Rat
import Mathlib.Data.List.Basic
import MigrationSafety.Lib.TokenBucket

/-! # The rate limiter

Every client has a bucket of tokens, which is created full at its first call, refilled by the time that
has passed at each later one, and deleted by the cleanup once its client has not been seen for a minute.
Times are exact, in seconds; a call reads the clock twice, and the cleanup once for each client.

* `calls_eq`: as long as an unused bucket is full within a minute, each client is served by a token bucket
  of its own.
* `limits_iff`: when the bound on the calls that are allowed holds in every window. -/

namespace MigrationSafety.Server.RateLimit

open MigrationSafety.Lib.TokenBucket

/-! ### The limiter -/

/-- The rate and the burst of the configuration. -/
structure Config where
  RequestsPerSecond : ℚ
  BurstSize : ℤ

def DefaultConfig : Config where
  RequestsPerSecond := 10
  BurstSize := 20

structure Client where
  tokens : ℚ
  lastSeen : ℚ

/-- The clients by their identifiers. -/
abbrev Clients := String → Option Client

/-- A new limiter has no clients. -/
def NewLimiter : Clients := fun _ => none

/-- **A call**: the time that has passed is read at `since`, the time of the call at `now`. -/
def allow (config : Config) (l : Clients) (clientID : String) (since now : ℚ) : Bool × Clients :=
  match l clientID with
  | none => (true, Function.update l clientID (some ⟨config.BurstSize - 1, now⟩))
  | some c =>
    let elapsed := since - c.lastSeen
    let tokens := c.tokens + elapsed * config.RequestsPerSecond
    let tokens := if tokens > config.BurstSize then (config.BurstSize : ℚ) else tokens
    if tokens < 1 then (false, Function.update l clientID (some ⟨tokens, now⟩))
    else (true, Function.update l clientID (some ⟨tokens - 1, now⟩))

/-- **A tick of the cleanup**, which reads the clock at `read id` for the client `id`. -/
def cleanup (l : Clients) (clock : String → ℚ) : Clients := fun id =>
  (l id).filter fun c => !decide (clock id - c.lastSeen > 60)

/-! ### Sequences of calls and ticks -/

inductive Event where
  | allow (clientID : String) (since now : ℚ)
  | tick (start finish : ℚ) (clock : String → ℚ)

namespace Event

def start : Event → ℚ
  | allow _ since _ => since
  | tick start _ _ => start

def finish : Event → ℚ
  | allow _ _ now => now
  | tick _ finish _ => finish

/-- The clock does not run backwards. -/
def Ordered : Event → Prop
  | allow _ since now => since ≤ now
  | tick start finish clock => start ≤ finish ∧ ∀ id, start ≤ clock id ∧ clock id ≤ finish

/-- The event is about the client: one of its calls, or a tick. -/
def concerns (k : String) : Event → Bool
  | allow clientID _ _ => decide (clientID = k)
  | tick _ _ _ => true

end Event

/-- One event after the other: both hold the lock. -/
structure Timed (events : List Event) : Prop where
  ordered : ∀ e ∈ events, e.Ordered
  disjoint : events.Pairwise fun e e' => e.finish ≤ e'.start

/-- The clients after an event. -/
def step (config : Config) (l : Clients) : Event → Clients
  | .allow clientID since now => (allow config l clientID since now).2
  | .tick _ _ clock => cleanup l clock

/-- The call of the client that an event is, with its answer. -/
def answer (config : Config) (l : Clients) (k : String) : Event → List (Visit ℚ × Bool)
  | .allow clientID since now =>
    if clientID = k then [(⟨since, now⟩, (allow config l clientID since now).1)] else []
  | .tick _ _ _ => []

/-- **The calls of a client with their answers.** -/
def calls (config : Config) (k : String) : Clients → List Event → List (Visit ℚ × Bool)
  | _, [] => []
  | l, e :: events => answer config l k e ++ calls config k (step config l e) events

/-- The call of the client that an event is. -/
def visit (k : String) : Event → List (Visit ℚ)
  | .allow clientID since now => if clientID = k then [⟨since, now⟩] else []
  | .tick _ _ _ => []

/-- The calls of a client. -/
def visits (k : String) (events : List Event) : List (Visit ℚ) := events.flatMap (visit k)

/-- **The limiter keeps its promise**: in every window of length `t` each client is allowed at most the
burst and the rate times `t`, and the calls of others change none of its answers. -/
def Limits (config : Config) : Prop :=
  ∀ events, Timed events → ∀ k,
    (∀ s t : ℚ, 0 ≤ t → (granted s (s + t) (calls config k NewLimiter events) : ℚ) ≤
      config.BurstSize + config.RequestsPerSecond * t) ∧
    calls config k NewLimiter events = calls config k NewLimiter (events.filter (Event.concerns k))

variable {config : Config} {l : Clients} {k clientID : String} {since now τ : ℚ} {e : Event}
  {events : List Event} {b : Bucket ℚ} {c : Client} {clock : String → ℚ} {n : ℕ} {T : ℚ}

/-! ### One event -/

theorem calls_allow : calls config k l (.allow k since now :: events) =
    (⟨since, now⟩, (allow config l k since now).1) ::
      calls config k (allow config l k since now).2 events := by
  simp only [calls, answer, if_true, step, List.singleton_append]

theorem calls_allow_of_ne (h : clientID ≠ k) : calls config k l (.allow clientID since now :: events) =
    calls config k (allow config l clientID since now).2 events := by
  simp only [calls, answer, if_neg h, step, List.nil_append]

variable (config since now) in
theorem allow_none (h : l clientID = none) : allow config l clientID since now =
    (true, Function.update l clientID (some ⟨config.BurstSize - 1, now⟩)) := by
  unfold allow
  rw [h]

/-- What a client that is there has after the refill. -/
def refilled (config : Config) (c : Client) (since : ℚ) : ℚ :=
  min config.BurstSize (c.tokens + (since - c.lastSeen) * config.RequestsPerSecond)

variable (config since now) in
theorem allow_some (h : l clientID = some c) : allow config l clientID since now =
    if 1 ≤ refilled config c since then
      (true, Function.update l clientID (some ⟨refilled config c since - 1, now⟩))
    else (false, Function.update l clientID (some ⟨refilled config c since, now⟩)) := by
  have hmin : refilled config c since =
      if c.tokens + (since - c.lastSeen) * config.RequestsPerSecond > config.BurstSize then
        (config.BurstSize : ℚ)
      else c.tokens + (since - c.lastSeen) * config.RequestsPerSecond := by
    unfold refilled
    split_ifs with hlt
    · exact min_eq_left hlt.le
    · exact min_eq_right (not_lt.mp hlt)
  unfold allow
  rw [h]
  dsimp only
  rw [← hmin]
  by_cases hone : 1 ≤ refilled config c since
  · rw [if_pos hone, if_neg (not_lt.mpr hone)]
  · rw [if_neg hone, if_pos (not_le.mp hone)]

/-- A call changes nothing of other clients. -/
theorem allow_of_ne (h : k ≠ clientID) : (allow config l clientID since now).2 k = l k := by
  cases hl : l clientID with
  | none =>
    rw [allow_none _ _ _ hl]
    exact Function.update_of_ne h _ _
  | some c =>
    rw [allow_some _ _ _ hl]
    split_ifs <;> exact Function.update_of_ne h _ _

/-- What a call does for its client depends on that client only. -/
theorem allow_congr {l' : Clients} (h : l k = l' k) :
    (allow config l k since now).1 = (allow config l' k since now).1 ∧
      (allow config l k since now).2 k = (allow config l' k since now).2 k := by
  cases hl : l k with
  | none =>
    rw [allow_none _ _ _ hl, allow_none _ _ _ (h ▸ hl)]
    exact ⟨rfl, by simp only [Function.update_self]⟩
  | some c =>
    rw [allow_some _ _ _ hl, allow_some _ _ _ (h ▸ hl)]
    split_ifs <;> exact ⟨rfl, by simp only [Function.update_self]⟩

/-- **Isolation**: the calls of others can be left out. -/
theorem calls_filter {l' : Clients} (h : l k = l' k) :
    calls config k l events = calls config k l' (events.filter (Event.concerns k)) := by
  induction events generalizing l l' with
  | nil => rfl
  | cons e events ih =>
    cases e with
    | allow clientID since now =>
      by_cases hk : clientID = k
      · subst hk
        obtain ⟨hanswer, hclient⟩ := @allow_congr config l clientID since now l' h
        rw [List.filter_cons_of_pos (by simp [Event.concerns]), calls_allow, calls_allow, hanswer,
          ih hclient]
      · rw [List.filter_cons_of_neg (by simp [Event.concerns, hk]), calls_allow_of_ne hk]
        exact ih ((allow_of_ne (Ne.symm hk)).trans h)
    | tick start finish clock =>
      rw [List.filter_cons_of_pos rfl, calls, calls]
      refine congrArg _ (ih ?_)
      simp only [step, cleanup, h]

/-! ### Every client has a token bucket -/

theorem one_le_cast (hb : 1 ≤ config.BurstSize) : (1 : ℚ) ≤ config.BurstSize := by exact_mod_cast hb

/-- The rule of the configuration. -/
def rule (config : Config) (hb : 1 ≤ config.BurstSize) (hr : 0 < config.RequestsPerSecond) : Rule ℚ :=
  ⟨config.BurstSize, config.RequestsPerSecond, one_le_cast hb, le_of_lt hr⟩

/-- **The bucket of an entry** at `τ`: that of the client, and a full one if there is none. -/
inductive Serves (config : Config) (τ : ℚ) : Option Client → Bucket ℚ → Prop
  | client {c : Client} (nonneg : 0 ≤ c.tokens) (seen : c.lastSeen ≤ τ) :
      Serves config τ (some c) ⟨c.tokens, c.lastSeen⟩
  | full {b : Bucket ℚ} (nonneg : 0 ≤ b.tokens) (seen : b.last ≤ τ)
      (full : config.BurstSize ≤ b.tokens + config.RequestsPerSecond * (τ - b.last)) :
      Serves config τ none b

section Served
variable {hb : 1 ≤ config.BurstSize} {hr : 0 < config.RequestsPerSecond} {start finish : ℚ}

theorem Serves.mono {entry : Option Client} (hr : 0 < config.RequestsPerSecond)
    (h : Serves config τ entry b) (hτ : τ ≤ start) :
    Serves config start entry b := by
  cases h with
  | client nonneg seen => exact .client nonneg (seen.trans hτ)
  | full nonneg seen full =>
    have := mul_le_mul_of_nonneg_left (sub_le_sub_right hτ b.last) hr.le
    exact .full nonneg (seen.trans hτ) (by linarith)

theorem level_client (h : c.lastSeen ≤ since) :
    Bucket.level (rule config hb hr) ⟨c.tokens, c.lastSeen⟩ since = refilled config c since := by
  unfold Bucket.level refilled rule
  rw [max_eq_right (sub_nonneg.mpr h), mul_comm]

theorem level_full (hseen : b.last ≤ since)
    (hfull : config.BurstSize ≤ b.tokens + config.RequestsPerSecond * (since - b.last)) :
    b.level (rule config hb hr) since = config.BurstSize := by
  unfold Bucket.level rule
  rw [max_eq_right (sub_nonneg.mpr hseen)]
  exact min_eq_left hfull

theorem refilled_nonneg (hb : 1 ≤ config.BurstSize) (hr : 0 < config.RequestsPerSecond)
    (hc : 0 ≤ c.tokens) (h : c.lastSeen ≤ since) : 0 ≤ refilled config c since := by
  have := mul_nonneg (sub_nonneg.mpr h) hr.le
  exact le_min (zero_le_one.trans (one_le_cast hb)) (by linarith)

variable (hb hr now) in
/-- **A call of a client is a visit of its bucket.** -/
theorem Serves.allow (h : Serves config since (l k) b) :
    (allow config l k since now).1 = (b.serve (rule config hb hr) ⟨since, now⟩).1 ∧
      Serves config now ((RateLimit.allow config l k since now).2 k)
        (b.serve (rule config hb hr) ⟨since, now⟩).2 := by
  generalize hl : l k = entry at h
  cases h with
  | @client c nonneg seen =>
    have hlevel : Bucket.level (rule config hb hr) ⟨c.tokens, c.lastSeen⟩ since = refilled config c since :=
      level_client seen
    rw [allow_some _ _ _ hl]
    by_cases hone : 1 ≤ refilled config c since
    · rw [if_pos hone, serve_of_le (v := ⟨since, now⟩) (hlevel ▸ hone), hlevel]
      refine ⟨rfl, ?_⟩
      simp only [Function.update_self]
      exact .client (sub_nonneg.mpr hone) le_rfl
    · rw [if_neg hone, serve_of_not_le (v := ⟨since, now⟩) (hlevel ▸ hone), hlevel]
      refine ⟨rfl, ?_⟩
      simp only [Function.update_self]
      exact .client (refilled_nonneg hb hr nonneg seen) le_rfl
  | full nonneg seen full =>
    have hlevel : b.level (rule config hb hr) since = config.BurstSize := level_full seen full
    rw [allow_none _ _ _ hl, serve_of_le (v := ⟨since, now⟩) (hlevel ▸ one_le_cast hb), hlevel]
    refine ⟨rfl, ?_⟩
    simp only [Function.update_self]
    exact .client (sub_nonneg.mpr (one_le_cast hb)) le_rfl

/-- **The cleanup deletes what is full again.** -/
theorem Serves.cleanup (hr : 0 < config.RequestsPerSecond)
    (hidle : (config.BurstSize : ℚ) ≤ 60 * config.RequestsPerSecond) (h : Serves config start (l k) b)
    (hstart : start ≤ clock k) (hfinish : clock k ≤ finish) :
    Serves config finish (cleanup l clock k) b := by
  have hmono : Serves config finish (l k) b := h.mono hr (hstart.trans hfinish)
  unfold RateLimit.cleanup
  generalize l k = entry at h hmono
  cases h with
  | @client c nonneg seen =>
    by_cases hgone : clock k - c.lastSeen > 60
    · rw [Option.filter_some_neg (by simpa using hgone)]
      -- more than a minute of refill
      have := mul_le_mul_of_nonneg_left (show (60 : ℚ) ≤ finish - c.lastSeen by linarith) hr.le
      exact .full nonneg (by linarith) (by dsimp only; linarith)
    · rw [Option.filter_some_pos (by simpa using hgone)]
      exact hmono
  | full => exact hmono

theorem Timed.tail (h : Timed (e :: events)) : Timed events :=
  ⟨fun e' he' => h.ordered e' (List.mem_cons_of_mem _ he'), h.disjoint.of_cons⟩

theorem Timed.le_start (h : Timed (e :: events)) : ∀ e' ∈ events, e.finish ≤ e'.start :=
  fun _ he' => List.rel_of_pairwise_cons h.disjoint he'

theorem Event.Ordered.start_le_finish (h : e.Ordered) : e.start ≤ e.finish := by
  cases e with
  | allow => exact h
  | tick => exact h.1

/-- There is a time before all events. -/
theorem Timed.exists_le_start (h : Timed events) : ∃ τ, ∀ e ∈ events, τ ≤ e.start := by
  cases events with
  | nil => exact ⟨0, List.forall_mem_nil _⟩
  | cons e events =>
    refine ⟨e.start, List.forall_mem_cons.mpr ⟨le_rfl, fun e' he' => ?_⟩⟩
    exact ((h.ordered e List.mem_cons_self).start_le_finish).trans (h.le_start e' he')

variable (hb hr) in
/-- **Each client is served by a bucket of its own**, by induction on the events: `τ` is where the events
so far have finished. -/
theorem calls_eq (hidle : (config.BurstSize : ℚ) ≤ 60 * config.RequestsPerSecond)
    (h : Serves config τ (l k) b) (ht : Timed events) (hτ : ∀ e ∈ events, τ ≤ e.start) :
    calls config k l events = answers (rule config hb hr) b (visits k events) := by
  induction events generalizing l b τ with
  | nil => rfl
  | cons e events ih =>
    have hstart := h.mono hr (hτ e List.mem_cons_self)
    have hordered := ht.ordered e List.mem_cons_self
    cases e with
    | allow clientID since now =>
      rw [visits, List.flatMap_cons]
      by_cases hk : clientID = k
      · subst hk
        obtain ⟨hanswer, hserves⟩ := hstart.allow now hb hr
        rw [calls_allow, visit, if_pos rfl, List.singleton_append, answers]
        exact congrArg₂ List.cons (Prod.ext rfl hanswer) (ih hserves ht.tail ht.le_start)
      · rw [calls_allow_of_ne hk, visit, if_neg hk, List.nil_append]
        refine ih ?_ ht.tail ht.le_start
        rw [allow_of_ne (Ne.symm hk)]
        exact hstart.mono hr hordered
    | tick start finish clock =>
      rw [calls, visits, List.flatMap_cons]
      exact ih (hstart.cleanup hr hidle (hordered.2 k).1 (hordered.2 k).2) ht.tail ht.le_start

end Served

theorem times_of_mem_visit {v : Visit ℚ} (h : v ∈ visit k e) : v.start = e.start ∧ v.finish = e.finish := by
  cases e with
  | allow clientID since now =>
    simp only [visit] at h
    split_ifs at h
    · rw [List.mem_singleton.mp h]
      exact ⟨rfl, rfl⟩
    · cases h
  | tick => cases h

theorem chronological_visits (ht : Timed events) : Chronological (visits k events) := by
  refine ⟨fun v hv => ?_, List.pairwise_flatMap.mpr ⟨fun e _ => ?_, ht.disjoint.imp ?_⟩⟩
  · obtain ⟨e, he, hv⟩ := List.mem_flatMap.mp hv
    obtain ⟨hstart, hfinish⟩ := times_of_mem_visit hv
    rw [hstart, hfinish]
    exact (ht.ordered e he).start_le_finish
  · cases e with
    | allow =>
      simp only [visit]
      split_ifs
      · exact List.pairwise_singleton _ _
      · exact List.Pairwise.nil
    | tick => exact List.Pairwise.nil
  · intro e e' hle v hv w hw
    rw [(times_of_mem_visit hv).2, (times_of_mem_visit hw).1]
    exact hle

/-- **The bound**, from the bound for the bucket of each client. -/
theorem limits_of_idle (hb : 1 ≤ config.BurstSize) (hr : 0 < config.RequestsPerSecond)
    (hidle : (config.BurstSize : ℚ) ≤ 60 * config.RequestsPerSecond) : Limits config := by
  refine fun events ht k => ⟨fun s t htime => ?_, calls_filter rfl⟩
  obtain ⟨τ, hτ⟩ := ht.exists_le_start
  have hfull : Serves config τ (NewLimiter k) ⟨config.BurstSize, τ⟩ :=
    .full (zero_le_one.trans (one_le_cast hb)) le_rfl (by simp)
  rw [calls_eq hb hr hidle hfull ht hτ]
  exact window_le (zero_le_one.trans (one_le_cast hb)) (chronological_visits ht) htime

/-! ### Where it fails -/

/-- The clients after the events. -/
def after (config : Config) (l : Clients) (events : List Event) : Clients := events.foldl (step config) l

theorem calls_append {events' : List Event} : calls config k l (events ++ events') =
    calls config k l events ++ calls config k (after config l events) events' := by
  induction events generalizing l with
  | nil => rfl
  | cons e events ih =>
    simp only [List.cons_append, calls, ih, List.append_assoc]
    rfl

/-- Calls at one time take whole tokens. -/
theorem drain (hl : l k = some ⟨n, τ⟩) (hn : n ≤ config.BurstSize) :
    calls config k l (List.replicate n (.allow k τ τ)) = List.replicate n (⟨τ, τ⟩, true) ∧
      after config l (List.replicate n (.allow k τ τ)) k = some ⟨0, τ⟩ := by
  induction n generalizing l with
  | zero => exact ⟨rfl, by simpa [after] using hl⟩
  | succ n ih =>
    have hle : ((n + 1 : ℕ) : ℚ) ≤ config.BurstSize := by exact_mod_cast hn
    have hrefill : refilled config ⟨(n + 1 : ℕ), τ⟩ τ = (n + 1 : ℕ) := by
      unfold refilled
      simpa using hle
    have hallow := allow_some config τ τ hl
    rw [hrefill, if_pos (by norm_cast; omega)] at hallow
    have hnext : (allow config l k τ τ).2 k = some ⟨n, τ⟩ := by
      rw [hallow]
      simp
    obtain ⟨hcalls, hafter⟩ := ih hnext (by omega)
    rw [List.replicate_succ, calls_allow, hcalls, hallow]
    exact ⟨rfl, hafter⟩

/-- A new client can take the whole burst at one time. -/
theorem drain_new (hl : l k = none) (hn : config.BurstSize = n + 1) :
    calls config k l (List.replicate (n + 1) (.allow k τ τ)) = List.replicate (n + 1) (⟨τ, τ⟩, true) ∧
      after config l (List.replicate (n + 1) (.allow k τ τ)) k = some ⟨0, τ⟩ := by
  have hallow := allow_none config τ τ hl
  have hnext : (allow config l k τ τ).2 k = some ⟨n, τ⟩ := by
    rw [hallow, hn]
    simp
  have hle : (n : ℤ) ≤ config.BurstSize := by omega
  obtain ⟨hcalls, hafter⟩ := drain hnext hle
  rw [List.replicate_succ, calls_allow, hcalls, hallow]
  exact ⟨rfl, hafter⟩

/-- The whole burst twice, with a tick in between. -/
def twice (k : String) (n : ℕ) (T : ℚ) : List Event :=
  List.replicate (n + 1) (.allow k 0 0) ++ .tick T T (fun _ => T) ::
    List.replicate (n + 1) (.allow k T T)

theorem timed_twice (hT : 0 ≤ T) : Timed (twice k n T) := by
  refine ⟨fun e he => ?_, ?_⟩
  · rcases List.mem_append.mp he with he | he
    · rw [List.eq_of_mem_replicate he]
      exact le_refl (0 : ℚ)
    · rcases List.mem_cons.mp he with rfl | he
      · exact ⟨le_rfl, fun _ => ⟨le_rfl, le_rfl⟩⟩
      · rw [List.eq_of_mem_replicate he]
        exact le_refl T
  · refine List.pairwise_append.mpr ⟨?_, List.pairwise_cons.mpr ⟨?_, ?_⟩, fun e he e' he' => ?_⟩
    · exact List.pairwise_replicate.mpr (Or.inr (le_refl (0 : ℚ)))
    · intro e he
      rw [List.eq_of_mem_replicate he]
      exact le_refl T
    · exact List.pairwise_replicate.mpr (Or.inr (le_refl T))
    · rw [List.eq_of_mem_replicate he]
      rcases List.mem_cons.mp he' with rfl | he'
      · exact hT
      · rw [List.eq_of_mem_replicate he']
        exact hT

/-- All of them are allowed, if the tick comes after more than a minute. -/
theorem calls_twice (hn : config.BurstSize = n + 1) (hT : 60 < T) :
    calls config k NewLimiter (twice k n T) =
      List.replicate (n + 1) (⟨0, 0⟩, true) ++ List.replicate (n + 1) (⟨T, T⟩, true) := by
  obtain ⟨hfirst, hclient⟩ := drain_new (k := k) (τ := 0) (l := NewLimiter) rfl hn
  have hgone : cleanup (after config NewLimiter (List.replicate (n + 1) (.allow k 0 0))) (fun _ => T) k =
      none := by
    unfold cleanup
    rw [hclient, Option.filter_some_neg (by simpa using hT)]
  unfold twice
  rw [calls_append, hfirst, calls]
  exact congrArg _ (drain_new hgone hn).1

/-- **Twice the burst in a minute**, if an empty bucket takes longer than that to fill. -/
theorem not_limits (hb : 1 ≤ config.BurstSize) (hr : 0 < config.RequestsPerSecond)
    (hidle : 60 * config.RequestsPerSecond < config.BurstSize) : ¬Limits config := by
  intro h
  obtain ⟨n, hn⟩ : ∃ n : ℕ, config.BurstSize = n + 1 := ⟨(config.BurstSize - 1).toNat, by omega⟩
  -- a time after the minute, before the bucket is full again
  obtain ⟨T, hT, hfill⟩ := exists_between ((lt_div_iff₀ hr).mpr hidle)
  rw [lt_div_iff₀ hr] at hfill
  have hpos : 0 ≤ T := by linarith
  have hbound := (h (twice "" n T) (timed_twice hpos) "").1 0 T hpos
  have hcount : granted 0 (0 + T) (calls config "" NewLimiter (twice "" n T)) = (n + 1) + (n + 1) := by
    rw [calls_twice hn hT]
    unfold granted
    rw [List.countP_append, List.countP_replicate, List.countP_replicate]
    simp [hpos]
  rw [hcount, hn] at hbound
  rw [hn] at hfill
  push_cast at hbound hfill
  linarith

/-- **The rate limit**: the bound holds in every window, and each client by itself, if and only if an
empty bucket is full again after a minute. -/
theorem limits_iff (hb : 1 ≤ config.BurstSize) (hr : 0 < config.RequestsPerSecond) :
    Limits config ↔ (config.BurstSize : ℚ) ≤ 60 * config.RequestsPerSecond := by
  refine ⟨fun h => ?_, limits_of_idle hb hr⟩
  by_contra hidle
  exact not_limits hb hr (not_le.mp hidle) h

theorem limits_iff_default :
    Limits DefaultConfig ↔ (DefaultConfig.BurstSize : ℚ) ≤ 60 * DefaultConfig.RequestsPerSecond :=
  limits_iff (by decide) (by norm_num [DefaultConfig])

/-- A burst of 20 at one request in ten seconds: 40 calls in a little more than a minute. -/
theorem not_limits_slow : ∃ config : Config, 1 ≤ config.BurstSize ∧ 0 < config.RequestsPerSecond ∧
    ¬Limits config :=
  ⟨⟨1 / 10, 20⟩, by decide, by norm_num, not_limits (by decide) (by norm_num) (by norm_num)⟩

end MigrationSafety.Server.RateLimit
