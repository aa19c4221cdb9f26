import MigrationSafety.Server.Routes
import MigrationSafety.Server.System
import MigrationSafety.Server.Tables

/-! # Viewers

The engine behind its HTTP server: a request starts a program of the mux, and the programs in hand are
served one operation at a time, in any order, between the steps of the engine.

A request is harmless if its program only reads. While all requests are, the engine goes the way it
would have gone without them (`untouched_of_reads`); so the requests of viewers change nothing if and
only if none of them posts an accepted plan (`viewer_read_only`). -/

namespace MigrationSafety.Server.Viewers

open MigrationSafety.Lib.Effects MigrationSafety.Lib.Paths
open MigrationSafety.Plan.Validate MigrationSafety.StateMachine.Signature
open MigrationSafety.Server.Migrations MigrationSafety.Server.System
open MigrationSafety.Server.Auth MigrationSafety.Server.Routes

variable {n : ℕ} {delay : ℤ} {c : Libs}

/-! ### The server -/

structure Front (n : ℕ) where
  engine : Engine n
  /-- What remains of the requests in hand. -/
  handlings : List Handling
  /-- What they have asked for. -/
  log : List (Event server)

/-- How the databases answer: a call that fails may have taken effect all the same. -/
structure Weather where
  error : Option String := none
  queryError : Option QueryError := none
  landed : Bool := false

inductive Act (n : ℕ)
  | engine (a : System.Act n)
  | request (r : Request)
  /-- The `i`-th request in hand goes on. -/
  | serve (i : ℕ) (weather : Weather)

/-- Steps of the engine that stand for whole requests. -/
def isRequest : System.Act n → Bool
  | .apply .. | .abort _ => true
  | _ => false

def isRestart : System.Act n → Bool
  | .restart => true
  | _ => false

namespace Front

def failed {ε α : Type} (err : Option ε) (a : α) : Except ε α :=
  match err with
  | none => .ok a
  | some e => .error e

def answer (s : Front n) (weather : Weather) : (op : Call) → op.Ret
  | .attempt _ => failed weather.error ()
  | .load id =>
    match weather.error, s.engine.store.load id with
    | some err, _ => .error (.failed err)
    | none, none => .error .notFound
    | none, some rec => .ok rec
  | .createMigration p => failed weather.error (s.engine.store.createMigration p).1
  | .submit _ => ()
  | .query _ => failed weather.queryError ()

def write (weather : Weather) (e : Engine n) (s : Store) : Engine n :=
  if weather.error.isSome && !weather.landed then e else { e with store := s }

/-- What an operation does to the store and to the pool. -/
def effect (e : Engine n) (weather : Weather) : Call → Engine n
  | .attempt (.updateState id state terminal) => write weather e (e.store.updateState id state terminal)
  | .attempt (.deleteMany ids) => write weather e (e.store.deleteMany ids)
  | .createMigration p => write weather e (e.store.createMigration p).2
  | .submit id => { e with blocked := e.blocked ++ [id] }
  | _ => e

/-- **One step of the server.** A restart drops the requests in hand. -/
def step (c : Libs) (delay : ℤ) (s : Front n) : Act n → Option (Front n)
  | .engine a =>
    if isRequest a then none
    else (s.engine.step delay a).map fun e =>
      { s with engine := e, handlings := if isRestart a then [] else s.handlings }
  | .request r =>
    if s.engine.resuming = [] then some { s with handlings := s.handlings ++ [mux c r] } else none
  | .serve i weather =>
    match s.handlings[i]? with
    | none => none
    | some (.ret _) => some { s with handlings := s.handlings.eraseIdx i }
    | some (.call op k) =>
      let r := s.answer weather op
      some ⟨effect s.engine weather op, s.handlings.set i (k r), s.log ++ [⟨op, r⟩]⟩

end Front

/-- The runs of the server. -/
abbrev Serves (c : Libs) (delay : ℤ) (s : Front n) (as : List (Act n)) (s' : Front n) : Prop :=
  Path (Guarded (Front.step c delay) fun _ _ => True) s as s'

def Act.engine? : Act n → Option (System.Act n)
  | .engine a => some a
  | _ => none

def Act.request? : Act n → Option Request
  | .request r => some r
  | _ => none

/-- The engine has gone the way it goes without the requests, and they have neither sent DDL nor an
UPDATE to the target. -/
structure Untouched (delay : ℤ) (s : Front n) (as : List (Act n)) (s' : Front n) : Prop where
  engine : Runs delay (fun _ _ => True) s.engine (as.filterMap Act.engine?) s'.engine
  target : ∀ ev ∈ s'.log, ev ∈ s.log ∨ Call.writesTarget ev.op = false

/-- **The requests change nothing**: whatever the engine and its store are, and however the requests
and the engine come to be served. -/
def ReadOnly (n : ℕ) (c : Libs) (delay : ℤ) (rs : List Request) : Prop :=
  ∀ (s s' : Front n) (as : List (Act n)), s.handlings = [] → as.filterMap Act.request? = rs →
    Serves c delay s as s' → Untouched delay s as s'

/-! ### Requests that read -/

theorem effect_of_reads {e : Engine n} {weather : Weather} {op : Call} (h : op.reads = true) :
    Front.effect e weather op = e := by
  cases op with
  | attempt a => cases a <;> first | rfl | cases h
  | load | query => rfl
  | createMigration | submit => cases h

/-- What the requests in hand may still ask for, and what they have asked for since. -/
structure Inv (log : List (Event server)) (s : Front n) : Prop where
  handlings : ∀ h ∈ s.handlings, Reads h
  target : ∀ ev ∈ s.log, ev ∈ log ∨ Call.writesTarget ev.op = false

/-- **A step of the engine is its own; any other leaves the engine alone.** -/
theorem Inv.step {log : List (Event server)} {s s' : Front n} {a : Act n} (h : Inv log s)
    (hr : ∀ r, a.request? = some r → Reads (mux c r)) (hs : s.step c delay a = some s') :
    Inv log s' ∧ (∀ b, a.engine? = some b → s.engine.step delay b = some s'.engine) ∧
      (a.engine? = none → s'.engine = s.engine) := by
  cases a with
  | engine a =>
    have hown : ¬isRequest a = true := by
      intro hreq
      simp [Front.step, hreq] at hs
    rw [Front.step, if_neg hown] at hs
    obtain ⟨e, he, rfl⟩ := Option.map_eq_some_iff.mp hs
    refine ⟨⟨?_, h.target⟩, by rintro b ⟨⟩; exact he, by rintro ⟨⟩⟩
    dsimp only
    split_ifs
    · rintro h ⟨⟩
    · exact h.handlings
  | request r =>
    simp only [Front.step] at hs
    split_ifs at hs
    cases hs
    refine ⟨⟨fun x hx => ?_, h.target⟩, by rintro b ⟨⟩, fun _ => rfl⟩
    rcases List.mem_append.mp hx with hx | hx
    · exact h.handlings x hx
    · rw [List.mem_singleton.mp hx]
      exact hr r rfl
  | serve i weather =>
    simp only [Front.step] at hs
    split at hs
    · cases hs
    next reply hi =>
      cases hs
      exact ⟨⟨fun x hx => h.handlings x (List.mem_of_mem_eraseIdx hx), h.target⟩, by rintro b ⟨⟩,
        fun _ => rfl⟩
    next op k hi =>
      cases hs
      obtain ⟨hop, hk⟩ : op.reads = true ∧ ∀ r, Reads (k r) :=
        h.handlings _ (List.mem_of_getElem? hi)
      refine ⟨⟨fun x hx => ?_, fun ev hev => ?_⟩, by rintro b ⟨⟩, fun _ => effect_of_reads hop⟩
      · rcases List.mem_or_eq_of_mem_set hx with hx | rfl
        · exact h.handlings x hx
        · exact hk _
      · rcases List.mem_append.mp hev with hev | hev
        · exact h.target ev hev
        · rw [List.mem_singleton.mp hev]
          exact Or.inr (writesTarget_of_reads hop)

/-- **Requests that only read change nothing.** -/
theorem untouched_of_reads {rs : List Request} (h : ∀ r ∈ rs, Reads (mux c r)) :
    ReadOnly n c delay rs := by
  rintro s s' as hidle rfl hrun
  have hinv : Inv s.log s := ⟨by simp [hidle], fun ev hev => Or.inl hev⟩
  have hproj : Inv s.log s' ∧
      Runs delay (fun _ _ => True) s.engine (as.filterMap Act.engine?) s'.engine := by
    refine hrun.project hinv fun u a ha v hu hs => ?_
    obtain ⟨hv, hown, halone⟩ := hu.step
      (fun r hr => h r (List.mem_filterMap.mpr ⟨a, ha, hr⟩)) hs.1
    exact ⟨hv, fun b hb => ⟨hown b hb, trivial⟩, halone⟩
  exact ⟨hproj.2, hproj.1.target⟩

/-! ### Requests that write -/

/-- An accepted plan, served without interruption: a step of the engine. -/
theorem serves_posts {s : Front n} {r : Request} {i : ℕ}
    (hv : ∃ user, userOf c.validateToken r = .ok user) (hp : Posts c r)
    (hi : s.handlings[i]? = some (mux c r)) : ∃ p vp s', check p = .ok vp ∧
      Serves c delay s [.serve i {}, .serve i {}] s' ∧ s'.engine = s.engine.apply p true := by
  obtain ⟨p, vp, -, hvp, hmux⟩ := mux_posts hv hp
  rw [hmux] at hi
  have hlt := (List.getElem?_eq_some_iff.mp hi).1
  let created := s.engine.store.createMigration vp
  let s1 : Front n := ⟨{ s.engine with store := created.2 },
    s.handlings.set i (.call (.submit created.1) fun _ => done 202),
    s.log ++ [⟨.createMigration vp, .ok created.1⟩]⟩
  let s2 : Front n := ⟨{ s1.engine with blocked := s1.engine.blocked ++ [created.1] },
    s1.handlings.set i (done 202), s1.log ++ [⟨.submit created.1, ()⟩]⟩
  have h1 : s.step c delay (.serve i {}) = some s1 := by
    simp only [Front.step, hi]
    rfl
  have h2 : s1.step c delay (.serve i {}) = some s2 := by
    have hi1 : s1.handlings[i]? = some (.call (.submit created.1) fun _ => done 202) :=
      List.getElem?_set_self hlt
    simp only [Front.step, hi1]
    rfl
  refine ⟨p, vp, s2, hvp, Path.cons ⟨h1, trivial⟩ (Path.cons ⟨h2, trivial⟩ Path.nil), ?_⟩
  simp only [Engine.apply, hvp]
  rfl

/-- The requests alone. -/
theorem serves_requests {s : Front n} (hs : s.engine.resuming = []) (rs : List Request) :
    Serves c delay s (rs.map Act.request) { s with handlings := s.handlings ++ rs.map (mux c) } := by
  induction rs generalizing s with
  | nil => simp
  | cons r rs ih =>
    have hone : Front.step c delay s (.request r) =
        some { s with handlings := s.handlings ++ [mux c r] } := by simp [Front.step, hs]
    have hrest := @ih { s with handlings := s.handlings ++ [mux c r] } hs
    simp only [List.append_assoc, List.singleton_append] at hrest
    exact Path.cons ⟨hone, trivial⟩ hrest

/-- **A viewer who posts an accepted plan has it run.** -/
theorem not_readOnly_of_posts {rs : List Request} {r : Request} (hr : r ∈ rs) (hv : Viewer c r)
    (hp : Posts c r) : ¬ReadOnly n c delay rs := by
  intro hall
  obtain ⟨i, hi⟩ := List.mem_iff_getElem?.mp hr
  let s0 : Front n := ⟨Engine.init n, [], []⟩
  let s1 : Front n := { s0 with handlings := rs.map (mux c) }
  have h1 : Serves c delay s0 (rs.map Act.request) s1 := serves_requests (s := s0) rfl rs
  have hi1 : s1.handlings[i]? = some (mux c r) := by simp [s1, hi]
  obtain ⟨user, hu, -⟩ := hv
  obtain ⟨p, vp, s2, hvp, h2, hs2⟩ := @serves_posts n delay c s1 r i ⟨user, hu⟩ hp hi1
  have hreq : ((rs.map Act.request ++ [.serve i {}, .serve i {}] : List (Act n)).filterMap
      Act.request?) = rs := by
    simp [List.filterMap_append, List.filterMap_map, Function.comp_def, Act.request?]
  have hown : ((rs.map Act.request ++ [.serve i {}, .serve i {}] : List (Act n)).filterMap
      Act.engine?) = [] := by
    simp [List.filterMap_append, List.filterMap_map, Function.comp_def, Act.engine?]
  have hown' := (hall s0 s2 _ rfl hreq (h1.append h2)).engine
  rw [hown] at hown'
  have hsame : s1.engine.apply p true = s0.engine := hs2.symm.trans (path_nil.mp hown')
  have hblocked := congrArg Engine.blocked hsame
  simp [Engine.apply, hvp, s1, s0, Engine.init] at hblocked

/-- **The requests of viewers change nothing if and only if none of them posts an accepted plan.** -/
theorem viewer_read_only {rs : List Request} (hv : ∀ r ∈ rs, Viewer c r) :
    ReadOnly n c delay rs ↔ ∀ r ∈ rs, ¬Posts c r :=
  ⟨fun h r hr hp => not_readOnly_of_posts hr (hv r hr) hp h,
    fun h => untouched_of_reads fun r hr => reads_mux (hv r hr) (h r hr)⟩

/-! ### Some requests -/

/-- Libraries that know one token and one plan. -/
def fewLibs : Libs where
  validateToken := fun token => if token = "token" then some ⟨"viewer", roleViewer⟩ else none
  generateToken := fun _ => some "token"
  parseID := String.toNat?
  idText := toString
  quote := fun s => "\"" ++ s ++ "\""
  plan := fun body => if body = "plain" then .ok plainPlan else .error "unexpected end of JSON input"
  credentials := fun _ => .error "unexpected end of JSON input"
  ids := fun _ => .error "unexpected end of JSON input"
  service := fun _ => .error "unexpected end of JSON input"
  compatible := fun _ => .error "unexpected end of JSON input"
  scenario := fun _ => .error "unexpected end of JSON input"
  files := fun _ => ⟨200, ""⟩
  metrics := ⟨200, ""⟩

def viewerRequest (method : String) (path : List String) (body : String) : Request where
  method := method
  path := path
  authorization := "Bearer token"
  body := body

theorem viewer_viewerRequest (method : String) (path : List String) (body : String) :
    Viewer fewLibs (viewerRequest method path body) := by
  have hbearer : bearer "Bearer token" = .ok "token" := by decide +kernel
  exact ⟨⟨"viewer", roleViewer⟩, by simp [userOf, viewerRequest, hbearer, fewLibs], weak_roleViewer⟩

/-- A viewer lists the migrations, aborts one and scans for drift. -/
theorem viewer_read_only_scan : ReadOnly 4 fewLibs 0 [viewerRequest "GET" ["migrations"] "",
    viewerRequest "POST" ["migrations", "0", "abort"] "", viewerRequest "POST" ["drift-scan"] "plain"] :=
  (viewer_read_only (by simp [viewer_viewerRequest])).mpr fun r hr hp => by
    have hpath : ∀ r ∈ [viewerRequest "GET" ["migrations"] "",
        viewerRequest "POST" ["migrations", "0", "abort"] "", viewerRequest "POST" ["drift-scan"] "plain"],
        r.path ≠ ["plans"] := by
      simp [viewerRequest]
    exact hpath r hr hp.path

/-- **A viewer creates a migration and has it run.** -/
theorem viewer_applies : ¬∀ (n : ℕ) (c : Libs) (delay : ℤ) (rs : List Request),
    (∀ r ∈ rs, Viewer c r) → ReadOnly n c delay rs := by
  intro hall
  have hv := viewer_viewerRequest "POST" ["plans"] "plain"
  have hok : (check plainPlan).toOption.isSome = true := by decide +kernel
  obtain ⟨vp, hvp⟩ : ∃ vp, check plainPlan = .ok vp := by
    cases hvp : check plainPlan with
    | error err =>
      rw [hvp] at hok
      cases hok
    | ok vp => exact ⟨vp, rfl⟩
  have hp : Posts fewLibs (viewerRequest "POST" ["plans"] "plain") :=
    ⟨rfl, rfl, plainPlan, vp, rfl, hvp⟩
  exact not_readOnly_of_posts (List.mem_singleton.mpr rfl) hv hp
    (hall 4 fewLibs 0 _ fun r hr => List.mem_singleton.mp hr ▸ hv)

end MigrationSafety.Server.Viewers
