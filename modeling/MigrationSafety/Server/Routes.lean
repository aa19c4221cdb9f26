import MigrationSafety.Lib.Effects
import MigrationSafety.Plan.Encoding
import MigrationSafety.Server.Auth
import MigrationSafety.Server.Migrations
import MigrationSafety.Sql.Text

/-! # The routes

The handlers of the HTTP server as programs over what they ask for (`Call`), and the table of the mux,
each route with its wrappers. The libraries behind the handlers are parameters (`Libs`): the decoders
of the bodies, the ids, the tokens and the static files. Of a reply its status and, unless it is a
success, its text are modelled.

`reads_mux`: a request whose token has none of the three permissions only reads, unless it posts a plan
that is accepted, and then it creates a migration (`mux_posts`). -/

namespace MigrationSafety.Server.Routes

open MigrationSafety.Lib.Effects MigrationSafety.Plan.Validate
open MigrationSafety.StateMachine.Signature
open MigrationSafety.Server.Migrations MigrationSafety.Server.Auth
open MigrationSafety.Plan.Encoding (Nils marshal decodeBody decode_marshal)
open MigrationSafety.Plan.Idempotence (Fits fits_validate validate_validate)

/-! ### What a handler asks for -/

inductive LoadError
  | notFound
  | failed (text : String)

/-- Where the reading of a query failed. -/
inductive QueryError
  | query (text : String)
  | scan (text : String)
  | rows (text : String)

/-- An operation that succeeds or fails with a text. -/
inductive Attempt
  /- the engine's store -/
  | list
  | updateState (id : Id) (state : State) (terminal : Bool)
  | deleteMany (ids : List Id)
  | getDDLLogs (id : Id)
  | getBackfillProgress (id : Id)
  | getCanaryObservations (id : Id)
  | registerService (id : Id) (serviceName : String) (schemaVersion : ℤ)
  | updateServiceCompat (id : Id) (service : String) (compatible : Bool)
  | getServices (id : Id)
  | allServicesReady (id : Id)
  /- the target database -/
  | exec (sql : String)
  | runScenario (name : String)

inductive Call
  | attempt (a : Attempt)
  | load (id : Id)
  | createMigration (p : ValidPlan)
  /-- To the worker pool. -/
  | submit (id : Id)
  /-- A query on the target database. -/
  | query (sql : String)

@[reducible] def Call.Ret : Call → Type
  | attempt _ => Except String Unit
  | load _ => Except LoadError Record
  | createMigration _ => Except String Id
  | submit _ => Unit
  | query _ => Except QueryError Unit

@[reducible] def server : Sig := ⟨Call, Call.Ret⟩

/-- A handler's program. -/
abbrev Handling := Prog server Reply

def Attempt.reads : Attempt → Bool
  | updateState .. | deleteMany _ | registerService .. | updateServiceCompat .. | exec _
  | runScenario _ => false
  | _ => true

/-- Nothing is written, and nothing submitted. -/
def Call.reads : Call → Bool
  | attempt a => a.reads
  | createMigration _ | submit _ => false
  | load _ | query _ => true

/-- DDL or an UPDATE on the target. -/
def Call.writesTarget : Call → Bool
  | attempt (.exec _) | attempt (.runScenario _) => true
  | _ => false

theorem writesTarget_of_reads {op : Call} (h : op.reads = true) : op.writesTarget = false := by
  cases op with
  | attempt a => cases a <;> first | rfl | cases h
  | _ => rfl

/-- What the libraries make of texts. A decoder answers with the text of its error. -/
structure Libs where
  validateToken : String → Option User
  generateToken : User → Option String
  parseID : String → Option Id
  idText : Id → String
  /-- `%q`. -/
  quote : String → String
  plan : String → Except String MigrationPlan
  credentials : String → Except String (String × String)
  ids : String → Except String (List String)
  service : String → Except String (String × ℤ)
  compatible : String → Except String Bool
  scenario : String → Except String String
  /-- The static files, with `index.html` for every other path. -/
  files : Request → Reply
  metrics : Reply

/-- `http.Error`. -/
def httpError (code : ℕ) (text : String) : Handling := pure ⟨code, text⟩

def done (code : ℕ) : Handling := pure ⟨code, ""⟩

def ask (op : Call) : Prog server op.Ret := @Prog.perform server op

/-- An operation whose failure is answered with 500. -/
def orFail (a : Attempt) (what : String) (next : Handling) : Handling := do
  match ← ask (.attempt a) with
  | .error err => httpError 500 (what ++ err)
  | .ok () => next

/-- The body of the request, decoded. -/
def decoded {α : Type} (decode : String → Except String α) (ctx : Ctx) (next : α → Handling) : Handling :=
  match decode ctx.request.body with
  | .error err => httpError 400 ("bad json: " ++ err)
  | .ok a => next a

section Handlers
variable (c : Libs) (ctx : Ctx)

/-- The plan in the body, decoded and validated. -/
def planned (next : ValidPlan → Handling) : Handling :=
  decoded c.plan ctx fun p =>
    match check p with
    | .error err => httpError 422 ("invalid plan: " ++ err.text c.quote)
    | .ok vp => next vp

/-- The migration the path names. -/
def identified (next : Id → Handling) : Handling :=
  match c.parseID (ctx.pathValue "id") with
  | none => httpError 400 "bad id"
  | some id => next id

/-! ### Public handlers -/

def healthz (_ : Ctx) : Handling := pure ⟨200, "ok"⟩

/-- Whatever cannot be read is left out of the answer. -/
def status (_ : Ctx) : Handling := do
  let _ ← ask (.attempt .list)
  let _ ← ask (.query ("\n\t\tSELECT \n\t\t\tCOUNT(*) FILTER (WHERE state = 'active')," ++
    "\n\t\t\tCOUNT(*) FILTER (WHERE state = 'idle')," ++
    "\n\t\t\t(SELECT setting::int FROM pg_settings WHERE name = 'max_connections')" ++
    "\n\t\tFROM pg_stat_activity\n\t"))
  let _ ← ask (.query ("\n\t\tSELECT COALESCE(" ++
    "\n\t\t\tEXTRACT(EPOCH FROM (now() - pg_last_xact_replay_timestamp())) * 1000," ++
    "\n\t\t\t0\n\t\t)::int\n\t"))
  done 200

def login : Handling :=
  decoded c.credentials ctx fun (username, password) =>
    match (authenticate username password).bind c.generateToken with
    | none => httpError 401 "invalid credentials"
    | some _ => done 200

/-! ### Migrations -/

def applyPlan : Handling :=
  planned c ctx fun vp => do
    match ← ask (.createMigration vp) with
    | .error err => httpError 500 ("create: " ++ err)
    | .ok id =>
      ask (.submit id)
      done 202

/-- `DriftScan` and the answer to its errors. -/
def driftScan : Handling :=
  planned c ctx fun vp =>
    let p := vp.plan
    if p.backfill.column = "" then
      httpError 422 ("drift scan: plan " ++ c.quote p.id ++ " has no backfill.column to scan")
    else if p.backfill.sourceExpr = "" then
      httpError 422 ("drift scan: plan " ++ c.quote p.id ++ " has no backfill.source_expr to scan")
    else do
      match ← ask (.query (fullParitySQL p.table p.backfill.column p.backfill.sourceExpr)) with
      | .error (.query err) | .error (.scan err) | .error (.rows err) =>
        httpError 422 ("drift scan: full-table parity: " ++ err)
      | .ok () => done 200

def listMigrations (_ : Ctx) : Handling := orFail .list "" (done 200)

/-- A browser gets the page. -/
def getMigration : Handling :=
  if ctx.request.requestedWith ≠ "XMLHttpRequest" ∧
      Sql.Text.occurs "text/html".toList ctx.request.accept.toList = true then
    pure (c.files ctx.request)
  else
    identified c ctx fun id => do
      match ← ask (.load id) with
      | .error .notFound => httpError 404 "not found"
      | .error (.failed err) => httpError 500 err
      | .ok _ => done 200

def resetDemo (_ : Ctx) : Handling :=
  orFail (.exec ("ALTER TABLE catalog_product ADD COLUMN IF NOT EXISTS legacy_shipping text; " ++
    "ALTER TABLE catalog_product DROP COLUMN IF EXISTS shipping_class;")) "reset demo: " (done 204)

def abortMigration : Handling :=
  identified c ctx fun id => orFail (.updateState id .rolledBack true) "abort: " (done 204)

/-- The ids are checked one by one; `uids` are those that are going to be deleted. -/
def deleteEach : List String → List Id → Handling
  | [], uids => orFail (.deleteMany uids) "delete: " (done 204)
  | raw :: raws, uids =>
    match c.parseID raw with
    | none => httpError 400 ("bad id: " ++ raw)
    | some id => do
      match ← ask (.load id) with
      | .error .notFound => deleteEach raws uids
      | .error (.failed err) => httpError 500 err
      | .ok rec =>
        if rec.terminal then deleteEach raws (uids ++ [id])
        else
          httpError 409 ("cannot delete non-terminal migration " ++ c.idText id ++ ": abort it first")

def deleteMigrations : Handling :=
  decoded c.ids ctx fun raws =>
    if raws = [] then httpError 400 "no ids provided" else deleteEach c raws []

/-! ### Reports -/

def getSchema : Handling :=
  if ctx.pathValue "table" = "" then httpError 400 "table parameter required"
  else do
    match ← ask (.query ("SELECT column_name, data_type, is_nullable, COALESCE(column_default, '') " ++
      "FROM information_schema.columns WHERE table_name = $1 ORDER BY ordinal_position")) with
    | .error (.query err) => httpError 500 ("introspect: " ++ err)
    | .error (.scan err) => httpError 500 ("scan: " ++ err)
    | .error (.rows err) => httpError 500 ("rows: " ++ err)
    | .ok () => done 200

/-- A report on the migration the path names. -/
def report (get : Id → Attempt) (what : String) : Handling :=
  identified c ctx fun id => orFail (get id) what (done 200)

def getSafetyMetrics : Handling := report c ctx .getDDLLogs "get ddl logs: "

def getBackfillProgress : Handling := report c ctx .getBackfillProgress "get backfill progress: "

def getCanaryObservations : Handling :=
  report c ctx .getCanaryObservations "get canary observations: "

/-! ### Services -/

def registerService : Handling :=
  identified c ctx fun id =>
    decoded c.service ctx fun (serviceName, schemaVersion) =>
      if serviceName = "" then httpError 400 "service_name required"
      else orFail (.registerService id serviceName schemaVersion) "register service: " (done 201)

def updateServiceCompat : Handling :=
  identified c ctx fun id =>
    if ctx.pathValue "service" = "" then httpError 400 "service name required"
    else
      decoded c.compatible ctx fun compatible =>
        orFail (.updateServiceCompat id (ctx.pathValue "service") compatible)
          "update service compat: " (done 204)

def getServices : Handling :=
  identified c ctx fun id =>
    orFail (.getServices id) "get services: "
      (orFail (.allServicesReady id) "check services ready: " (done 200))

/-! ### Chaos -/

def runChaosScenario : Handling :=
  decoded c.scenario ctx fun scenario =>
    if scenario = "" then httpError 400 "scenario name required"
    else orFail (.runScenario scenario) "run scenario: " (done 200)

def listChaosScenarios (_ : Ctx) : Handling := done 200

end Handlers

/-! ### The mux -/

/-- A segment of a pattern. -/
inductive Seg
  | lit (s : String)
  | wild (name : String)

structure Route where
  method : String
  pattern : List Seg
  handler : Ctx → Handling

/-- The path values of a path that has the pattern. -/
def matchPath : List Seg → List String → Option (List (String × String))
  | [], [] => some []
  | .lit s :: pattern, seg :: path => if seg = s then matchPath pattern path else none
  | .wild name :: pattern, seg :: path =>
    if seg = "" then none else (matchPath pattern path).map ((name, seg) :: ·)
  | _, _ => none

/-- A `HEAD` is served as a `GET`. -/
def Route.serves (route : Route) (method : String) : Bool :=
  route.method = method ∨ (route.method = "GET" ∧ method = "HEAD")

def Route.matching (route : Route) (r : Request) : Option Handling :=
  if route.serves r.method then
    (matchPath route.pattern r.path).map fun values =>
      route.handler { request := r, pathValues := values }
  else none

section Mux
variable (c : Libs)

def auth (next : Ctx → Handling) : Ctx → Handling := requireAuth pure c.validateToken next

def permit (permission : Permission) (next : Ctx → Handling) : Ctx → Handling :=
  requirePermission pure permission next

def migrationsID (rest : List Seg) : List Seg := .lit "migrations" :: .wild "id" :: rest

/-- The patterns of the mux, in the order of their registration. -/
def routes : List Route :=
  [⟨"GET", [.lit "healthz"], healthz⟩,
    ⟨"GET", [.lit "status"], status⟩,
    ⟨"GET", [.lit "metrics"], fun _ => pure c.metrics⟩,
    ⟨"POST", [.lit "auth", .lit "login"], login c⟩,
    ⟨"POST", [.lit "plans"], auth c (applyPlan c)⟩,
    ⟨"POST", [.lit "drift-scan"], auth c (driftScan c)⟩,
    ⟨"GET", [.lit "migrations"], auth c listMigrations⟩,
    ⟨"GET", migrationsID [], auth c (getMigration c)⟩,
    ⟨"POST", [.lit "reset-demo"], auth c (permit .manageSettings resetDemo)⟩,
    ⟨"POST", migrationsID [.lit "abort"], auth c (permit .writeMigrations (abortMigration c))⟩,
    ⟨"DELETE", [.lit "migrations"], auth c (permit .deleteMigrations (deleteMigrations c))⟩,
    ⟨"GET", [.lit "schema", .wild "table"], auth c getSchema⟩,
    ⟨"GET", migrationsID [.lit "safety"], auth c (permit .readSafety (getSafetyMetrics c))⟩,
    ⟨"GET", migrationsID [.lit "backfill"], auth c (permit .readSafety (getBackfillProgress c))⟩,
    ⟨"GET", migrationsID [.lit "canary"], auth c (permit .readSafety (getCanaryObservations c))⟩,
    ⟨"POST", migrationsID [.lit "services"], auth c (permit .writeMigrations (registerService c))⟩,
    ⟨"PUT", migrationsID [.lit "services", .wild "service"],
      auth c (permit .writeMigrations (updateServiceCompat c))⟩,
    ⟨"GET", migrationsID [.lit "services"], auth c (permit .readSafety (getServices c))⟩,
    ⟨"POST", [.lit "chaos", .lit "run"], auth c (permit .manageSettings (runChaosScenario c))⟩,
    ⟨"GET", [.lit "chaos", .lit "scenarios"], auth c (permit .readSafety listChaosScenarios)⟩]

/-- The handler of a request; whatever has no pattern of its own is served from the static files. -/
def mux (r : Request) : Handling :=
  ((routes c).findSome? fun route => route.matching r).getD (pure (c.files r))

/-- The request carries a valid token, and the role of its user cannot change anything. -/
def Viewer (r : Request) : Prop := ∃ user, userOf c.validateToken r = .ok user ∧ Weak user.role

/-- The request posts a plan that is accepted. -/
structure Posts (r : Request) : Prop where
  method : r.method = "POST"
  path : r.path = ["plans"]
  accepted : ∃ p vp, c.plan r.body = .ok p ∧ check p = .ok vp

end Mux

/-! ### No request has two of the patterns -/

/-- A path may have both patterns. -/
def meets : List Seg → List Seg → Bool
  | [], [] => true
  | .lit s :: pattern, .lit s' :: pattern' => s = s' && meets pattern pattern'
  | _ :: pattern, _ :: pattern' => meets pattern pattern'
  | _, _ => false

theorem meets_of_matchPath {path : List String} :
    ∀ {pattern pattern' : List Seg}, (matchPath pattern path).isSome = true →
      (matchPath pattern' path).isSome = true → meets pattern pattern' = true := by
  induction path with
  | nil =>
    intro pattern pattern' h h'
    have hnil : ∀ {p : List Seg}, (matchPath p []).isSome = true → p = [] := by
      rintro (_ | ⟨_ | _, _⟩) hp
      · rfl
      · simp [matchPath] at hp
      · simp [matchPath] at hp
    rw [hnil h, hnil h']
    rfl
  | cons seg path ih =>
    intro pattern pattern' h h'
    have hcons : ∀ {p : List Seg}, (matchPath p (seg :: path)).isSome = true →
        ∃ x q, p = x :: q ∧ (∀ s, x = .lit s → seg = s) ∧ (matchPath q path).isSome = true := by
      rintro (_ | ⟨s | name, q⟩) hp
      · simp [matchPath] at hp
      · by_cases hs : seg = s
        · exact ⟨_, q, rfl, by rintro t ⟨⟩; exact hs, by simpa [matchPath, hs] using hp⟩
        · simp [matchPath, hs] at hp
      · by_cases hs : seg = ""
        · simp [matchPath, hs] at hp
        · exact ⟨_, q, rfl, by rintro t ⟨⟩, by simpa [matchPath, hs] using hp⟩
    obtain ⟨x, q, rfl, hx, hq⟩ := hcons h
    obtain ⟨x', q', rfl, hx', hq'⟩ := hcons h'
    have hrest := ih hq hq'
    cases x with
    | wild name => exact hrest
    | lit s =>
      cases x' with
      | wild name => exact hrest
      | lit s' => simpa [meets, ← hx s rfl, ← hx' s' rfl] using hrest

/-- No path has both patterns, or their methods differ. -/
def apart (a b : Route) : Prop :=
  a.method ≠ "HEAD" ∧ b.method ≠ "HEAD" ∧ (a.method = b.method → meets a.pattern b.pattern = false)

instance : DecidableRel apart := fun _ _ => inferInstanceAs (Decidable (_ ∧ _ ∧ (_ → _)))

theorem method_of_serves {route : Route} {method : String} (h : route.serves method = true)
    (hne : route.method ≠ "HEAD") : route.method = if method = "HEAD" then "GET" else method := by
  unfold Route.serves at h
  rcases of_decide_eq_true h with heq | ⟨hget, hhead⟩
  · rw [if_neg (heq ▸ hne), heq]
  · rw [if_pos hhead, hget]

theorem isSome_matching {route : Route} {r : Request} : (route.matching r).isSome = true ↔
    route.serves r.method = true ∧ (matchPath route.pattern r.path).isSome = true := by
  unfold Route.matching
  split_ifs with hs <;> simp [hs]

/-- The route of a request is the only one. -/
theorem routes_disjoint (c : Libs) : (routes c).Pairwise fun a b =>
    ∀ r, (a.matching r).isSome = true → (b.matching r).isSome = false := by
  have hapart : (routes c).Pairwise apart := of_decide_eq_true (Eq.refl true)
  refine hapart.imp fun {a b} ⟨ha, hb, hab⟩ r hra => ?_
  by_contra hrb
  obtain ⟨hsa, hpa⟩ := isSome_matching.mp hra
  obtain ⟨hsb, hpb⟩ := isSome_matching.mp (Bool.not_eq_false _ ▸ hrb)
  have hmethod : a.method = b.method :=
    (method_of_serves hsa ha).trans (method_of_serves hsb hb).symm
  exact absurd (meets_of_matchPath hpa hpb) (by rw [hab hmethod]; decide)

/-! ### What it reads -/

/-- The program writes nothing and submits nothing. -/
def Reads (h : Handling) : Prop := h.All (fun op => Call.reads op = true) fun _ => True

section Reads
variable {c : Libs} {ctx : Ctx}

@[simp] theorem reads_pure (reply : Reply) : Reads (pure reply) := trivial

@[simp] theorem reads_httpError (code : ℕ) (text : String) : Reads (httpError code text) := trivial

@[simp] theorem reads_done (code : ℕ) : Reads (done code) := trivial

theorem reads_ask {op : Call} {next : op.Ret → Handling} (hop : op.reads = true)
    (h : ∀ r, Reads (next r)) : Reads (ask op >>= next) := ⟨hop, h⟩

theorem reads_orFail {a : Attempt} {what : String} {next : Handling} (ha : a.reads = true)
    (h : Reads next) : Reads (orFail a what next) :=
  reads_ask ha fun r => by
    cases r with
    | error err => trivial
    | ok _ => exact h

theorem reads_decoded {α : Type} {decode : String → Except String α} {next : α → Handling}
    (h : ∀ a, decode ctx.request.body = .ok a → Reads (next a)) :
    Reads (decoded decode ctx next) := by
  unfold decoded
  cases hd : decode ctx.request.body with
  | error err => trivial
  | ok a => exact h a hd

theorem reads_planned {next : ValidPlan → Handling}
    (h : ∀ p vp, c.plan ctx.request.body = .ok p → check p = .ok vp → Reads (next vp)) :
    Reads (planned c ctx next) := by
  refine reads_decoded fun p hp => ?_
  cases hvp : check p with
  | error err => trivial
  | ok vp => exact h p vp hp hvp

theorem reads_identified {next : Id → Handling} (h : ∀ id, Reads (next id)) :
    Reads (identified c ctx next) := by
  unfold identified
  cases c.parseID (ctx.pathValue "id") with
  | none => trivial
  | some id => exact h id

theorem reads_status (ctx : Ctx) : Reads (status ctx) :=
  reads_ask rfl fun _ => reads_ask rfl fun _ => reads_ask rfl fun _ => trivial

theorem reads_login : Reads (login c ctx) := by
  refine reads_decoded fun ⟨username, password⟩ _ => ?_
  dsimp only
  cases (authenticate username password).bind c.generateToken <;> trivial

theorem reads_driftScan : Reads (driftScan c ctx) := by
  refine reads_planned fun p vp _ _ => ?_
  dsimp only
  split_ifs
  · trivial
  · trivial
  · refine reads_ask rfl fun r => ?_
    rcases r with ⟨_ | _ | _⟩ | _ <;> trivial

theorem reads_getMigration : Reads (getMigration c ctx) := by
  unfold getMigration
  split_ifs
  · trivial
  · refine reads_identified fun id => reads_ask rfl fun r => ?_
    rcases r with ⟨_ | _⟩ | _ <;> trivial

theorem reads_getSchema : Reads (getSchema ctx) := by
  unfold getSchema
  split_ifs
  · trivial
  · refine reads_ask rfl fun r => ?_
    rcases r with ⟨_ | _ | _⟩ | _ <;> trivial

theorem reads_report {get : Id → Attempt} {what : String} (h : ∀ id, (get id).reads = true) :
    Reads (report c ctx get what) :=
  reads_identified fun id => reads_orFail (h id) (reads_done 200)

theorem reads_getServices : Reads (getServices c ctx) :=
  reads_identified fun _ => reads_orFail rfl (reads_orFail rfl (reads_done 200))

/-- A handler under a permission the user lacks. -/
theorem reads_permit {permission : Permission} {next : Ctx → Handling}
    (h : ∀ user, ctx.user = some user → hasPermission user.role permission = false) :
    Reads (permit permission next ctx) := by
  unfold permit requirePermission
  cases hu : ctx.user with
  | none => trivial
  | some user =>
    simp only [h user hu, Bool.false_eq_true, if_false]
    trivial

/-- A handler that reads, under whatever permission. -/
theorem reads_permit_of_reads {permission : Permission} {next : Ctx → Handling}
    (h : Reads (next ctx)) : Reads (permit permission next ctx) := by
  unfold permit requirePermission
  cases ctx.user with
  | none => trivial
  | some user =>
    dsimp only
    split_ifs
    · exact h
    · trivial

/-- Past `RequireAuth` the context has the user of the token. -/
theorem reads_auth {next : Ctx → Handling} (h : ∀ user,
    userOf c.validateToken ctx.request = .ok user → Reads (next { ctx with user := some user })) :
    Reads (auth c next ctx) := by
  unfold auth requireAuth
  cases hu : userOf c.validateToken ctx.request with
  | error text => trivial
  | ok user => exact h user hu

/-- Whatever handles the request at the route only reads. -/
def Harmless (r : Request) (route : Route) : Prop := ∀ h, route.matching r = some h → Reads h

theorem harmless_of_handler {r : Request} {route : Route}
    (h : ∀ values, Reads (route.handler { request := r, pathValues := values })) :
    Harmless r route := by
  intro h' hm
  unfold Route.matching at hm
  split_ifs at hm with hs
  obtain ⟨values, -, rfl⟩ := Option.map_eq_some_iff.mp hm
  exact h values

theorem harmless_auth {r : Request} {method : String} {pattern : List Seg} {user : User}
    {next : Ctx → Handling} (hu : userOf c.validateToken r = .ok user)
    (h : ∀ ctx : Ctx, ctx.user = some user → Reads (next ctx)) :
    Harmless r ⟨method, pattern, auth c next⟩ :=
  harmless_of_handler fun values => reads_auth fun user' hu' => by
    cases hu.symm.trans hu'
    exact h _ rfl

/-- Only the request with this method and path has the pattern of the plans. -/
theorem matching_plans {r : Request} {handler : Ctx → Handling} {h : Handling}
    (hm : Route.matching ⟨"POST", [.lit "plans"], handler⟩ r = some h) :
    r.method = "POST" ∧ r.path = ["plans"] ∧ h = handler { request := r } := by
  unfold Route.matching at hm
  split_ifs at hm with hs
  obtain ⟨values, hpath, rfl⟩ := Option.map_eq_some_iff.mp hm
  have hmethod : r.method = "POST" := by
    have : ¬(("POST" : String) = "GET") := by decide
    simpa [Route.serves, this, eq_comm] using hs
  match hp : r.path, hpath with
  | [seg], hpath =>
    simp only [matchPath] at hpath
    split_ifs at hpath with hseg
    cases hpath
    exact ⟨hmethod, by rw [hseg], rfl⟩
  | seg :: seg' :: path, hpath =>
    simp only [matchPath] at hpath
    split_ifs at hpath

/-- A plan that is refused is not created. -/
theorem harmless_plans {r : Request} (hp : ¬Posts c r) :
    Harmless r ⟨"POST", [.lit "plans"], auth c (applyPlan c)⟩ := by
  intro h hm
  obtain ⟨hmethod, hpath, rfl⟩ := matching_plans hm
  refine reads_auth fun user _ => reads_planned fun p vp hplan hvp => ?_
  exact absurd ⟨hmethod, hpath, p, vp, hplan, hvp⟩ hp

theorem harmless_routes {r : Request} (hv : Viewer c r) (hp : ¬Posts c r) :
    ∀ route ∈ routes c, Harmless r route := by
  obtain ⟨user, hu, hweak⟩ := hv
  have hauth : ∀ {method pattern next}, (∀ ctx : Ctx, Reads (next ctx)) →
      Harmless r ⟨method, pattern, auth c next⟩ := fun h => harmless_auth hu fun ctx _ => h ctx
  have hread : ∀ {method pattern next}, (∀ ctx : Ctx, Reads (next ctx)) →
      Harmless r ⟨method, pattern, auth c (permit .readSafety next)⟩ :=
    fun h => hauth fun ctx => reads_permit_of_reads (h ctx)
  have hlack : ∀ {method pattern permission next}, hasPermission user.role permission = false →
      Harmless r ⟨method, pattern, auth c (permit permission next)⟩ := fun h =>
    harmless_auth hu fun ctx hctx => reads_permit fun user' hu' => by
      cases hctx.symm.trans hu'
      exact h
  simp only [routes, List.forall_mem_cons, List.not_mem_nil, false_imp_iff, implies_true, and_true]
  refine ⟨?healthz, ?status, ?metrics, ?login, ?plans, ?driftScan, ?list, ?get, ?reset, ?abort, ?delete,
    ?schema, ?safety, ?backfill, ?canary, ?register, ?compat, ?services, ?chaos, ?scenarios⟩
  case healthz => exact harmless_of_handler fun _ => reads_pure _
  case status => exact harmless_of_handler fun _ => reads_status { request := r }
  case metrics => exact harmless_of_handler fun _ => reads_pure _
  case login => exact harmless_of_handler fun _ => reads_login
  case plans => exact harmless_plans hp
  case driftScan => exact hauth fun _ => reads_driftScan
  case list => exact hauth fun _ => reads_orFail rfl (reads_done 200)
  case get => exact hauth fun _ => reads_getMigration
  case reset => exact hlack hweak.settings
  case abort => exact hlack hweak.write
  case delete => exact hlack hweak.delete
  case schema => exact hauth fun _ => reads_getSchema
  case safety => exact hread fun _ => reads_report fun _ => rfl
  case backfill => exact hread fun _ => reads_report fun _ => rfl
  case canary => exact hread fun _ => reads_report fun _ => rfl
  case register => exact hlack hweak.write
  case compat => exact hlack hweak.write
  case services => exact hread fun _ => reads_getServices
  case chaos => exact hlack hweak.settings
  case scenarios => exact hread fun _ => reads_done 200

/-- **A request that cannot change anything only reads**, unless it posts an accepted plan. -/
theorem reads_mux {r : Request} (hv : Viewer c r) (hp : ¬Posts c r) : Reads (mux c r) := by
  unfold mux
  cases hf : (routes c).findSome? fun route => route.matching r with
  | none => trivial
  | some h =>
    obtain ⟨route, hmem, hroute⟩ := List.exists_of_findSome?_eq_some hf
    exact harmless_routes hv hp route hmem h hroute

/-- **A request that posts an accepted plan creates a migration and submits it**, whatever the role of
its token. -/
theorem mux_posts {r : Request} (hv : ∃ user, userOf c.validateToken r = .ok user)
    (hp : Posts c r) : ∃ p vp, c.plan r.body = .ok p ∧ check p = .ok vp ∧
      mux c r = .call (.createMigration vp) fun x =>
        match x with
        | .error err => httpError 500 ("create: " ++ err)
        | .ok id => .call (.submit id) fun _ => done 202 := by
  obtain ⟨user, hu⟩ := hv
  obtain ⟨hmethod, hpath, p, vp, hplan, hvp⟩ := hp
  have hmux : mux c r = applyPlan c { request := r, user := some user } := by
    simp [mux, routes, Route.matching, Route.serves, hmethod, hpath, matchPath, migrationsID, auth,
      requireAuth, hu]
  refine ⟨p, vp, hplan, hvp, hmux.trans ?_⟩
  simp only [applyPlan, planned, decoded, hplan, hvp]
  rfl

/-- **A validated plan that is posted as JSON is the plan of the migration**, if the decoder is the one
of JSON. -/
theorem mux_marshal {r : Request} {p p' : MigrationPlan} {nils : Nils}
    (hc : ∀ q, decodeBody r.body = some q → c.plan r.body = .ok q)
    (hv : ∃ user, userOf c.validateToken r = .ok user) (hmethod : r.method = "POST")
    (hpath : r.path = ["plans"]) (hbody : r.body = marshal nils p') (hp : validate p = .ok p')
    (h : Fits p) : ∃ vp : ValidPlan, vp.plan = p' ∧ mux c r = .call (.createMigration vp) fun x =>
      match x with
      | .error err => httpError 500 ("create: " ++ err)
      | .ok id => .call (.submit id) fun _ => done 202 := by
  have hacc := (validate_ok hp).2
  have hdecode := (decode_marshal nils hacc (fits_validate hp h)).1
  have hplan : c.plan r.body = .ok p' := hc p' (hbody ▸ hdecode)
  have hcheck : check p' = .ok ⟨p', hacc⟩ := check_of_validate (validate_validate hp)
  obtain ⟨q, vp, hq, hvp, hmux⟩ := mux_posts hv ⟨hmethod, hpath, p', _, hplan, hcheck⟩
  obtain rfl := Except.ok.inj (hq.symm.trans hplan)
  obtain rfl := Except.ok.inj (hvp.symm.trans hcheck)
  exact ⟨_, rfl, hmux⟩

end Reads

end MigrationSafety.Server.Routes
