import Mathlib.Data.List.Basic

/-! # Authentication

Roles with their permissions, and the two wrappers a protected handler stands under: `requireAuth`
reads the token of the request and hands its user on, `requirePermission` refuses a user whose role
lacks the permission. What validates a token is a parameter, and a role is whatever text the token
holds. -/

namespace MigrationSafety.Server.Auth

/-! ### Roles -/

abbrev Role := String

def roleAdmin : Role := "admin"
def roleOperator : Role := "operator"
def roleViewer : Role := "viewer"

inductive Permission
  | readMigrations
  | writeMigrations
  | deleteMigrations
  | readSafety
  | manageUsers
  | manageSettings
deriving DecidableEq

open Permission

def rolePermissions (role : Role) : Option (List Permission) :=
  if role = roleAdmin then
    some [readMigrations, writeMigrations, deleteMigrations, readSafety, manageUsers, manageSettings]
  else if role = roleOperator then some [readMigrations, writeMigrations, readSafety]
  else if role = roleViewer then some [readMigrations, readSafety]
  else none

def hasPermission (role : Role) (permission : Permission) : Bool :=
  match rolePermissions role with
  | none => false
  | some permissions => permissions.contains permission

/-- The role has none of the three permissions to change something. -/
structure Weak (role : Role) : Prop where
  write : hasPermission role .writeMigrations = false
  delete : hasPermission role .deleteMigrations = false
  settings : hasPermission role .manageSettings = false

instance (role : Role) : Decidable (Weak role) :=
  decidable_of_iff (hasPermission role .writeMigrations = false ∧
    hasPermission role .deleteMigrations = false ∧ hasPermission role .manageSettings = false)
    ⟨fun ⟨hw, hd, hs⟩ => ⟨hw, hd, hs⟩, fun ⟨hw, hd, hs⟩ => ⟨hw, hd, hs⟩⟩

/-- All roles but two: also those that are not declared. -/
theorem weak_iff {role : Role} : Weak role ↔ role ≠ roleAdmin ∧ role ≠ roleOperator := by
  constructor
  · intro h
    constructor <;> rintro rfl
    · exact absurd h.write (by decide)
    · exact absurd h.write (by decide)
  · rintro ⟨hadmin, hoperator⟩
    by_cases hviewer : role = roleViewer
    · subst hviewer
      decide
    · constructor <;> simp [hasPermission, rolePermissions, hadmin, hoperator, hviewer]

theorem weak_roleViewer : Weak roleViewer := by decide

/-! ### Users -/

structure User where
  username : String
  role : Role
deriving DecidableEq

structure UserRecord where
  username : String
  passwordHash : String
  role : Role

/-- The users `NewAuth` seeds. -/
def users : List UserRecord :=
  [⟨"admin", "admin123", roleAdmin⟩, ⟨"operator", "operator123", roleOperator⟩,
    ⟨"viewer", "viewer123", roleViewer⟩]

/-- `Authenticate`: the user a token is made for. -/
def authenticate (username password : String) : Option User :=
  match users.find? fun u => u.username = username with
  | none => none
  | some u => if u.passwordHash = password then some ⟨username, u.role⟩ else none

/-! ### Requests -/

structure Request where
  method : String
  path : List String
  authorization : String := ""
  accept : String := ""
  requestedWith : String := ""
  body : String := ""

/-- What a handler sees: the request, its path values and the user in its context. -/
structure Ctx where
  request : Request
  pathValues : List (String × String) := []
  user : Option User := none

/-- `PathValue`. -/
def Ctx.pathValue (ctx : Ctx) (name : String) : String :=
  ((ctx.pathValues.find? fun v => v.1 = name).map Prod.snd).getD ""

structure Reply where
  code : ℕ
  text : String := ""
deriving DecidableEq

/-- The token of an `Authorization` header. -/
def bearer (authHeader : String) : Except String String :=
  if authHeader = "" then .error "authorization header required"
  else
    match authHeader.toList.dropWhile (· ≠ ' ') with
    | [] => .error "authorization header format must be Bearer \x7btoken\x7d"
    | _ :: token =>
      if (authHeader.toList.takeWhile (· ≠ ' ')).map Char.toLower = "bearer".toList then
        .ok (String.ofList token)
      else .error "authorization header format must be Bearer \x7btoken\x7d"

/-- The user of a request: what `RequireAuth` puts in its context, or the text of its refusal. -/
def userOf (validateToken : String → Option User) (r : Request) : Except String User :=
  match bearer r.authorization with
  | .error text => .error text
  | .ok token =>
    match validateToken token with
    | none => .error "invalid or expired token"
    | some user => .ok user

section Wrappers
variable {β : Type}

def requireAuth (refuse : Reply → β) (validateToken : String → Option User) (next : Ctx → β)
    (ctx : Ctx) : β :=
  match userOf validateToken ctx.request with
  | .error text => refuse ⟨401, text⟩
  | .ok user => next { ctx with user := some user }

def requirePermission (refuse : Reply → β) (permission : Permission) (next : Ctx → β) (ctx : Ctx) : β :=
  match ctx.user with
  | none => refuse ⟨401, "unauthorized"⟩
  | some user =>
    if hasPermission user.role permission then next ctx
    else refuse ⟨403, "forbidden: insufficient permissions"⟩

end Wrappers

end MigrationSafety.Server.Auth
