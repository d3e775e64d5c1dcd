import AssetDiscovery.Accounts.Runtime

/-!
# Accounts and access

`app/repositories/user.py`, `app/services/auth.py`, `app/services/bootstrap.py`, `app/core/deps.py`
and the endpoints that change something. What FastAPI does before it calls an endpoint is part of
the code of the request here: it resolves the dependencies, `get_db` first, and closes the session
when the request is answered.

`bearer_scheme` is FastAPI's; a request carries what it makes of the header `Authorization`
(`Credentials`). The endpoints that only read are left out.
-/

set_option autoImplicit false

namespace AssetDiscovery

open Api

/-- The settings that this code reads. -/
structure AuthSettings where
  rate : RateSettings := {}
  jwtAccessTokenExpireMinutes : ℕ := 60
  /-- Units of the clock in a minute. -/
  minute : ℕ := 60
  adminEmail : String := "admin@example.com"
  adminPassword : String := "ChangeMeAdmin123!"
  adminFullName : String := "Platform Admin"

/-- The Unicode tables that the code consults. -/
structure UnicodeTables extends Unicode where
  /-- `str.isupper()` of one character. -/
  isUpper : Char → Bool
  /-- `str.islower()`. -/
  isLower : Char → Bool
  /-- `str.isdigit()`. -/
  isDigit : Char → Bool

/-- The tables for ASCII texts without blanks around them, in lower case. -/
def UnicodeTables.plain : UnicodeTables :=
  { Unicode.plain with isUpper := Char.isUpper, isLower := Char.isLower, isDigit := Char.isDigit }

/-- `RegisterRequest`. -/
structure RegisterRequest where
  email : String
  password : String
  fullName : String
  role : UserRole
  deriving DecidableEq, Repr

/-- `LoginRequest`. -/
structure LoginRequest where
  email : String
  password : String
  deriving DecidableEq, Repr

/-- `HTTPAuthorizationCredentials`. -/
structure Credentials where
  scheme : String
  token : String
  deriving DecidableEq, Repr

/-- What the API answers. -/
inductive ApiResponse where
  /-- An answer of the service. -/
  | service (r : Response)
  /-- `TokenResponse`. -/
  | token (accessToken tokenType : String) (expiresIn : ℕ)
  /-- `UserResponse`. -/
  | user (id : Id) (email fullName : String) (role : UserRole) (isActive : Bool)
  deriving DecidableEq, Repr

variable (cfg : AuthSettings) (u : UnicodeTables)

/-! ### `repositories/user.py` -/

namespace UserRepo

/-- `get_user_by_id`. -/
def getUserById (userId : Id) : Api (Option User) := do
  orRaise (← call (.userById userId))

/-- `get_user_by_email`. -/
def getUserByEmail (email : String) : Api (Option User) := do
  orRaise (← call (.userByEmail (normalizeEmail u.toUnicode email)))

/-- `create_user`; the id is drawn when the new instance is flushed. -/
def createUser (email passwordHash fullName : String) (role : UserRole) : Api User := do
  let id ← call .uuid4
  orRaise (← call (.commitUser { id, email := normalizeEmail u.toUnicode email, passwordHash
                                 fullName := String.ofList (u.strip fullName.toList), role
                                 isActive := true }))
  match ← orRaise (← call (.userById id)) with
  | some user => return user
  | none => raise .invalidRequest

end UserRepo

/-! ### `core/security.py` and `core/password_policy.py` -/

/-- `create_access_token`. -/
def createAccessToken (subject : Id) (extraClaims : Claims) : Api String := do
  let now ← call (.service .now)
  let payload : Claims := [("sub", .id subject),
    ("exp", .date (now + cfg.jwtAccessTokenExpireMinutes * cfg.minute))]
  call (.encode (payload.update extraClaims))

/-- `[A-Za-z0-9]`. -/
def isAsciiAlnum (ch : Char) : Bool :=
  ('A' ≤ ch && ch ≤ 'Z') || ('a' ≤ ch && ch ≤ 'z') || ('0' ≤ ch && ch ≤ '9')

/-- `validate_password_policy`. -/
def validatePasswordPolicy (password : String) : Api Unit :=
  let hasUpper := password.toList.any u.isUpper
  let hasLower := password.toList.any u.isLower
  let hasDigit := password.toList.any u.isDigit
  let hasSpecial := password.toList.any fun ch ↦ !isAsciiAlnum ch
  if password.length < 8 then
    raise (.http 400 "Password must be at least 8 characters")
  else if ¬ (hasUpper ∧ hasLower ∧ hasDigit ∧ hasSpecial) then
    raise (.http 400
      "Password must include uppercase, lowercase, a number, and a special character")
  else return ()

/-! ### `services/auth.py` and `services/bootstrap.py` -/

namespace AuthService

/-- `register_user`. -/
def registerUser (payload : RegisterRequest) : Api ApiResponse := do
  validatePasswordPolicy u payload.password
  match ← UserRepo.getUserByEmail u payload.email with
  | some _ => raise (.http 409 "Email already registered")
  | none => do
    let passwordHash ← call (.hash payload.password)
    let user ← UserRepo.createUser u payload.email passwordHash payload.fullName payload.role
    return .user user.id user.email user.fullName user.role user.isActive

/-- `login_user`. -/
def loginUser (c : Crypto) (payload : LoginRequest) : Api ApiResponse := do
  match ← UserRepo.getUserByEmail u payload.email with
  | none => raise (.http 401 "Invalid credentials")
  | some user =>
    if ¬ c.verify payload.password user.passwordHash then
      raise (.http 401 "Invalid credentials")
    else if ¬ user.isActive then
      raise (.http 401 "Invalid credentials")
    else do
      let token ← createAccessToken cfg user.id
        [("email", .text user.email), ("role", .text user.role.value)]
      return .token token "bearer" (cfg.jwtAccessTokenExpireMinutes * 60)

/-- `seed_admin_user`. -/
def seedAdminUser : Api Unit := do
  match ← orRaise (← call .existingAdmin) with
  | some _ => return ()
  | none => do
    let passwordHash ← call (.hash cfg.adminPassword)
    let id ← call .uuid4
    orRaise (← call (.commitUser { id, email := normalizeEmail u.toUnicode cfg.adminEmail
                                   passwordHash
                                   fullName := String.ofList (u.strip cfg.adminFullName.toList)
                                   role := .admin, isActive := true }))

end AuthService

/-! ### `core/deps.py` -/

/-- The 401 of `get_current_user`. -/
def unauthenticated : Exn :=
  .http 401 "Missing or invalid authentication token"

/-- `get_current_user` from the decoded payload on. A subject that is no id is not found as one by
the database. -/
def currentUserOf (payload : Claims) : Api User :=
  match payload.get "sub" with
  | some (.id userId) => do
    match ← UserRepo.getUserById userId with
    | some user => if user.isActive then return user else raise unauthenticated
    | none => raise unauthenticated
  | some (.text s) => if s = "" then raise unauthenticated else raise (.database .data)
  | some (.date _) => raise unauthenticated
  | none => raise unauthenticated

/-- `get_current_user`. -/
def getCurrentUser (credentials : Option Credentials) : Api User :=
  match credentials with
  | none => raise unauthenticated
  | some cr =>
    if String.ofList (u.lower cr.scheme.toList) ≠ "bearer" then raise unauthenticated
    else do
      match ← call (.decode cr.token) with
      | none => raise unauthenticated
      | some payload => currentUserOf payload

/-- `require_roles`. -/
def requireRoles (allowedRoles : List UserRole) (credentials : Option Credentials) : Api User := do
  let currentUser ← getCurrentUser u credentials
  if currentUser.role ∉ allowedRoles then
    raise (.http 403 "You do not have permission to perform this action")
  else return currentUser

/-- `require_admin`. -/
def requireAdmin : Option Credentials → Api User :=
  requireRoles u [.admin]

/-- `require_analyst_or_admin`. -/
def requireAnalystOrAdmin : Option Credentials → Api User :=
  requireRoles u [.admin, .analyst]

/-! ### Endpoints -/

/-- What arrives at an API process: a request to an endpoint that changes something, or the start of
the process. `api` names the process. -/
inductive ApiRequest where
  /-- `POST /auth/register`. -/
  | register (credentials : Option Credentials) (payload : RegisterRequest)
  /-- `POST /auth/login`. -/
  | login (api : ℕ) (request : Client) (payload : LoginRequest)
  /-- `POST /domains`. -/
  | createDomain (credentials : Option Credentials) (payload : String)
  /-- `POST /domains/{domain_id}/scan`. -/
  | triggerScan (credentials : Option Credentials) (domainId : Id)
  /-- `DELETE /domains/{domain_id}`. -/
  | deleteDomain (credentials : Option Credentials) (domainId : Id)
  /-- `lifespan`. -/
  | startup
  deriving DecidableEq, Repr

/-- What `enforce_login_rate_limit` does under the lock. -/
def enforceUnderLock (api : ℕ) (key : String) (now : Reading) : Api String := do
  match ← call (.enforce api key now) with
  | .ok key => return key
  | .error e => raise e

/-- `enforce_login_rate_limit`, which reads the clock before it takes the lock. -/
def enforceRateLimit (api : ℕ) (request : Client) : Api String := do
  let now ← call .monotonic
  enforceUnderLock api (clientIp u.toUnicode request) now

/-- `login`. -/
def loginEndpoint (c : Crypto) (api : ℕ) (request : Client) (payload : LoginRequest) :
    Api ApiResponse := do
  let clientKey ← enforceRateLimit u api request
  let token ← AuthService.loginUser cfg u c payload
  call (.clearClient api clientKey)
  return token

/-- The code of the service that an endpoint calls, on behalf of a user. The session is closed with
it, or when the user is refused. -/
def onBehalf (user : Api User) (request : User → Request) : Api ApiResponse := do
  let user ← tryExcept user fun e ↦ do
    close
    raise e
  let r ← Api.service (Py.start ((request user).code u.toUnicode))
  return .service r

/-- The code that answers a request, with the session it opens and closes. -/
def ApiRequest.code (c : Crypto) : ApiRequest → Api ApiResponse
  | .register credentials payload =>
    tryFinally
      (do
        let _ ← requireAdmin u credentials
        AuthService.registerUser u payload)
      close
  | .login api request payload => tryFinally (loginEndpoint cfg u c api request payload) close
  | .createDomain credentials payload =>
    onBehalf u (requireAnalystOrAdmin u credentials) fun user ↦ .create payload user.id
  | .triggerScan credentials d =>
    onBehalf u (requireAnalystOrAdmin u credentials) fun user ↦ .trigger d user.id
  | .deleteDomain credentials d =>
    onBehalf u (requireAdmin u credentials) fun _ ↦ .delete d
  | .startup => do
    tryFinally (AuthService.seedAdminUser cfg u) close
    let r ← Api.service (Py.start (Request.recover.code u.toUnicode))
    return .service r

end AssetDiscovery
