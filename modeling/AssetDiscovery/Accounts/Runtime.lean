import AssetDiscovery.Accounts.Users
import AssetDiscovery.RateLimit
import AssetDiscovery.Services

/-!
# What the API runs on

The API works on more than the discovery service does: the table of users, the tokens that have been
signed, and the dictionary of the rate limiter in each API process. A `Deployment` holds all of it,
and `serveApi` carries out the operations of the API: those of the service as before, and its own.

The two libraries `jose` and `passlib` are parameters (`Crypto`). What is used of them is that
`jwt.decode` accepts under the secret key exactly the unexpired tokens that `jwt.encode` has
produced under it, so the deployment remembers the payloads that have been signed.
-/

set_option autoImplicit false

namespace AssetDiscovery

open Effect

/-- A value in the payload of a token. -/
inductive ClaimValue where
  /-- The id of a user. -/
  | id (x : Id)
  | text (s : String)
  | date (t : Time)
  deriving DecidableEq, Repr

/-- The payload of a token: a `dict`, in which the first binding of a key counts. -/
abbrev Claims := List (String × ClaimValue)

namespace Claims

/-- `payload.get(key)`. -/
def get (payload : Claims) (key : String) : Option ClaimValue :=
  payload.lookup key

/-- `payload.update(extra)`. -/
def update (payload extra : Claims) : Claims :=
  extra ++ payload

/-- The token is expired at a time, which is what `jwt.decode` compares the claim `exp` with. -/
def Expired (payload : Claims) (now : Time) : Prop :=
  ∃ exp ∈ payload.get "exp", match exp with
    | .date t => t < now
    | .id _ | .text _ => False

instance (payload : Claims) (now : Time) : Decidable (payload.Expired now) :=
  have : ∀ exp : ClaimValue, Decidable (match exp with
      | .date t => t < now
      | .id _ | .text _ => False)
    | .date t => inferInstanceAs (Decidable (t < now))
    | .id _ | .text _ => instDecidableFalse
  inferInstanceAs (Decidable (∃ exp ∈ payload.get "exp", _))

/-- Updating leaves the claims alone that it does not name. -/
theorem get_update {payload extra : Claims} {key : String} (h : extra.get key = none) :
    (payload.update extra).get key = payload.get key := by
  rw [get, update, List.lookup_append, show extra.lookup key = none from h, Option.none_or]
  rfl

end Claims

/-- `jose.jwt` under the secret key, and `pwd_context`. -/
structure Crypto where
  /-- The token that `jwt.encode` makes of a payload. -/
  sign : Claims → String
  /-- What `pwd_context.hash` makes of a password with a salt that it draws. -/
  hash : String → String → String
  /-- `pwd_context.verify`. -/
  verify : String → String → Bool
  /-- It accepts only the password that has been hashed. -/
  verify_hash : ∀ password password' salt, verify password (hash password' salt) = true →
    password = password'

/-- Passwords are stored as they are, and all tokens look alike. -/
def Crypto.plain : Crypto where
  sign _ := ""
  hash password _ := password
  verify password hash := password = hash
  verify_hash _ _ _ h := by simpa using h

/-- The operations of the API. -/
inductive ApiOp where
  /-- An operation of the service. -/
  | service (o : Op)
  | userByEmail (email : String)
  | userById (id : Id)
  | existingAdmin
  /-- `db.add(user)` and `db.commit()`. -/
  | commitUser (row : User)
  /-- `uuid4()`, for the id of a user. -/
  | uuid4
  /-- `pwd_context.hash`. -/
  | hash (password : String)
  /-- `jwt.encode`. -/
  | encode (payload : Claims)
  /-- `jwt.decode`. -/
  | decode (token : String)
  /-- `time.monotonic()`. -/
  | monotonic
  /-- The critical section of `enforce_login_rate_limit` in an API process. -/
  | enforce (api : ℕ) (key : String) (now : Reading)
  /-- `clear_client` in an API process. -/
  | clearClient (api : ℕ) (key : String)
  deriving DecidableEq, Repr

/-- What an operation answers. -/
abbrev ApiOp.Res : ApiOp → Type
  | .service o => o.Res
  | .userByEmail _ => Except DbError (Option User)
  | .userById _ => Except DbError (Option User)
  | .existingAdmin => Except DbError (Option User)
  | .commitUser _ => Except DbError Unit
  | .uuid4 => Id
  | .hash _ => String
  | .encode _ => String
  | .decode _ => Option Claims
  | .monotonic => Reading
  | .enforce _ _ _ => Except Exn String
  | .clearClient _ _ => Unit

/-- What the environment decides about one operation. -/
structure ApiEnv extends Env where
  /-- The salt that `pwd_context.hash` draws. -/
  salt : String := ""

/-- The state that all API processes share, and the dictionaries of each. -/
structure Deployment where
  store : Store
  users : Users
  /-- The payloads that have been signed. -/
  issued : List Claims
  /-- `_attempts` of each API process. -/
  attempts : ℕ → Attempts

namespace Deployment

/-- A new deployment. -/
def empty : Deployment where
  store := .empty
  users := .empty
  issued := []
  attempts := fun _ ↦ resetRateLimits

/-- A deployment with one user. -/
def oneUser : Deployment :=
  { empty with
    users := Users.empty.insert ⟨0, "a", "p", "A", .admin, true⟩ rfl
      fun _ h ↦ absurd h (Table.not_mem_empty _) }

/-- Time passes. -/
def tick (s : Deployment) (e : ApiEnv) : Deployment :=
  { s with store := { s.store with clock := s.store.clock + e.tick } }

/-- The payload that `jwt.decode` returns for a token; `none` if it raises `JWTError`. -/
def decode (c : Crypto) (s : Deployment) (token : String) : Option Claims :=
  s.issued.find? fun payload ↦ c.sign payload = token ∧ ¬ payload.Expired s.store.clock

end Deployment

/-- The answer of a query for a user. -/
def selectUser (e : ApiEnv) (s : Deployment) (found : Option User) :
    Except DbError (Option User) × Deployment :=
  if e.fails then (.error .operational, s.tick e) else (.ok found, s.tick e)

/-- Carry out one operation of thread `tid`. -/
def serveApi (c : Crypto) (rate : RateSettings) (tid : ℕ) :
    Handler ApiOp ApiOp.Res ApiEnv Deployment
  | .service o, e, s => (serve tid o e.toEnv s.store).map fun q ↦ (q.1, { s with store := q.2 })
  | .userByEmail email, e, s => some (selectUser e s (s.users.byEmail email))
  | .userById id, e, s => some (selectUser e s (s.users.byId id))
  | .existingAdmin, e, s => some (selectUser e s s.users.existingAdmin)
  -- the unique key on the address is checked here, and not before
  | .commitUser row, e, s =>
    if e.fails then some (.error .operational, s.tick e)
    else
      match s.users.write row with
      | .ok users => some (.ok (), { s.tick e with users := users })
      | .error err => some (.error err, s.tick e)
  | .uuid4, e, s =>
    let id := max s.store.uuids (max s.store.db.idBound s.users.idBound)
    some (id, { s.tick e with store := { (s.tick e).store with uuids := id + 1 } })
  | .hash password, e, s => some (c.hash password e.salt, s.tick e)
  | .encode payload, e, s =>
    some (c.sign payload, { s.tick e with issued := payload :: s.issued })
  | .decode token, e, s => some ((s.tick e).decode c token, s.tick e)
  | .monotonic, e, s => some (((s.tick e).store.clock : ℤ), s.tick e)
  -- the limiter lives in the memory of one API process
  | .enforce api key now, e, s =>
    let q := enforceLoginRateLimit rate key now (s.attempts api)
    some (q.1, { s.tick e with attempts := Function.update s.attempts api q.2 })
  | .clearClient api key, e, s =>
    some ((), { s.tick e with
      attempts := Function.update s.attempts api (clearClient key (s.attempts api)) })

/-! ### Code of the API -/

/-- Code of the API: it returns an `α` or raises. Its own statements never follow one that failed in
the same session, so the session needs no model here. -/
def Api (α : Type) : Type :=
  Program ApiOp ApiOp.Res (Except Exn α)

namespace Api

variable {α β : Type}

/-- `return`. -/
protected def pure (a : α) : Api α := Program.pure (.ok a)

/-- Sequencing; an exception skips the rest. -/
protected def bind (m : Api α) (f : α → Api β) : Api β :=
  Program.bind m fun r ↦
    match r with
    | .ok a => f a
    | .error e => Program.pure (.error e)

instance : Monad Api where
  pure := Api.pure
  bind := Api.bind

/-- `raise`. -/
def raise (e : Exn) : Api α := Program.pure (.error e)

/-- `try: m` / `except ... as exc: handler(exc)`. -/
def tryExcept (m : Api α) (handler : Exn → Api α) : Api α :=
  Program.bind m fun r ↦
    match r with
    | .ok a => Program.pure (.ok a)
    | .error e => handler e

/-- `try: m` / `finally: final`, for a `final` that does not raise. -/
def tryFinally (m : Api α) (final : Api Unit) : Api α :=
  Program.bind m fun r ↦ Program.bind final fun _ ↦ Program.pure r

/-- An operation that does not raise. -/
def call (o : ApiOp) : Api o.Res := Program.perform o fun r ↦ Program.pure (.ok r)

/-- The result of a statement; a failure is raised. -/
def orRaise (r : Except DbError α) : Api α := Program.pure (r.mapError Exn.database)

/-- Code of the service. -/
def service (p : Process) : Api Response :=
  Program.lift ApiOp.service (fun _ r ↦ r) p

/-- `db.close()`. -/
def close : Api Unit := do
  let _ ← call (.service .close)
  return ()

end Api

end AssetDiscovery
