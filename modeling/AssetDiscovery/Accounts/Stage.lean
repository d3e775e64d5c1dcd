import AssetDiscovery.Accounts.Auth
import AssetDiscovery.Conformance.Requests

/-!
# Stages of a request

How far a thread of the API has come, as far as its authority depends on it: a `Stage` is kept by an
observer that sees each operation with its answer, as for the phases of the service. `Stage.Allowed`
says what a thread may ask for in each stage. It may sign a payload only when it has found the user
whose address the login gives, and that user's password matches; and it may change rows of the
service or add a user only when it acts for a user (`Stage.acting`), which it does once the payload
of its token has been decoded and the user whom the payload names has been read as active, with a
role that the endpoint asks for.

That the code of the API keeps to it is proved here (`ApiRequest.follows`).
-/

set_option autoImplicit false

namespace AssetDiscovery

open Effect

namespace ApiRequest

/-- The credentials that a request carries. -/
def credentials : ApiRequest → Option Credentials
  | .register cr _ | .createDomain cr _ | .triggerScan cr _ | .deleteDomain cr _ => cr
  | .login _ _ _ | .startup => none

/-- The roles that an endpoint lets through. -/
def roles : ApiRequest → List UserRole
  | .register _ _ | .deleteDomain _ _ => [.admin]
  | .createDomain _ _ | .triggerScan _ _ => [.admin, .analyst]
  | .login _ _ _ | .startup => []

/-- The phase of the service in which a request begins to act. -/
def phase : ApiRequest → Phase
  | .createDomain _ _ => .creating
  | .triggerScan _ d => .triggering d
  | .deleteDomain _ d => .deleting d
  | .register _ _ | .login _ _ _ | .startup => .idle

end ApiRequest

/-- How far a thread of the API has come. -/
inductive Stage where
  /-- A request about which nothing is known. -/
  | arrived (r : ApiRequest)
  /-- The token of the request has been decoded. -/
  | decoded (r : ApiRequest) (payload : Claims)
  /-- The request acts for a user; `v` is the phase of its code of the service. -/
  | acting (r : ApiRequest) (user : User) (v : Phase)
  /-- A login that has found the user with its address. -/
  | found (r : ApiRequest) (user : User)
  /-- An API process that starts, before its session is closed. -/
  | seeding
  /-- A worker, or the recovery of an API process. -/
  | background (v : Phase)

namespace Stage

/-- The request that a thread answers. -/
def request : Stage → Option ApiRequest
  | arrived r | decoded r _ | acting r _ _ | found r _ => some r
  | seeding | background _ => none

/-- The stage after an operation and its answer. -/
def observe (st : Stage) : (o : ApiOp) → o.Res → Stage
  | .service o, a => match st with
    | acting r user v => acting r user (v.observe o a)
    | background v => background (v.observe o a)
    | seeding => if o = .close then background .recovering else seeding
    | st => st
  | .decode _, some payload => match st with
    | arrived r => decoded r payload
    | st => st
  | .userByEmail _, .ok (some user) => match st with
    | arrived r => found r user
    | st => st
  | .userById _, .ok (some user) => match st with
    | decoded r payload =>
      if user.isActive ∧ user.role ∈ r.roles then acting r user r.phase else decoded r payload
    | st => st
  | _, _ => st

/-- An operation that neither changes a row nor signs anything. -/
inductive Harmless : ApiOp → Prop
  | close : Harmless (.service .close)
  | now : Harmless (.service .now)
  | uuid4 : Harmless .uuid4
  | hash {password} : Harmless (.hash password)
  | monotonic : Harmless .monotonic
  | enforce {api key now} : Harmless (.enforce api key now)
  | clearClient {api key} : Harmless (.clearClient api key)

/-- The operations of a thread in each stage. -/
inductive Allowed (c : Crypto) (u : UnicodeTables) : Stage → ApiOp → Prop
  | harmless {st o} (h : Harmless o) : Allowed c u st o
  | decode {r cr} (h : r.credentials = some cr) : Allowed c u (arrived r) (.decode cr.token)
  | currentUser {r payload x} (h : payload.get "sub" = some (.id x)) :
    Allowed c u (decoded r payload) (.userById x)
  | service {r user v o} (h : v.Allowed o) : Allowed c u (acting r user v) (.service o)
  | conflict {cr p user v email} : Allowed c u (acting (.register cr p) user v) (.userByEmail email)
  | registration {cr p user v row} : Allowed c u (acting (.register cr p) user v) (.commitUser row)
  | registered {cr p user v x} : Allowed c u (acting (.register cr p) user v) (.userById x)
  | account {api request p} :
    Allowed c u (arrived (.login api request p)) (.userByEmail (normalizeEmail u.toUnicode p.email))
  | encode {api request p user payload} (hsub : payload.get "sub" = some (.id user.id))
      (hpassword : c.verify p.password user.passwordHash) (hactive : user.isActive) :
    Allowed c u (found (.login api request p) user) (.encode payload)
  | existingAdmin : Allowed c u seeding .existingAdmin
  | seed {row} : Allowed c u seeding (.commitUser row)
  | background {v o} (h : v.Allowed o) : Allowed c u (background v) (.service o)

/-- What is known of every answer. -/
def Possible : (o : ApiOp) → o.Res → Prop
  | .service o, a => Phase.Possible o a
  | .userById x, .ok (some row) => row.id = x
  | .userByEmail email, .ok (some row) => row.email = email
  | _, _ => True

/-- The discipline of the threads of the API. -/
def discipline (c : Crypto) (u : UnicodeTables) : Discipline ApiOp ApiOp.Res Stage where
  Allowed := Allowed c u
  Possible := Possible
  observe := observe

end Stage

/-! ### Rules for following the discipline -/

namespace Api

variable {α β : Type} {c : Crypto} {u : UnicodeTables}

variable (c u) in
/-- From a stage on, the code keeps to the discipline, whatever it is answered, and ends as `Q`
says. -/
def Follows (Q : Except Exn α → Stage → Prop) (m : Api α) (st : Stage) : Prop :=
  Program.Follows (Stage.discipline c u) Q m st

variable {st : Stage} {Q : Except Exn α → Stage → Prop}

@[simp]
theorem follows_pure {a : α} : Follows c u Q (pure a) st ↔ Q (.ok a) st :=
  Iff.rfl

@[simp]
theorem follows_raise {e : Exn} : Follows c u Q (raise e) st ↔ Q (.error e) st :=
  Iff.rfl

@[simp]
theorem follows_orRaise {r : Except DbError α} :
    Follows c u Q (orRaise r) st ↔ Q (r.mapError Exn.database) st :=
  Iff.rfl

/-- A weaker end is reached as well. -/
theorem Follows.mono {Q' : Except Exn α → Stage → Prop} {m : Api α} (h : Follows c u Q m st)
    (hQ : ∀ a st, Q a st → Q' a st) : Follows c u Q' m st :=
  Program.Follows.mono h hQ

/-- The rule of sequential composition. -/
theorem follows_bind {m : Api α} {f : α → Api β} {Q : Except Exn β → Stage → Prop}
    (h : Follows c u (fun r st ↦ match r with
      | .ok a => Follows c u Q (f a) st
      | .error e => Q (.error e) st) m st) : Follows c u Q (m >>= f) st := by
  refine Program.follows_bind.2 (Program.Follows.mono h ?_)
  rintro (e | a) st' h'
  · exact h'
  · exact h'

/-- An operation is allowed, and the stage follows its answer. -/
theorem follows_call {o : ApiOp} {Q : Except Exn o.Res → Stage → Prop}
    (ho : Stage.Allowed c u st o) (h : ∀ a, Stage.Possible o a → Q (.ok a) (st.observe o a)) :
    Follows c u Q (call o) st :=
  ⟨ho, h⟩

/-- A harmless operation leaves the stage as it is, unless it closes a session. -/
theorem follows_harmless {o : ApiOp} {Q : Except Exn o.Res → Stage → Prop} (ho : Stage.Harmless o)
    (h : ∀ a, Q (.ok a) (st.observe o a)) : Follows c u Q (call o) st :=
  follows_call (.harmless ho) fun a _ ↦ h a

theorem follows_close {Q : Except Exn Unit → Stage → Prop}
    (h : Q (.ok ()) (st.observe (.service .close) ())) : Follows c u Q close st :=
  follows_bind (follows_harmless .close fun _ ↦ h)

/-- The session is closed at the end, whatever has happened. -/
theorem follows_tryFinally_close {m : Api α}
    (h : Follows c u (fun a st ↦ Q a (st.observe (.service .close) ())) m st) :
    Follows c u Q (tryFinally m close) st := by
  refine Program.follows_bind.2 (Program.Follows.mono h fun a st h' ↦ ?_)
  exact Program.follows_bind.2 (follows_close h')

/-- The handler begins at the stage that the exception has left. -/
theorem follows_tryExcept {m : Api α} {handler : Exn → Api α}
    (h : Follows c u (fun r st ↦ match r with
      | .ok a => Q (.ok a) st
      | .error e => Follows c u Q (handler e) st) m st) :
    Follows c u Q (tryExcept m handler) st := by
  refine Program.follows_bind.2 (Program.Follows.mono h ?_)
  rintro (e | a) st' h'
  · exact h'
  · exact h'

/-- Code of the service, on behalf of a user or in the background. -/
theorem follows_service {p : Process} {v : Phase} {f : Phase → Stage}
    (hallowed : ∀ v o, v.Allowed o → Stage.Allowed c u (f v) (.service o))
    (hobserve : ∀ v o a, (f v).observe (.service o) a = f (v.observe o a))
    {Q : Except Exn Response → Phase → Prop} (h : p.Follows Phase.discipline Q v) :
    Follows c u (fun _ st ↦ ∃ v, st = f v) (service p) (f v) := by
  have hlift : Program.Follows (Stage.discipline c u) (fun a st ↦ ∃ v, st = f v ∧ Q a v)
      (Program.lift ApiOp.service (fun _ a ↦ a) p) (f v) :=
    Program.Follows.lift ApiOp.service (fun _ a ↦ a) (Stage.discipline c u) hallowed
      (fun _ _ h ↦ h) hobserve h
  exact Program.Follows.mono hlift fun _ _ ⟨v, hv, _⟩ ↦ ⟨v, hv⟩

end Api

/-! ### The code of the API -/

namespace Api

variable {c : Crypto} {u : UnicodeTables} {cfg : AuthSettings}

/-- `get_current_user` from the decoded payload on. -/
theorem follows_currentUserOf {r : ApiRequest} {payload : Claims} :
    Follows c u
      (fun a st ↦ ∀ user, a = .ok user → user.role ∈ r.roles → st = .acting r user r.phase)
      (currentUserOf payload) (.decoded r payload) := by
  rw [currentUserOf]
  split
  · next x hsub =>
    refine follows_bind (follows_bind (follows_call (.currentUser hsub) fun a ha ↦ ?_))
    rcases a with err | (_ | user)
    · exact fun _ h ↦ absurd h (by simp)
    · exact fun _ h ↦ absurd h (by simp)
    · show Follows c u _ (if user.isActive then pure user else raise unauthenticated)
        (if user.isActive ∧ user.role ∈ r.roles then .acting r user r.phase else .decoded r payload)
      by_cases hactive : user.isActive
      · rw [if_pos hactive]
        refine follows_pure.2 fun user' huser hrole ↦ ?_
        obtain rfl := Except.ok.inj huser
        rw [if_pos ⟨hactive, hrole⟩]
      · rw [if_neg hactive]
        exact follows_raise.2 fun _ h ↦ absurd h (by simp)
  · split
    · exact follows_raise.2 fun _ h ↦ absurd h (by simp)
    · exact follows_raise.2 fun _ h ↦ absurd h (by simp)
  · exact follows_raise.2 fun _ h ↦ absurd h (by simp)
  · exact follows_raise.2 fun _ h ↦ absurd h (by simp)

/-- The guards: a user who is let through is the one that the request acts for. -/
theorem follows_requireRoles (r : ApiRequest) :
    Follows c u (fun a st ↦ ∀ user, a = .ok user → st = .acting r user r.phase)
      (requireRoles u r.roles r.credentials) (.arrived r) := by
  refine follows_bind ((?_ : Follows c u (fun a st ↦ ∀ user, a = .ok user → user.role ∈ r.roles →
    st = .acting r user r.phase) (getCurrentUser u r.credentials) (.arrived r)).mono ?_)
  · cases hcr : r.credentials with
    | none => exact follows_raise.2 fun _ h ↦ absurd h (by simp)
    | some cr =>
      rw [getCurrentUser]
      split
      · exact follows_raise.2 fun _ h ↦ absurd h (by simp)
      · refine follows_bind (follows_call (.decode hcr) fun payload _ ↦ ?_)
        cases payload with
        | none => exact follows_raise.2 fun _ h ↦ absurd h (by simp)
        | some payload => exact follows_currentUserOf
  · rintro (e | user) st h
    · exact fun _ h ↦ absurd h (by simp)
    · show Follows c u _ (if user.role ∉ r.roles then _ else _) st
      split
      · exact follows_raise.2 fun _ h ↦ absurd h (by simp)
      · next hrole =>
        refine follows_pure.2 fun user' huser ↦ ?_
        obtain rfl := Except.ok.inj huser
        exact h user rfl (not_not.1 hrole)

/-- An endpoint of the service. -/
theorem follows_onBehalf (r : ApiRequest) (request : User → Request)
    (hphase : ∀ user, (request user).phase = r.phase) :
    Follows c u (fun _ _ ↦ True)
      (onBehalf u (requireRoles u r.roles r.credentials) request) (.arrived r) := by
  refine follows_bind (follows_tryExcept ((follows_requireRoles r).mono ?_))
  rintro (e | user) st h
  · exact follows_bind (follows_close (follows_raise.2 trivial))
  · show Follows c u _ (service _ >>= _) st
    rw [h user rfl]
    have hfollows := (request user).follows u.toUnicode
    rw [hphase] at hfollows
    refine follows_bind ((follows_service (f := Stage.acting r user) (fun _ _ ↦ .service)
      (fun _ _ _ ↦ rfl) hfollows).mono ?_)
    rintro (e | a) st -
    · trivial
    · exact follows_pure.2 trivial

/-- The policy asks for no operation. -/
theorem follows_validatePasswordPolicy {password : String} {st : Stage} :
    Follows c u (fun _ st' ↦ st' = st) (validatePasswordPolicy u password) st := by
  rw [validatePasswordPolicy]
  split
  · rfl
  · split
    · rfl
    · rfl

/-- `register_user`, on behalf of an administrator. -/
theorem follows_registerUser {cr : Option Credentials} {p payload : RegisterRequest} {user : User}
    {v : Phase} :
    Follows c u (fun _ _ ↦ True) (AuthService.registerUser u payload)
      (.acting (.register cr p) user v) := by
  refine follows_bind (follows_validatePasswordPolicy.mono ?_)
  rintro (e | a) st rfl
  · trivial
  refine follows_bind (follows_bind (follows_call .conflict fun a _ ↦ ?_))
  rcases a with err | (_ | found)
  · trivial
  · refine follows_bind (follows_harmless .hash fun hash ↦ ?_)
    refine follows_bind (follows_bind (follows_harmless .uuid4 fun id ↦ ?_))
    refine follows_bind (follows_call .registration fun a _ ↦ ?_)
    cases a with
    | error err => trivial
    | ok _ =>
      refine follows_bind (follows_bind (follows_call .registered fun a _ ↦ ?_))
      rcases a with err | (_ | row)
      · trivial
      · trivial
      · trivial
  · trivial

/-- `login_user`. -/
theorem follows_loginUser {api : ℕ} {request : Client} {p : LoginRequest} :
    Follows c u (fun _ _ ↦ True) (AuthService.loginUser cfg u c p)
      (.arrived (.login api request p)) := by
  refine follows_bind (follows_bind (follows_call .account fun a _ ↦ ?_))
  rcases a with err | (_ | user)
  · trivial
  · trivial
  · show Follows c u _ (if _ then _ else _) (.found (.login api request p) user)
    split
    · trivial
    · next hpassword =>
      split
      · trivial
      · next hactive =>
        have hencode : ∀ now : Time, Stage.Allowed c u (.found (.login api request p) user)
            (.encode (Claims.update [("sub", .id user.id),
              ("exp", .date (now + cfg.jwtAccessTokenExpireMinutes * cfg.minute))]
                [("email", .text user.email), ("role", .text user.role.value)])) := by
          intro now
          refine .encode ?_ (not_not.1 hpassword) (not_not.1 hactive)
          -- neither of the extra claims is the subject
          rw [Claims.get_update rfl]
          rfl
        refine follows_bind (follows_bind (follows_harmless .now fun now ↦ ?_))
        exact follows_call (hencode now) fun _ _ ↦ trivial

/-- `login`. -/
theorem follows_loginEndpoint {api : ℕ} {request : Client} {p : LoginRequest} :
    Follows c u (fun _ _ ↦ True) (loginEndpoint cfg u c api request p)
      (.arrived (.login api request p)) := by
  refine follows_bind (follows_bind (follows_harmless .monotonic fun now ↦ ?_))
  refine follows_bind (follows_harmless .enforce fun a ↦ ?_)
  cases a with
  | error e => exact trivial
  | ok key =>
    refine follows_bind (follows_loginUser.mono ?_)
    rintro (e | token) st -
    · trivial
    · exact follows_bind (follows_harmless .clearClient fun _ ↦ trivial)

/-- `seed_admin_user`. -/
theorem follows_seedAdminUser :
    Follows c u (fun _ st ↦ st = .seeding) (AuthService.seedAdminUser cfg u) .seeding := by
  refine follows_bind (follows_bind (follows_call .existingAdmin fun a _ ↦ ?_))
  rcases a with err | (_ | admin)
  · rfl
  · show Follows c u _ (call (.hash _) >>= _) .seeding
    refine follows_bind (follows_harmless .hash fun hash ↦ ?_)
    refine follows_bind (follows_harmless .uuid4 fun id ↦ ?_)
    refine follows_bind (follows_call .seed fun a _ ↦ ?_)
    cases a with
    | error err => rfl
    | ok _ => rfl
  · rfl

end Api

/-! ### Threads -/

/-- The stage in which a request, or a start, begins. -/
def ApiRequest.stage : ApiRequest → Stage
  | .startup => .seeding
  | r => .arrived r

/-- A request, and the start of an API process, keep to the discipline. -/
theorem ApiRequest.follows (c : Crypto) (u : UnicodeTables) (cfg : AuthSettings) (r : ApiRequest) :
    Api.Follows c u (fun _ _ ↦ True) (r.code cfg u c) r.stage := by
  cases r with
  | register cr payload =>
    refine Api.follows_tryFinally_close (Api.follows_bind
      ((Api.follows_requireRoles (.register cr payload)).mono ?_))
    rintro (e | user) st h
    · trivial
    · rw [h user rfl]
      exact Api.follows_registerUser
  | login api request payload => exact Api.follows_tryFinally_close Api.follows_loginEndpoint
  | createDomain cr payload => exact Api.follows_onBehalf (.createDomain cr payload) _ fun _ ↦ rfl
  | triggerScan cr d => exact Api.follows_onBehalf (.triggerScan cr d) _ fun _ ↦ rfl
  | deleteDomain cr d => exact Api.follows_onBehalf (.deleteDomain cr d) _ fun _ ↦ rfl
  | startup =>
    refine Api.follows_bind (Api.follows_tryFinally_close (Api.follows_seedAdminUser.mono ?_))
    rintro (e | a) st rfl
    · trivial
    · refine Api.follows_bind ((Api.follows_service (f := Stage.background) (fun _ _ ↦ .background)
        (fun _ _ _ ↦ rfl) (Request.recover.follows u.toUnicode)).mono ?_)
      rintro (e | a) st -
      · trivial
      · trivial

/-- A worker that has taken a message keeps to the discipline. -/
theorem Message.follows_background (c : Crypto) (u : UnicodeTables) (cfg : Settings) (m : Message) :
    Api.Follows c u (fun _ _ ↦ True) (Api.service (Py.start (runDiscoveryScan cfg m)))
      (.background m.phase) :=
  (Api.follows_service (f := Stage.background) (fun _ _ ↦ .background) (fun _ _ _ ↦ rfl)
    (m.follows cfg)).mono fun _ _ _ ↦ trivial

end AssetDiscovery
