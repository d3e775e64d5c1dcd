import AssetDiscovery.Accounts.Access
import AssetDiscovery.Accounts.PasswordPolicy
import AssetDiscovery.Duplicates

/-!
# Registering an address several times at once

`register_user` looks for a user of the address and inserts one in a later transaction, as
`create_domain` does for a name. Registrations of one address are a race for it
(`registrationRace`), and what is true of domains is true of users.

Registrations are taken here from where `require_admin` has let them through.
-/

set_option autoImplicit false

namespace AssetDiscovery

open Effect

/-- A number above every stored id is no key. -/
theorem Users.byId_of_idBound_le {users : Users} {id : Id} (h : users.idBound ≤ id) :
    users.byId id = none := by
  refine Table.get_eq_none_iff.2 fun row hrow hid ↦ ?_
  have hmem : id + 1 ∈ users.table.rows.map (·.id + 1) := List.mem_map.2 ⟨row, hrow, by rw [hid]⟩
  have hlt : id < users.idBound := List.le_max_of_le' 0 hmem le_rfl
  exact absurd h (Nat.not_le.2 hlt)

/-- The look-up of an address finds a user exactly if one has it. -/
theorem Users.byEmail_isSome_iff {users : Users} {email : String} :
    (users.byEmail email).isSome ↔ ∃ row ∈ users.table, row.email = email := by
  rw [byEmail, List.find?_isSome]
  simp only [decide_eq_true_eq]
  rfl

/-- The index on the addresses is unique. -/
theorem Users.existsUnique_of_byEmail {users : Users} {email : String}
    (h : (users.byEmail email).isSome) : ∃! row, row ∈ users.table ∧ row.email = email := by
  obtain ⟨row, hrow, hemail⟩ := byEmail_isSome_iff.1 h
  exact ⟨row, ⟨hrow, hemail⟩, fun row' h ↦ users.email_unique _ h.1 _ hrow (h.2.trans hemail.symm)⟩

/-- A commit of a new user is for an address that is not stored yet. -/
def ApiOp.Unbeaten (s : Deployment) : ApiOp → Prop
  | .commitUser row => s.users.byEmail row.email = none
  | _ => True

instance (s : Deployment) : DecidablePred (ApiOp.Unbeaten s) := fun o ↦ by
  unfold ApiOp.Unbeaten
  split <;> infer_instance

/-- What a registration knows. -/
inductive Application where
  /-- It may have drawn an id for its user. -/
  | contending (drawn : Option Id)
  | refused
  /-- Its user is stored. -/
  | won (row : User)

namespace Application

/-- What a registration knows while no user of the address is stored, and what the winner knows. -/
def Known (email : String) : Application → Deployment → Prop
  | contending drawn, s => s.users.byEmail email = none → ∀ id ∈ drawn, s.users.byId id = none
  | refused, _ => True
  | won row, s => row ∈ s.users.table ∧ row.email = email

/-- How a registration stands. -/
def standing : Application → Standing
  | contending _ => .contending
  | refused => .refused
  | won _ => .won

end Application

/-- The race of the registrations of this address. -/
def registrationRace (c : Crypto) (rate : RateSettings) (email : String) :
    Race ApiOp ApiOp.Res ApiEnv Deployment Application where
  handler := serveApi c rate
  ok o e s := e.fails = false ∧ o.Unbeaten s
  Stored s := (s.users.byEmail email).isSome
  Known _ := Application.Known email
  standing := Application.standing
  start := .contending none
  Quiet s s' := s'.users = s.users
  standing_start := rfl
  stored_of_quiet h := by rw [h]
  known_of_quiet {i k s s'} h hquiet := by
    cases k with
    | contending drawn | won row =>
      rw [Application.Known, hquiet]
      exact h
    | refused => trivial
  known_of_stored {i k s s'} h hk hs' := by
    cases k with
    | contending drawn =>
      intro hnew
      rw [hnew] at hs'
      exact absurd hs' (by simp)
    | refused => trivial
    | won row => exact absurd rfl hk

namespace Api

variable {α β : Type} {c : Crypto} {rate : RateSettings} {email : String} {i : ℕ}
variable {k : Application}

variable (c rate email i) in
/-- From this knowledge on, the code goes by the rules of the race for the address, and ends as `Q`
says. -/
def Applies (Q : Except Exn α → Application → Prop) (m : Api α) (k : Application) : Prop :=
  (registrationRace c rate email).Contends i Q m k

variable {Q : Except Exn α → Application → Prop}

theorem applies_pure {a : α} (h : Q (.ok a) k) : Applies c rate email i Q (pure a) k :=
  fun _ _ ↦ h

theorem applies_raise {e : Exn} (h : Q (.error e) k) : Applies c rate email i Q (raise e) k :=
  fun _ _ ↦ h

/-- How code goes on after `m`: an exception skips the rest. -/
abbrev appliesOn (c : Crypto) (rate : RateSettings) (email : String) (i : ℕ)
    (Q : Except Exn β → Application → Prop) (f : α → Api β) : Except Exn α → Application → Prop
  | .ok a, k => Applies c rate email i Q (f a) k
  | .error e, k => Q (.error e) k

/-- The rule of sequential composition. -/
theorem applies_bind {Q : Except Exn β → Application → Prop} {m : Api α} {f : α → Api β}
    (h : Applies c rate email i (appliesOn c rate email i Q f) m k) :
    Applies c rate email i Q (m >>= f) k := by
  refine Race.contends_bind (Race.Contends.mono h ?_)
  rintro (e | a) k h'
  · exact fun _ _ ↦ h'
  · exact h'

/-- An operation that leaves the users alone. -/
theorem applies_call {o : ApiOp} {Q : Except Exn o.Res → Application → Prop}
    (h : ∀ s e, Application.Known email k s → e.fails = false →
      ∃ r s', serveApi c rate i o e s = some (r, s') ∧ s'.users = s.users ∧ Q (.ok r) k) :
    Applies c rate email i Q (call o) k := by
  refine Race.contends_quiet fun s e hs hok ↦ ?_
  obtain ⟨r, s', hserve, husers, hQ⟩ := h s e hs hok.1
  exact ⟨r, s', hserve, husers, fun _ _ ↦ hQ⟩

/-- `finally: db.close()`. -/
theorem applies_tryFinally_close {m : Api α} (h : Applies c rate email i Q m k) :
    Applies c rate email i Q (tryFinally m close) k := by
  refine Race.contends_bind (Race.Contends.mono h fun a k h' ↦ ?_)
  exact Race.contends_quiet fun s e _ _ ↦ ⟨(), _, rfl, rfl, fun _ _ ↦ h'⟩

/-- `get_user_by_email`, for the address of the race. -/
theorem applies_getUserByEmail {u : UnicodeTables} {raw : String}
    {Q : Except Exn (Option User) → Application → Prop}
    (hemail : normalizeEmail u.toUnicode raw = email) (hfound : ∀ row, Q (.ok (some row)) .refused)
    (hnone : Q (.ok none) (.contending none)) :
    Applies c rate email i Q (UserRepo.getUserByEmail u raw) (.contending none) := by
  rw [UserRepo.getUserByEmail, hemail]
  intro s e hs hok
  have hserve : serveApi c rate i (.userByEmail email) e s =
      some (.ok (s.users.byEmail email), s.tick e) := by
    rw [serveApi, selectUser, hok.1]
    rfl
  cases hfound' : s.users.byEmail email with
  | some row =>
    refine ⟨_, _, .refused, hserve, trivial, .refused rfl rfl ?_ rfl, ?_⟩
    · show (s.users.byEmail email).isSome
      rw [hfound']
      rfl
    · rw [hfound']
      exact fun _ _ ↦ hfound row
  | none =>
    refine ⟨_, _, .contending none, hserve, hs, .quiet rfl rfl, ?_⟩
    rw [hfound']
    exact fun _ _ ↦ hnone

/-- A drawn id belongs to the applicant. -/
theorem applies_uuid4 {Q : Except Exn Id → Application → Prop}
    (h : ∀ id, Q (.ok id) (.contending (some id))) :
    Applies c rate email i Q (call .uuid4) (.contending none) := by
  intro s e _ _
  refine ⟨_, _, .contending (some _), rfl, ?_, .quiet rfl rfl, fun _ _ ↦ h _⟩
  rintro - _ ⟨⟩
  exact Users.byId_of_idBound_le ((le_max_right _ _).trans (le_max_right _ _))

/-- The commit of a user of the address, when none is stored. -/
theorem applies_commitUser (row : User) {Q : Except Exn (Except DbError Unit) → Application → Prop}
    (hemail : row.email = email) (h : Q (.ok (.ok ())) (.won row)) :
    Applies c rate email i Q (call (.commitUser row)) (.contending (some row.id)) := by
  intro s e hs hok
  have hnew : s.users.byEmail row.email = none := hok.2
  have hid : s.users.table.get row.id = none := hs (hemail ▸ hnew) row.id rfl
  obtain ⟨-, users, hwrite, hmem⟩ := (Users.write_of_fresh hid).resolve_right fun h ↦ h.1 hnew
  have hserve : serveApi c rate i (.commitUser row) e s =
      some (.ok (), { s.tick e with users := users }) := by
    rw [serveApi, hok.1, hwrite]
    rfl
  have hrow : row ∈ users.table := (hmem row).2 (Or.inr rfl)
  refine ⟨_, _, .won row, hserve, ⟨hrow, hemail⟩, .won rfl rfl ?_ ?_, fun _ _ ↦ h⟩
  · show ¬ (s.users.byEmail email).isSome
    rw [← hemail, hnew]
    simp
  · exact Users.byEmail_isSome_iff.2 ⟨row, hrow, hemail⟩

/-- `db.refresh(user)`. -/
theorem applies_userById {row : User}
    {Q : Except Exn (Except DbError (Option User)) → Application → Prop}
    (h : Q (.ok (.ok (some row))) (.won row)) :
    Applies c rate email i Q (call (.userById row.id)) (.won row) := by
  refine applies_call fun s e hs hfails ↦ ⟨.ok (some row), s.tick e, ?_, rfl, h⟩
  have hrow : s.users.byId row.id = some row := Table.get_key hs.1
  rw [serveApi, selectUser, hfails, hrow]
  rfl

end Api

namespace AuthService

open Api

/-- A user of the address has been registered. -/
def Registers (email : String) (a : Except Exn ApiResponse) : Prop :=
  ∃ id fullName role isActive, a = .ok (.user id email fullName role isActive)

/-- `HTTPException(409)`: there is a user of the address. -/
def Conflicts (a : Except Exn ApiResponse) : Prop :=
  a = .error (.http 409 "Email already registered")

/-- A success is not the 409. -/
theorem Registers.not_conflicts {email : String} {a : Except Exn ApiResponse}
    (h : Registers email a) : ¬ Conflicts a := by
  obtain ⟨id, fullName, role, isActive, rfl⟩ := h
  simp [Conflicts]

/-- `create_user`. -/
theorem applies_createUser {c : Crypto} {u : UnicodeTables} {rate : RateSettings} {i : ℕ}
    {email raw passwordHash fullName : String} {role : UserRole}
    {Q : Except Exn User → Application → Prop} (hemail : normalizeEmail u.toUnicode raw = email)
    (h : ∀ row, row.email = email → Q (.ok row) (.won row)) :
    Applies c rate email i Q (UserRepo.createUser u raw passwordHash fullName role)
      (.contending none) := by
  rw [UserRepo.createUser, hemail]
  refine applies_bind (applies_uuid4 fun id ↦ ?_)
  refine applies_bind (applies_commitUser ⟨id, email, _, _, role, true⟩ rfl ?_)
  refine applies_bind (applies_pure (applies_bind (applies_bind (applies_userById ?_))))
  exact applies_pure (applies_pure (h _ rfl))

/-- `register_user` with a password that meets the policy. -/
theorem applies_registerUser {c : Crypto} {u : UnicodeTables} {rate : RateSettings} {i : ℕ}
    {email : String} {payload : RegisterRequest}
    (hpolicy : validatePasswordPolicy u payload.password = pure ())
    (hemail : normalizeEmail u.toUnicode payload.email = email) :
    Applies c rate email i
      (fun a k ↦ (registrationRace c rate email).Ends (Registers email) Conflicts a k)
      (registerUser u payload) (.contending none) := by
  rw [registerUser, hpolicy]
  refine applies_bind (applies_pure (applies_bind
    (applies_getUserByEmail hemail (fun row ↦ ?_) ?_)))
  · exact applies_raise (.refused rfl rfl)
  · refine applies_bind (applies_call fun s e _ _ ↦ ⟨_, _, rfl, rfl, ?_⟩)
    refine applies_bind (applies_createUser hemail fun row hrow ↦ ?_)
    exact applies_pure (.won rfl ⟨row.id, row.fullName, row.role, row.isActive, by rw [hrow]⟩)

end AuthService

/-! ### Registrations at the same time -/

namespace Registration

/-- A step of registrations that run at the same time. -/
inductive Action where
  /-- A registration has been let through, on behalf of `admin`. -/
  | start (payload : RegisterRequest) (admin : User)
  /-- Registration `i` carries out its next operation. -/
  | perform (i : ℕ) (e : ApiEnv)

variable (c : Crypto) (u : UnicodeTables) (rate : RateSettings)

/-- Carry out one step. -/
def act (w : ApiWorld) : Action → Option ApiWorld
  | .start payload admin =>
    some (w.spawn (Api.tryFinally (AuthService.registerUser u payload) Api.close)
      (.acting (.register none payload) admin .idle))
  | .perform i e => w.step (serveApi c rate) (Stage.discipline c u) i e

/-- Registrations of this address, with passwords that meet the policy, arrive and are served, and
nothing fails for a reason outside the database. -/
def Races (email : String) : Action → Prop
  | .start payload _ => validatePasswordPolicy u payload.password = pure () ∧
    normalizeEmail u.toUnicode payload.email = email
  | .perform _ e => e.fails = false

instance (email : String) : DecidablePred (Races u email)
  | .start payload _ =>
    have : Decidable (validatePasswordPolicy u payload.password = pure ()) :=
      decidable_of_iff (8 ≤ payload.password.length ∧ payload.password.toList.any u.isUpper ∧
        payload.password.toList.any u.isLower ∧ payload.password.toList.any u.isDigit ∧
        payload.password.toList.any fun ch ↦ !isAsciiAlnum ch) (by
          rw [CharacterClasses.validatePasswordPolicy_eq_pure]
          simp)
    inferInstanceAs (Decidable (_ ∧ _))
  | .perform _ e => inferInstanceAs (Decidable (e.fails = false))

/-- No user is committed if there is one of the address by then. -/
def Unbeaten (w : ApiWorld) : Action → Prop
  | .start _ _ => True
  | .perform i _ => ∀ o ∈ w.asks i, o.Unbeaten w.shared

instance (w : ApiWorld) : DecidablePred (Unbeaten w)
  | .start _ _ => instDecidableTrue
  | .perform i _ => inferInstanceAs (Decidable (∀ o ∈ w.asks i, o.Unbeaten w.shared))

/-- Registration `i` carries out `n` operations, none of which the environment disturbs. -/
def performs (i n : ℕ) : List Action :=
  List.replicate n (.perform i {})

/-- Two registrations of one address. -/
def twice : List Action :=
  [.start ⟨"b@c.d", "Passw0rd!", "B", .analyst⟩ ⟨0, "a", "p", "A", .admin, true⟩,
    .start ⟨"b@c.d", "Passw1rd?", "C", .viewer⟩ ⟨0, "a", "p", "A", .admin, true⟩]

/-- The registrations of `w` of the address are answered as they should be after a start in `s`. -/
abbrev Decided (email : String) (s : Deployment) (w : ApiWorld) : Prop :=
  Pool.Decided (AuthService.Registers email) AuthService.Conflicts
    (∃ row ∈ s.users.table, row.email = email)
    (∃! row, row ∈ w.shared.users.table ∧ row.email = email) w

variable {c u rate} {email : String} {s : Deployment} {w : ApiWorld}

/-- The registrations of a run are in a race for the address. -/
theorem under_registrationRace
    (h : Runs.Reach (act c u rate) (fun w a ↦ Races u email a ∧ Unbeaten w a) (.boot s) w) :
    ∃ ks, (registrationRace c rate email).Under (s.users.byEmail email).isSome
      ((registrationRace c rate email).Ends (AuthService.Registers email) AuthService.Conflicts)
      ks w := by
  have hboot := Race.under_nil (R := registrationRace c rate email) (P := ApiWorld.boot s)
    (Q := (registrationRace c rate email).Ends (AuthService.Registers email) AuthService.Conflicts)
    rfl fun i _ ↦ by simp
  refine h.invariant (I := fun w ↦ ∃ ks, (registrationRace c rate email).Under _ _ ks w) ?_
    ⟨[], hboot⟩
  rintro w a w' ⟨ks, hks⟩ ⟨hraces, hunbeaten⟩ ha
  cases a with
  | start payload admin =>
    obtain rfl := Option.some.inj ha
    exact ⟨_, hks.spawn fun i ↦
      Api.applies_tryFinally_close (AuthService.applies_registerUser hraces.1 hraces.2)⟩
  | perform i e => exact hks.step (fun o ho ↦ ⟨hraces, hunbeaten o ho⟩) ha

/-- Registrations of one address that are not overtaken between their look and their commit are
answered as they should be. -/
theorem decided
    (h : Runs.Reach (act c u rate) (fun w a ↦ Races u email a ∧ Unbeaten w a) (.boot s) w) :
    Decided email s w := by
  obtain ⟨ks, hks⟩ := under_registrationRace h
  have hdecided := hks.decided fun a ↦ AuthService.Registers.not_conflicts
  rw [Decided, ← propext Users.byEmail_isSome_iff]
  exact { hdecided with
    stored := fun hthreads hdone ↦
      Users.existsUnique_of_byEmail (hdecided.stored hthreads hdone) }

/-- None of them waits. -/
theorem proceed
    (h : Runs.Reach (act c u rate) (fun w a ↦ Races u email a ∧ Unbeaten w a) (.boot s) w) {i : ℕ}
    {e : ApiEnv} (hasks : (w.asks i).isSome) (hraces : Races u email (.perform i e))
    (hunbeaten : Unbeaten w (.perform i e)) : (act c u rate w (.perform i e)).isSome := by
  obtain ⟨ks, hks⟩ := under_registrationRace h
  obtain ⟨o, ho⟩ := Option.isSome_iff_exists.1 hasks
  exact hks.proceeds ho ⟨hraces, hunbeaten o ho⟩

/-- Two registrations look for the address, and then both commit their user: the error of the unique
index reaches a client. -/
theorem unhandled_registration :
    ∃ w, Runs.Reach (act .plain .plain {}) (fun _ a ↦ Races .plain "b@c.d" a) (.boot .empty) w ∧
      w.result 1 = some (.error (.database .integrity)) :=
  Runs.exists_reach _ _ (fun w : ApiWorld ↦ w.result 1 = some (.error (.database .integrity)))
    (twice ++ performs 0 3 ++ performs 1 3 ++ performs 0 1 ++ performs 1 2) (by decide)

end Registration

/-- **Duplicate creation gets a clean conflict.** Requests that create a domain of one name, or
register one address, and that run at the same time: if none of them is overtaken between its look
and its commit, each is answered with success or with the 409, none succeeds if the name or the
address was stored before, and exactly one does otherwise, after which one row is stored. None of
them waits. -/
theorem duplicates_decided (cfg : Settings) (c : Crypto) (u : UnicodeTables)
    (rate : RateSettings) :
    (∀ (name : String) (s : Store) (w : World), (∀ d, s.locks d = none) →
      World.Reach cfg u.toUnicode
        (fun w a ↦ World.Races u.toUnicode name a ∧ w.Unbeaten name a) (.boot s) w →
      w.CreatesDecided name s ∧ ∀ i e, (w.asks i).isSome →
        World.Races u.toUnicode name (.perform i e) → w.Unbeaten name (.perform i e) →
        (w.act cfg u.toUnicode (.perform i e)).isSome) ∧
    ∀ (email : String) (s : Deployment) (w : ApiWorld),
      Runs.Reach (Registration.act c u rate)
        (fun w a ↦ Registration.Races u email a ∧ Registration.Unbeaten w a) (.boot s) w →
      Registration.Decided email s w ∧ ∀ i e, (w.asks i).isSome →
        Registration.Races u email (.perform i e) → Registration.Unbeaten w (.perform i e) →
        (Registration.act c u rate w (.perform i e)).isSome :=
  ⟨fun _ _ _ hs h ↦ ⟨World.createsDecided hs h, fun _ _ ↦ World.creates_proceed hs h⟩,
    fun _ _ _ h ↦ ⟨Registration.decided h, fun _ _ ↦ Registration.proceed h⟩⟩

/-- `duplicates_decided` for two requests, of which the second looks right after the commit of the
first. -/
theorem duplicates_decided_two :
    (∃ w : World, w.result 0 = some (.ok (.domain 0 "a.b" .pending)) ∧
      w.result 1 = some (.error (.http 409 "Domain already exists")) ∧
      w.CreatesDecided "a.b" .empty) ∧
    ∃ w : ApiWorld, w.result 0 = some (.ok (.user 0 "b@c.d" "B" .analyst true)) ∧
      w.result 1 = some (.error (.http 409 "Email already registered")) ∧
      Registration.Decided "b@c.d" .empty w := by
  have hdecided := duplicates_decided {} .plain .plain {}
  obtain ⟨w, hreach, hdone, hconflict⟩ := Runs.exists_reach
    (World.act {} UnicodeTables.plain.toUnicode)
    (fun w a ↦ World.Races UnicodeTables.plain.toUnicode "a.b" a ∧ w.Unbeaten "a.b" a)
    (fun w ↦ w.result 0 = some (.ok (.domain 0 "a.b" .pending)) ∧
      w.result 1 = some (.error (.http 409 "Domain already exists"))) (s := .boot .empty)
    (.start (.create "a.b" 1) :: .start (.create "a.b." 2) ::
      (World.performs 0 3 ++ World.performs 1 1 ++ World.performs 0 10 ++ World.performs 1 1))
    (by decide)
  obtain ⟨w', hreach', hdone', hconflict'⟩ := Runs.exists_reach
    (Registration.act .plain .plain {})
    (fun w a ↦ Registration.Races .plain "b@c.d" a ∧ Registration.Unbeaten w a)
    (fun w : ApiWorld ↦ w.result 0 = some (.ok (.user 0 "b@c.d" "B" .analyst true)) ∧
      w.result 1 = some (.error (.http 409 "Email already registered"))) (s := .boot .empty)
    (Registration.twice ++ Registration.performs 0 4 ++ Registration.performs 1 1 ++
      Registration.performs 0 2 ++ Registration.performs 1 1) (by decide)
  exact ⟨⟨w, hdone, hconflict, (hdecided.1 _ _ w (fun _ ↦ rfl) hreach).1⟩,
    w', hdone', hconflict', (hdecided.2 _ _ w' hreach').1⟩

/-- Requests that are overtaken are not answered as they should be. -/
theorem not_duplicates_decided :
    (¬ ∀ (name : String) (s : Store) (w : World), (∀ d, s.locks d = none) →
      World.Reach {} .plain (fun _ a ↦ World.Races .plain name a) (.boot s) w →
      w.CreatesDecided name s) ∧
    ¬ ∀ (email : String) (s : Deployment) (w : ApiWorld),
      Runs.Reach (Registration.act .plain .plain {})
        (fun _ a ↦ Registration.Races .plain email a) (.boot s) w →
      Registration.Decided email s w := by
  refine ⟨fun h ↦ ?_, fun h ↦ ?_⟩
  · obtain ⟨w, hreach, hresult⟩ := World.unhandled_create
    rcases (h _ _ w (fun _ ↦ rfl) hreach).answered hresult with ⟨d, st, hsuccess⟩ | hconflict
    · exact absurd hsuccess (by simp)
    · exact absurd hconflict (by simp [DomainService.Conflicts])
  · obtain ⟨w, hreach, hresult⟩ := Registration.unhandled_registration
    rcases (h _ _ w hreach).answered hresult with ⟨_, _, _, _, hsuccess⟩ | hconflict
    · exact absurd hsuccess (by simp)
    · exact absurd hconflict (by simp [AuthService.Conflicts])

end AssetDiscovery
