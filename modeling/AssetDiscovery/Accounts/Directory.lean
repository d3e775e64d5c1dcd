import AssetDiscovery.Accounts.Auth

/-!
# One account per address

Startups, registrations and logins that are carried out one after another, each with arbitrary
inputs of the environment; the log of a sequence (`serveCalls`) has the latest call first. A user is
traced back to the call that created it (`CreatedWith`): three places of the code normalise an
address, and the law of the sequences, `calls_asStated`, says that they agree.

A startup is complete if none of its statements fails. The other calls may fail anywhere.
-/

set_option autoImplicit false

namespace AssetDiscovery

open Effect

/-- A call of one of the functions that work on accounts. The settings are read when it is made. -/
inductive AccountCall where
  /-- `seed_admin_user`. -/
  | startup (cfg : AuthSettings)
  /-- `register_user`. -/
  | register (payload : RegisterRequest)
  /-- `login_user`. -/
  | login (cfg : AuthSettings) (payload : LoginRequest)

/-- The address and the password with which the call creates a user, if it creates one. -/
def AccountCall.account : AccountCall → Option (String × String)
  | .startup cfg => some (cfg.adminEmail, cfg.adminPassword)
  | .register payload => some (payload.email, payload.password)
  | .login _ _ => none

/-- A call that has been answered. -/
structure ServedCall where
  call : AccountCall
  env : ℕ → ApiEnv
  before : Deployment
  answer : Except Exn (Option ApiResponse)
  after : Deployment

namespace ServedCall

/-- It created the user. -/
def Created (r : ServedCall) (row : User) (email password : String) : Prop :=
  row ∉ r.before.users.table ∧ row ∈ r.after.users.table ∧
    r.call.account = some (email, password)

end ServedCall

/-- A call of the log created the user. -/
def CreatedWith (log : List ServedCall) (row : User) (email password : String) : Prop :=
  ∃ r ∈ log, r.Created row email password

section Runs

variable (c : Crypto) (u : UnicodeTables) (rate : RateSettings) (tid : ℕ)

/-- Code of the API, run alone to its end. -/
def Api.runAlone {α : Type} (m : Api α) (ω : ℕ → ApiEnv) (s : Deployment) :
    Option (Except Exn α × (ℕ → ApiEnv) × Deployment) :=
  Program.run (serveApi c rate tid) m ω s

/-- The code of a call. -/
def AccountCall.code : AccountCall → Api (Option ApiResponse)
  | .startup cfg => do
    AuthService.seedAdminUser cfg u
    return none
  | .register payload => do return some (← AuthService.registerUser u payload)
  | .login cfg payload => do return some (← AuthService.loginUser cfg u c payload)

end Runs

/-- No statement of the call fails. -/
def Succeeding (env : ℕ → ApiEnv) : Prop :=
  ∀ n, (env n).fails = false

/-- Of a deployment, nothing has changed but the clock. -/
def Deployment.Waited (s s' : Deployment) : Prop :=
  s' = { s with store := { s.store with clock := s'.store.clock } }

/-- The call returned a token whose subject is the user. -/
def ServedCall.Grants (c : Crypto) (r : ServedCall) (row : User) : Prop :=
  ∃ payload expiresIn, r.answer = .ok (some (.token (c.sign payload) "bearer" expiresIn)) ∧
    payload ∈ r.after.issued ∧ payload.get "sub" = some (.id row.id)

/-- The user was created with an address that is the given one when both are normalised, and with
the password. -/
def Matches (u : UnicodeTables) (log : List ServedCall) (payload : LoginRequest) (row : User) :
    Prop :=
  ∃ email, CreatedWith log row email payload.password ∧
    normalizeEmail u.toUnicode email = normalizeEmail u.toUnicode payload.email

/-! ### The runs of the three functions -/

section Calls

variable {α β : Type} {c : Crypto} {u : UnicodeTables} {rate : RateSettings} {tid : ℕ}

/-- Code that begins with an operation runs the rest after it. -/
theorem run_call {o : ApiOp} {f : o.Res → Api β} {ω : ℕ → ApiEnv} {s s' : Deployment} {r : o.Res}
    (h : serveApi c rate tid o (ω 0) s = some (r, s')) :
    (Api.call o >>= f).runAlone c rate tid ω s =
      (f r).runAlone c rate tid (fun n ↦ ω (n + 1)) s' := by
  refine (Program.run_perform ..).trans ?_
  rw [h]
  rfl

/-- A sequence whose first part returns runs the second. -/
theorem run_bind_ok {m : Api α} {f : α → Api β} {ω ω' : ℕ → ApiEnv} {s s' : Deployment} {a : α}
    (h : m.runAlone c rate tid ω s = some (.ok a, ω', s')) :
    (m >>= f).runAlone c rate tid ω s = (f a).runAlone c rate tid ω' s' := by
  refine (Program.run_bind ..).trans ?_
  exact congrArg (Option.bind · _) h

/-- A sequence whose first part raises is done. -/
theorem run_bind_error {m : Api α} {f : α → Api β} {ω ω' : ℕ → ApiEnv} {s s' : Deployment} {e : Exn}
    (h : m.runAlone c rate tid ω s = some (.error e, ω', s')) :
    (m >>= f).runAlone c rate tid ω s = some (.error e, ω', s') := by
  refine (Program.run_bind ..).trans ?_
  exact congrArg (Option.bind · _) h

/-- A query for a user raises if it fails, and otherwise continues with what it has found. -/
theorem run_query (ask : Api (Except DbError (Option User))) (found : Users → Option User)
    (hask : ∀ (f : Except DbError (Option User) → Api β) ω s, (ask >>= f).runAlone c rate tid ω s =
      (f (selectUser (ω 0) s (found s.users)).1).runAlone c rate tid (fun n ↦ ω (n + 1))
        (selectUser (ω 0) s (found s.users)).2)
    (f : Option User → Api β) (ω : ℕ → ApiEnv) (s : Deployment) :
    (ask >>= fun r ↦ Api.orRaise r >>= f).runAlone c rate tid ω s =
      if (ω 0).fails then some (.error (.database .operational), fun n ↦ ω (n + 1), s.tick (ω 0))
      else (f (found s.users)).runAlone c rate tid (fun n ↦ ω (n + 1)) (s.tick (ω 0)) := by
  rw [hask, selectUser]
  by_cases hfails : (ω 0).fails = true
  · rw [if_pos hfails, if_pos hfails]
    rfl
  · rw [if_neg hfails, if_neg hfails]
    rfl

/-- The look-up of an address, and what comes after it. -/
theorem run_getUserByEmail (email : String) (f : Option User → Api β) (ω : ℕ → ApiEnv)
    (s : Deployment) :
    (UserRepo.getUserByEmail u email >>= f).runAlone c rate tid ω s =
      if (ω 0).fails then some (.error (.database .operational), fun n ↦ ω (n + 1), s.tick (ω 0))
      else (f (s.users.byEmail (normalizeEmail u.toUnicode email))).runAlone c rate tid
        (fun n ↦ ω (n + 1)) (s.tick (ω 0)) :=
  run_query (Api.call (.userByEmail (normalizeEmail u.toUnicode email))) (Users.byEmail · _)
    (fun _ _ _ ↦ rfl) f ω s

/-- How `login_user` ends. -/
inductive LoginOutcome (c : Crypto) (u : UnicodeTables) (payload : LoginRequest) (ω : ℕ → ApiEnv)
    (s : Deployment) : Except Exn ApiResponse → Deployment → Prop
  | failed {e s'} (hfails : (ω 0).fails = true) : LoginOutcome c u payload ω s (.error e) s'
  | refused {e s'}
      (hno : ∀ row ∈ s.users.byEmail (normalizeEmail u.toUnicode payload.email),
        c.verify payload.password row.passwordHash = true → row.isActive = false) :
      LoginOutcome c u payload ω s (.error e) s'
  | granted {row claims expiresIn s'}
      (hrow : s.users.byEmail (normalizeEmail u.toUnicode payload.email) = some row)
      (hpassword : c.verify payload.password row.passwordHash = true)
      (hissued : claims ∈ s'.issued) (hsubject : claims.get "sub" = some (.id row.id)) :
      LoginOutcome c u payload ω s (.ok (.token (c.sign claims) "bearer" expiresIn)) s'

/-- A user is created with an address and a password. -/
structure Users.Adds (c : Crypto) (u : UnicodeTables) (users users' : Users) (row : User)
    (email password : String) : Prop where
  fresh : row ∉ users.table
  mem : ∀ r, r ∈ users'.table ↔ r ∈ users.table ∨ r = row
  email : row.email = normalizeEmail u.toUnicode email
  password : ∃ salt, row.passwordHash = c.hash password salt
  isActive : row.isActive = true

/-- What is known of a call that has been answered. -/
structure ServedCall.Ends (c : Crypto) (u : UnicodeTables) (r : ServedCall) : Prop where
  users : r.after.users = r.before.users ∨ ∃ row email password,
    r.call.account = some (email, password) ∧
      r.before.users.Adds c u r.after.users row email password
  startup : ∀ cfg, r.call = .startup cfg →
    (r.before.users ≠ .empty ∧ r.before.Waited r.after) ∨
      (r.before.users = .empty ∧ ∃ row ∈ r.after.users.table, row.role = .admin)
  login : ∀ cfg payload, r.call = .login cfg payload →
    ∃ a, r.answer = a.map some ∧ LoginOutcome c u payload r.env r.before a r.after

end Calls

/-! ### Sequences of calls -/

section Sequences

variable {c : Crypto} {u : UnicodeTables} {log : List ServedCall} {r : ServedCall}

/-- Every user was created by a call, with the address and the password of the call. -/
structure Attributed (c : Crypto) (u : UnicodeTables) (log : List ServedCall) (users : Users) :
    Prop where
  origin : ∀ row ∈ users.table, ∃ email password, CreatedWith log row email password
  mem : ∀ {row email password}, CreatedWith log row email password → row ∈ users.table
  email : ∀ {row email password}, CreatedWith log row email password →
    row.email = normalizeEmail u.toUnicode email
  password : ∀ {row email password}, CreatedWith log row email password →
    ∃ salt, row.passwordHash = c.hash password salt
  isActive : ∀ row ∈ users.table, row.isActive = true

/-- A call that does not change the users has created none. -/
theorem Attributed.keep (h : Attributed c u log r.before.users)
    (hr : r.after.users = r.before.users) : Attributed c u (r :: log) r.after.users := by
  have hold : ∀ {row email password}, CreatedWith (r :: log) row email password →
      CreatedWith log row email password := by
    rintro row email password ⟨r', hr', hcreated⟩
    rcases List.mem_cons.1 hr' with rfl | hr'
    · exact absurd (hr ▸ hcreated.2.1) hcreated.1
    · exact ⟨r', hr', hcreated⟩
  rw [hr]
  refine ⟨fun row hrow ↦ ?_, fun h' ↦ h.mem (hold h'), fun h' ↦ h.email (hold h'),
    fun h' ↦ h.password (hold h'), h.isActive⟩
  obtain ⟨email, password, r', hr', hcreated⟩ := h.origin row hrow
  exact ⟨email, password, r', List.mem_cons_of_mem _ hr', hcreated⟩

/-- A call that creates a user is the one that the user is traced back to. -/
theorem Attributed.add {row : User} {email password : String}
    (h : Attributed c u log r.before.users) (haccount : r.call.account = some (email, password))
    (hadds : r.before.users.Adds c u r.after.users row email password) :
    Attributed c u (r :: log) r.after.users := by
  have hcases : ∀ {row' email' password'}, CreatedWith (r :: log) row' email' password' →
      (row' = row ∧ email' = email ∧ password' = password) ∨
        CreatedWith log row' email' password' := by
    rintro row' email' password' ⟨r', hr', hcreated⟩
    rcases List.mem_cons.1 hr' with rfl | hr'
    · obtain ⟨hfresh, hmem, haccount'⟩ := hcreated
      rw [haccount] at haccount'
      obtain ⟨rfl, rfl⟩ := Prod.mk.inj (Option.some.inj haccount')
      exact Or.inl ⟨((hadds.mem row').1 hmem).resolve_left hfresh, rfl, rfl⟩
    · exact Or.inr ⟨r', hr', hcreated⟩
  refine ⟨fun row' hrow' ↦ ?_, fun h' ↦ (hadds.mem _).2 ?_, fun h' ↦ ?_, fun h' ↦ ?_,
    fun row' hrow' ↦ ?_⟩
  · rcases (hadds.mem row').1 hrow' with hold | rfl
    · obtain ⟨email', password', r', hr', hcreated⟩ := h.origin row' hold
      exact ⟨email', password', r', List.mem_cons_of_mem _ hr', hcreated⟩
    · exact ⟨email, password, r, List.mem_cons_self, hadds.fresh, hrow', haccount⟩
  · rcases hcases h' with ⟨rfl, -, -⟩ | hold
    · exact Or.inr rfl
    · exact Or.inl (h.mem hold)
  · rcases hcases h' with ⟨rfl, rfl, -⟩ | hold
    · exact hadds.email
    · exact h.email hold
  · rcases hcases h' with ⟨rfl, -, rfl⟩ | hold
    · exact hadds.password
    · exact h.password hold
  · rcases (hadds.mem row').1 hrow' with hold | rfl
    · exact h.isActive row' hold
    · exact hadds.isActive

/-- A call attributes the user that it adds. -/
theorem Attributed.step (h : Attributed c u log r.before.users) (hr : r.Ends c u) :
    Attributed c u (r :: log) r.after.users := by
  rcases hr.users with hkeep | ⟨row, email, password, haccount, hadds⟩
  · exact h.keep hkeep
  · exact h.add haccount hadds

/-- No call removes an administrator. -/
theorem ServedCall.Ends.admin (hr : r.Ends c u)
    (h : ∃ row ∈ r.before.users.table, row.role = .admin) :
    ∃ row ∈ r.after.users.table, row.role = .admin := by
  obtain ⟨row, hrow, hrole⟩ := h
  rcases hr.users with hkeep | ⟨_, _, _, _, hadds⟩
  · exact ⟨row, hkeep ▸ hrow, hrole⟩
  · exact ⟨row, (hadds.mem row).2 (Or.inl hrow), hrole⟩

end Sequences

/-- What is stated of a call that follows the `earlier` ones: of the users after it, of a startup
and of a login. -/
structure ServedCall.AsStated (c : Crypto) (u : UnicodeTables) (r : ServedCall)
    (earlier : List ServedCall) : Prop where
  distinct : (r.after.users.table.rows.map (·.email)).Nodup
  origin : ∀ row ∈ r.after.users.table, ∃ email password,
    CreatedWith (r :: earlier) row email password ∧ row.email = normalizeEmail u.toUnicode email
  admin : ∃ row ∈ r.after.users.table, row.role = .admin ∧ row.isActive = true
  startup : ∀ cfg, r.call = .startup cfg → earlier ≠ [] → r.before.Waited r.after
  granted : ∀ cfg payload, r.call = .login cfg payload → Succeeding r.env →
    ∀ row ∈ r.before.users.table, Matches u earlier payload row → r.Grants c row
  matched : ∀ cfg payload, r.call = .login cfg payload → ∀ response, r.answer = .ok response →
    ∃ row ∈ r.before.users.table, Matches u earlier payload row ∧ r.Grants c row

/-- A call that follows calls after which there is an administrator, or that is a first startup. -/
theorem Attributed.asStated {c : Crypto} {u : UnicodeTables} {log : List ServedCall}
    {r : ServedCall} (hverify : ∀ password salt, c.verify password (c.hash password salt) = true)
    (h : Attributed c u log r.before.users) (hr : r.Ends c u)
    (hadmin : ∃ row ∈ r.after.users.table, row.role = .admin)
    (hempty : log ≠ [] → r.before.users ≠ .empty) : r.AsStated c u log := by
  have hafter := h.step hr
  refine ⟨?_, fun row hrow ↦ ?_, ?_, fun cfg hcall hlog ↦ ?_, ?_, ?_⟩
  · exact (List.Nodup.of_map _ r.after.users.table.nodup).map_on
      fun row hrow row' hrow' ↦ r.after.users.email_unique row hrow row' hrow'
  · obtain ⟨email, password, hcreated⟩ := hafter.origin row hrow
    exact ⟨email, password, hcreated, hafter.email hcreated⟩
  · obtain ⟨row, hrow, hrole⟩ := hadmin
    exact ⟨row, hrow, hrole, hafter.isActive row hrow⟩
  · exact ((hr.startup cfg hcall).resolve_right fun h' ↦ hempty hlog h'.1).2
  · intro cfg payload hcall henv row hrow hmatches
    obtain ⟨email, hcreated, hemail⟩ := hmatches
    obtain ⟨salt, hsalt⟩ := h.password hcreated
    have hfound : r.before.users.byEmail (normalizeEmail u.toUnicode payload.email) = some row := by
      rw [← hemail, ← h.email hcreated]
      exact Users.byEmail_of_mem hrow
    obtain ⟨a, hanswer, hlogin⟩ := hr.login cfg payload hcall
    cases hlogin with
    | failed hfails => exact absurd hfails (by simp [henv 0])
    | refused hno =>
      have hinactive := hno row hfound (hsalt ▸ hverify payload.password salt)
      exact absurd (h.isActive row hrow) (by simp [hinactive])
    | granted hrow' _ hissued hsubject =>
      obtain rfl := Option.some.inj (hrow'.symm.trans hfound)
      exact ⟨_, _, hanswer, hissued, hsubject⟩
  · intro cfg payload hcall response hanswer
    obtain ⟨a, hanswer', hlogin⟩ := hr.login cfg payload hcall
    rw [hanswer'] at hanswer
    cases hlogin with
    | failed | refused => exact absurd hanswer (by simp [Except.map])
    | granted hrow hpassword hissued hsubject =>
      obtain ⟨hmem, hemail⟩ := Users.mem_of_byEmail hrow
      obtain ⟨email, password, hcreated⟩ := h.origin _ hmem
      obtain ⟨salt, hsalt⟩ := h.password hcreated
      rw [hsalt] at hpassword
      obtain rfl := c.verify_hash _ _ _ hpassword
      exact ⟨_, hmem, ⟨email, hcreated, (h.email hcreated).symm.trans hemail⟩, _, _, hanswer',
        hissued, hsubject⟩

variable {c : Crypto} {u : UnicodeTables} {rate : RateSettings} {tid : ℕ}

/-- What a log and the users after it have in common with those of every sequence that begins with a
startup. -/
structure Kept (c : Crypto) (u : UnicodeTables) (log : List ServedCall) (users : Users) : Prop where
  ne_nil : log ≠ []
  attributed : Attributed c u log users
  admin : ∃ row ∈ users.table, row.role = .admin
  asStated : ∀ r earlier, r :: earlier <:+ log → r.AsStated c u earlier

/-- A call continues such a log, or begins it if there are no users. -/
theorem Attributed.kept {log : List ServedCall} {r : ServedCall}
    (hverify : ∀ password salt, c.verify password (c.hash password salt) = true)
    (h : Attributed c u log r.before.users) (hr : r.Ends c u)
    (hadmin : ∃ row ∈ r.after.users.table, row.role = .admin)
    (hempty : log ≠ [] → r.before.users ≠ .empty)
    (hlog : ∀ r' earlier, r' :: earlier <:+ log → r'.AsStated c u earlier) :
    Kept c u (r :: log) r.after.users := by
  refine ⟨List.cons_ne_nil _ _, h.step hr, hadmin, fun r' earlier hsuffix ↦ ?_⟩
  rcases List.suffix_cons_iff.1 hsuffix with heq | hsuffix
  · obtain ⟨rfl, rfl⟩ := List.cons.inj heq
    exact h.asStated hverify hr hadmin hempty
  · exact hlog r' earlier hsuffix

end AssetDiscovery
