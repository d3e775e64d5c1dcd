import AssetDiscovery.Accounts.Access
import AssetDiscovery.Authorship

/-!
# Names and authors of the stored rows

A request acts for the user whom it has read last, the one that its token names; in between it
reads no other. The conduct of the service on behalf of an author becomes a discipline of the API
with that user as the view (`Principal.discipline`), to which every thread keeps.

So in every state of every run the stored names are valid domain names in their normal form
(`names_canonical`), and the rows name users who are stored as well (`authors_stored`): the two
foreign keys into `users`, which the model of the tables leaves out, are never violated.
-/

set_option autoImplicit false

namespace AssetDiscovery

open Effect Runs

namespace Principal

/-- The user whom the code has read last. -/
def observe (v : Option Id) : (o : ApiOp) → o.Res → Option Id
  | .userById _, .ok (some user) => some user.id
  | _, _ => v

/-- What code may ask for on behalf of that user. -/
def Allowed (v : Option Id) : ApiOp → Prop
  | .service o => o.Authored v
  | _ => True

/-- The discipline of code that acts for the user whom it has read last. -/
def discipline : Discipline ApiOp ApiOp.Res (Option Id) where
  Allowed := Allowed
  Possible := Stage.Possible
  observe := observe

variable {α β : Type} {v : Option Id}

/-- From a view on, the code keeps to the discipline and ends as `Q` says. -/
def Acts (Q : Except Exn α → Option Id → Prop) (m : Api α) (v : Option Id) : Prop :=
  Program.Follows discipline Q m v

/-- The code acts for whomever it has read, and nothing is asked of how it ends. -/
def Free (m : Api α) : Prop :=
  ∀ v, Acts (fun _ _ ↦ True) m v

/-- The rule of sequential composition. -/
theorem acts_bind {Q : Except Exn β → Option Id → Prop} {m : Api α} {f : α → Api β}
    (h : Acts (fun r v ↦ match r with
      | .ok a => Acts Q (f a) v
      | .error e => Q (.error e) v) m v) : Acts Q (m >>= f) v := by
  refine Program.follows_bind.2 (Program.Follows.mono h ?_)
  rintro (e | a) v' h'
  · exact h'
  · exact h'

theorem free_pure (a : α) : Free (pure a) := fun _ ↦ trivial

theorem free_raise (e : Exn) : Free (Api.raise e : Api α) := fun _ ↦ trivial

theorem free_orRaise (r : Except DbError α) : Free (Api.orRaise r) := fun _ ↦ trivial

/-- An operation that is allowed to everybody is free. -/
theorem free_call {o : ApiOp} (h : ∀ v, Allowed v o) : Free (Api.call o) :=
  fun v ↦ ⟨h v, fun _ _ ↦ trivial⟩

/-- A sequence of free code is free. -/
theorem Free.bind {m : Api α} {f : α → Api β} (hm : Free m) (hf : ∀ a, Free (f a)) :
    Free (m >>= f) := by
  refine fun v ↦ acts_bind (Program.Follows.mono (hm v) ?_)
  rintro (e | a) v' -
  · trivial
  · exact hf a v'

/-- So is code that begins with such an operation. -/
theorem free_call_bind {o : ApiOp} {f : o.Res → Api α} (h : ∀ v, Allowed v o)
    (hf : ∀ a, Free (f a)) : Free (Api.call o >>= f) :=
  (free_call h).bind hf

theorem free_close : Free Api.close :=
  free_call_bind (fun _ ↦ trivial) fun _ ↦ free_pure ()

/-- So is free code that closes its session at the end. -/
theorem Free.tryFinally_close {m : Api α} (hm : Free m) : Free (Api.tryFinally m Api.close) := by
  refine fun v ↦ Program.follows_bind.2 (Program.Follows.mono (hm v) fun r v' _ ↦ ?_)
  exact Program.follows_bind.2 (Program.Follows.mono (free_close v') fun _ _ _ ↦ trivial)

/-- Code of the service, on behalf of an author. -/
theorem acts_service {p : Process} {author : Option Id}
    (h : p.Follows (authored author).discipline (fun _ _ ↦ True) ()) :
    Acts (fun _ _ ↦ True) (Api.service p) author :=
  Program.Follows.mono
    (Program.Follows.lift ApiOp.service (fun _ r ↦ r) discipline (f := fun _ : Unit ↦ author)
      (fun _ _ ho ↦ ho) (fun _ _ hr ↦ hr) (fun _ _ _ ↦ rfl) h)
    fun _ _ _ ↦ trivial

/-! ### The code of the API -/

variable {cfg : AuthSettings} {u : UnicodeTables} {c : Crypto}

theorem free_getUserByEmail (email : String) : Free (UserRepo.getUserByEmail u email) :=
  free_call_bind (fun _ ↦ trivial) fun _ ↦ free_orRaise _

theorem free_createUser (email passwordHash fullName : String) (role : UserRole) :
    Free (UserRepo.createUser u email passwordHash fullName role) := by
  refine free_call_bind (fun _ ↦ trivial) fun id ↦ free_call_bind (fun _ ↦ trivial) fun _ ↦
    (free_orRaise _).bind fun _ ↦ free_call_bind (fun _ ↦ trivial) fun _ ↦
      (free_orRaise _).bind fun found ↦ ?_
  cases found with
  | none => exact free_raise _
  | some user => exact free_pure user

/-- Whoever registers acts for nobody. -/
theorem free_registerUser (payload : RegisterRequest) :
    Free (AuthService.registerUser u payload) := by
  have hpolicy : Free (validatePasswordPolicy u payload.password) := by
    unfold validatePasswordPolicy
    split
    · exact free_raise _
    · dsimp only
      split
      · exact free_raise _
      · exact free_pure ()
  refine hpolicy.bind fun _ ↦ (free_getUserByEmail payload.email).bind fun found ↦ ?_
  cases found with
  | some user => exact free_raise _
  | none => exact free_call_bind (fun _ ↦ trivial) fun _ ↦
      (free_createUser _ _ _ _).bind fun user ↦ free_pure _

/-- Whoever logs in acts for nobody. -/
theorem free_loginEndpoint (api : ℕ) (request : Client) (payload : LoginRequest) :
    Free (loginEndpoint cfg u c api request payload) := by
  have hlimit : Free (enforceRateLimit u api request) := by
    refine free_call_bind (fun _ ↦ trivial) fun now ↦ free_call_bind (fun _ ↦ trivial) fun r ↦ ?_
    cases r with
    | ok key => exact free_pure key
    | error e => exact free_raise e
  have hlogin : Free (AuthService.loginUser cfg u c payload) := by
    refine (free_getUserByEmail payload.email).bind fun found ↦ ?_
    cases found with
    | none => exact free_raise _
    | some user =>
      show Free (if _ then _ else _)
      split
      · exact free_raise _
      · split
        · exact free_raise _
        · refine Free.bind (m := createAccessToken cfg user.id _) ?_ fun token ↦ free_pure _
          exact free_call_bind (fun _ ↦ trivial) fun _ ↦ free_call fun _ ↦ trivial
  exact hlimit.bind fun key ↦ hlogin.bind fun token ↦
    free_call_bind (fun _ ↦ trivial) fun _ ↦ free_pure token

/-- `seed_admin_user`. -/
theorem free_seedAdminUser : Free (AuthService.seedAdminUser cfg u) := by
  refine free_call_bind (fun _ ↦ trivial) fun _ ↦ (free_orRaise _).bind fun found ↦ ?_
  cases found with
  | some admin => exact free_pure ()
  | none => exact free_call_bind (fun _ ↦ trivial) fun _ ↦
      free_call_bind (fun _ ↦ trivial) fun _ ↦
        free_call_bind (fun _ ↦ trivial) fun _ ↦ free_orRaise _

/-- Who is let through is the user who has been read last. -/
theorem acts_requireRoles (roles : List UserRole) (credentials : Option Credentials)
    (v : Option Id) :
    Acts (fun r v ↦ ∀ user, r = .ok user → v = some user.id)
      (requireRoles u roles credentials) v := by
  have hpayload : ∀ payload v, Acts (fun r v ↦ ∀ user : User, r = .ok user → v = some user.id)
      (currentUserOf payload) v := by
    intro payload v
    rw [currentUserOf]
    split
    · refine acts_bind (acts_bind ⟨trivial, fun a _ ↦ ?_⟩)
      rcases a with err | (_ | user)
      · exact fun _ h ↦ absurd h (by simp)
      · exact fun _ h ↦ absurd h (by simp)
      · show Acts _ (if user.isActive then pure user else Api.raise unauthenticated) (some user.id)
        split
        · rintro _ ⟨⟩
          rfl
        · exact fun _ h ↦ absurd h (by simp)
    · split
      · exact fun _ h ↦ absurd h (by simp)
      · exact fun _ h ↦ absurd h (by simp)
    · exact fun _ h ↦ absurd h (by simp)
    · exact fun _ h ↦ absurd h (by simp)
  have hcurrent : Acts (fun r v ↦ ∀ user : User, r = .ok user → v = some user.id)
      (getCurrentUser u credentials) v := by
    cases credentials with
    | none => exact fun _ h ↦ absurd h (by simp)
    | some cr =>
      rw [getCurrentUser]
      split
      · exact fun _ h ↦ absurd h (by simp)
      · refine acts_bind ⟨trivial, fun payload _ ↦ ?_⟩
        cases payload with
        | none => exact fun _ h ↦ absurd h (by simp)
        | some payload => exact hpayload payload v
  refine acts_bind (Program.Follows.mono hcurrent ?_)
  rintro (e | user) v' h
  · exact fun _ h ↦ absurd h (by simp)
  · show Acts _ (if user.role ∉ roles then _ else pure user) v'
    split
    · exact fun _ h ↦ absurd h (by simp)
    · exact h

/-- An endpoint of the service acts for the user who is let through. -/
theorem free_onBehalf (roles : List UserRole) (credentials : Option Credentials)
    {request : User → Request}
    (h : ∀ user payload x, request user = .create payload x → x = user.id)
    (h' : ∀ user d x, request user = .trigger d x → x = user.id) :
    Free (onBehalf u (requireRoles u roles credentials) request) := by
  intro v
  have hguard : Acts (fun r v ↦ ∀ user, r = .ok user → v = some user.id)
      (Api.tryExcept (requireRoles u roles credentials) fun e ↦ do
        Api.close
        Api.raise e) v := by
    refine Program.follows_bind.2 (Program.Follows.mono (acts_requireRoles roles credentials v) ?_)
    rintro (e | user) v' h
    · exact acts_bind ⟨trivial, fun _ _ ↦ nofun⟩
    · exact h
  refine acts_bind (Program.Follows.mono hguard ?_)
  rintro (e | user) v' hv'
  · trivial
  · obtain rfl := hv' user rfl
    refine acts_bind (Program.Follows.mono (acts_service (Authored.follows_start
      (Authored.keeps_code u.toUnicode ?_ ?_))) ?_)
    · exact fun payload x hx ↦ congrArg some (h user payload x hx).symm
    · exact fun d x hx ↦ congrArg some (h' user d x hx).symm
    · rintro (e | r) v'' -
      · trivial
      · trivial

/-- A request, and the start of an API process. -/
theorem free_code (r : ApiRequest) : Free (r.code cfg u c) := by
  cases r with
  | register credentials payload =>
    refine Free.tryFinally_close fun v ↦ acts_bind
      (Program.Follows.mono (acts_requireRoles _ credentials v) ?_)
    rintro (e | user) v' -
    · trivial
    · exact free_registerUser payload v'
  | login api request payload => exact (free_loginEndpoint api request payload).tryFinally_close
  | createDomain credentials payload =>
    refine free_onBehalf _ credentials ?_ nofun
    rintro user _ _ ⟨⟩
    rfl
  | triggerScan credentials d =>
    refine free_onBehalf _ credentials nofun ?_
    rintro user _ _ ⟨⟩
    rfl
  | deleteDomain credentials d => exact free_onBehalf _ credentials nofun nofun
  | startup =>
    refine free_seedAdminUser.tryFinally_close.bind fun _ ↦
      Free.bind (fun v ↦ ?_) fun _ ↦ free_pure _
    exact acts_service (Authored.follows_start (Authored.keeps_code u.toUnicode nofun nofun))

/-- A worker that has taken a message. -/
theorem free_worker (cfg : Settings) (m : Message) : Free (ApiWorld.worker cfg m) := by
  refine Free.bind (fun v ↦ acts_service (Authored.follows_start ?_)) fun _ ↦ free_pure _
  exact (Authored.keeps_processScan cfg m.scan (some m.retries)).bind fun _ ↦ Conduct.keeps_pure _

end Principal

namespace ApiWorld

variable {cfg : Settings} {auth : AuthSettings} {u : UnicodeTables} {c : Crypto}
  {w w' : ApiWorld} {known known' : Id → Prop}

/-- The rows are attributed to known users, and every thread acts for nobody or for a known user. -/
structure Attributed (known : Id → Prop) (w : ApiWorld) : Prop where
  rows : w.shared.store.db.Attributed known
  threads : ∀ t ∈ w.threads, ∃ v,
    t.program.Follows Principal.discipline (fun _ _ ↦ True) v ∧ ∀ user ∈ v, known user

/-- More known users attribute the same rows and processes. -/
theorem Attributed.mono (h : w.Attributed known) (hknown : ∀ user, known user → known' user) :
    w.Attributed known' := by
  refine ⟨h.rows.mono hknown, fun t ht ↦ ?_⟩
  obtain ⟨v, hv, huser⟩ := h.threads t ht
  exact ⟨v, hv, fun user hmem ↦ hknown user (huser user hmem)⟩

/-- A thread that is started has read no user yet. -/
theorem Attributed.spawn {m : Api ApiResponse} {st : Stage} (h : w.Attributed known)
    (hm : Principal.Free m) : Attributed known (Pool.spawn m st w) := by
  refine ⟨h.rows, fun t ht ↦ ?_⟩
  rcases List.mem_append.1 ht with ht | ht
  · exact h.threads t ht
  · rw [List.mem_singleton.1 ht]
    exact ⟨none, hm none, fun _ hmem ↦ absurd hmem (by simp)⟩

/-- The users that are stored are known. -/
theorem Attributed.perform {i : ℕ} {e : ApiEnv} (h : w.Attributed known)
    (hstored : ∀ user ∈ w.shared.users.table, known user.id)
    (ha : w.act cfg auth u c (.perform i e) = some w') : w'.Attributed known := by
  obtain ⟨o, next, st, r, s, ht, hserve, rfl⟩ := Pool.step_eq_some ha
  obtain ⟨v, hv, hauthor⟩ := h.threads _ (List.mem_of_getElem? ht)
  refine ⟨?_, fun t hmem ↦ ?_⟩
  · cases changes_of_serveApi hserve with
    | nothing _ _ hdb | commitUser _ hdb | encode _ _ hdb =>
      rw [hdb]
      exact h.rows
    | service _ _ ho hdb =>
      subst ho
      exact h.rows.writeAll hdb hv.1 hauthor
  · rcases List.mem_or_eq_of_mem_set hmem with hmem | rfl
    · exact h.threads t hmem
    · refine ⟨Principal.observe v o r, hv.2 r (possible_of_serveApi hserve), fun x hx ↦ ?_⟩
      cases o with
      | userById y =>
        rcases r with err | (_ | user)
        · exact hauthor x hx
        · exact hauthor x hx
        · obtain rfl := Option.some.inj hx
          have hfound := mem_of_selectUser (Option.some.inj hserve)
          exact hstored user (Users.mem_of_byId hfound).1
      | _ => exact hauthor x hx

/-- A step keeps everything attributed to users that are stored. -/
theorem Attributed.act {a : ApiAction} (h : w.Attributed known)
    (hstored : ∀ user ∈ w.shared.users.table, known user.id)
    (ha : w.act cfg auth u c a = some w') : w'.Attributed known := by
  cases a with
  | start r =>
    obtain rfl := Option.some.inj ha
    exact h.spawn (Principal.free_code r)
  | take n =>
    simp only [ApiWorld.act] at ha
    split at ha
    · obtain rfl := Option.some.inj ha
      exact Attributed.spawn ⟨h.rows, h.threads⟩ (Principal.free_worker cfg _)
    · exact absurd ha (by simp)
  | duplicate n =>
    simp only [ApiWorld.act] at ha
    split at ha
    · obtain rfl := Option.some.inj ha
      exact ⟨h.rows, h.threads⟩
    · exact absurd ha (by simp)
  | edit users =>
    obtain rfl := Option.some.inj ha
    exact ⟨h.rows, h.threads⟩
  | perform i e => exact h.perform hstored ha

/-- Before a process is started only the rows are to be attributed. -/
theorem attributed_boot {s : Deployment} (hs : s.store.db.Attributed known) :
    (boot s).Attributed known :=
  ⟨hs, fun _ ht ↦ absurd ht List.not_mem_nil⟩

/-! ### Names -/

/-- **Stored names are canonical.** From a deployment in which it is so, in every state of every
run: each stored name is a valid domain name that the normalisation leaves as it is, and no two
stored domains have names that are normalised to the same one. -/
theorem names_canonical (cfg : Settings) (auth : AuthSettings) {u : UnicodeTables} (c : Crypto)
    (hu : u.toUnicode.OnAscii) {s : Deployment} {w : ℕ → ApiWorld} {a : ℕ → ApiAction} {n : ℕ}
    (hrun : Trace (act cfg auth u c) (boot s) w a n)
    (hs : ∀ d ∈ s.store.db.domains, IsDomainName d.name.toList) :
    ∀ k ≤ n,
      (∀ d ∈ (w k).shared.store.db.domains, IsDomainName d.name.toList ∧
        normalized u.toUnicode d.name = d.name.toList) ∧
      ∀ d ∈ (w k).shared.store.db.domains, ∀ d' ∈ (w k).shared.store.db.domains,
        normalized u.toUnicode d.name = normalized u.toUnicode d'.name → d = d' := by
  have hattributed : ∀ k ≤ n, (w k).Attributed fun _ ↦ True := by
    refine hrun.invariant ?_ fun k _ ha h ↦ h.act (fun _ _ ↦ trivial) ha
    rw [hrun.start]
    exact attributed_boot ⟨fun d row hrow ↦ ⟨hs row (Table.mem_of_get hrow), trivial⟩,
      fun _ _ _ _ _ ↦ trivial⟩
  intro k hk
  have hnames : ∀ d ∈ (w k).shared.store.db.domains, IsDomainName d.name.toList ∧
      normalized u.toUnicode d.name = d.name.toList := by
    intro d hd
    have hname := ((hattributed k hk).rows.domains d.id d (Table.get_key hd)).1
    have hnormal := hname.normalized hu
    rw [String.ofList_toList] at hnormal
    exact ⟨hname, hnormal⟩
  refine ⟨hnames, fun d hd d' hd' h ↦ ?_⟩
  rw [(hnames d hd).2, (hnames d' hd').2] at h
  exact (w k).shared.store.db.name_unique d hd d' hd' (String.toList_inj.1 h)

/-- The tables for ASCII. -/
def asciiTables : UnicodeTables :=
  { Unicode.ascii with isUpper := Char.isUpper, isLower := Char.isLower, isDigit := Char.isDigit }

/-- The only user logs in and creates a domain under another spelling of its name. -/
def loginAndSpell (k : ℕ) : ApiAction :=
  if k = 0 then .start (.login 0 {} ⟨"a", "p"⟩)
  else if k < 8 then .perform 0 {}
  else if k = 8 then .start (.createDomain (some ⟨"Bearer", ""⟩) " A.b. ")
  else .perform 1 {}

/-- The actions of `loginAndSpell` can be carried out. -/
theorem trace_loginAndSpell : Trace (act {} {} asciiTables .plain) (boot .oneUser)
    (states (act {} {} asciiTables .plain) loginAndSpell (boot .oneUser)) loginAndSpell 18 :=
  trace_of_isSome (by decide +kernel)

/-- The domains that are stored at the end. -/
abbrev spelled : List Domain :=
  (states (act {} {} asciiTables .plain) loginAndSpell (boot .oneUser)
    18).shared.store.db.domains.rows

theorem names_canonical_loginAndSpell : spelled.map Domain.name = ["a.b"] ∧
    ∀ d ∈ spelled, IsDomainName d.name.toList ∧ normalized Unicode.ascii d.name = d.name.toList :=
  ⟨by decide +kernel, fun d hd ↦ (names_canonical {} {} .plain (u := asciiTables)
    Unicode.onAscii_ascii trace_loginAndSpell (fun _ h ↦ absurd h (Table.not_mem_empty _))
    18 (Nat.le_refl 18)).1 d hd⟩

/-! ### Authors -/

/-- The action does not remove a user from the table by hand. No code does. -/
def KeepsUsers (w : ApiWorld) : ApiAction → Prop
  | .edit users => ∀ row ∈ w.shared.users.table, ∃ row' ∈ users.table, row'.id = row.id
  | _ => True

/-- The id of a stored user. -/
def IsUser (w : ApiWorld) (x : Id) : Prop :=
  ∃ row ∈ w.shared.users.table, row.id = x

/-- A step that removes no user keeps each one. -/
theorem IsUser.act {a : ApiAction} {x : Id} (h : w.IsUser x) (hkeeps : w.KeepsUsers a)
    (ha : w.act cfg auth u c a = some w') : w'.IsUser x := by
  obtain ⟨row, hrow, rfl⟩ := h
  by_cases hedit : ∃ users, a = .edit users
  · obtain ⟨users, rfl⟩ := hedit
    obtain rfl := Option.some.inj ha
    exact hkeeps row hrow
  · rcases users_of_act ha (not_exists.1 hedit) with husers | ⟨_, _, _, _, _, hwrite⟩
    · exact ⟨row, husers ▸ hrow, rfl⟩
    · exact ⟨row, (Users.mem_of_write hwrite row).2 (Or.inl hrow), rfl⟩

/-- Attribution to stored users is kept as long as no user is removed by hand. -/
theorem attributed_of_trace {s : Deployment} {w : ℕ → ApiWorld} {a : ℕ → ApiAction} {n : ℕ}
    (hrun : Trace (act cfg auth u c) (boot s) w a n) (hkeeps : ∀ k < n, (w k).KeepsUsers (a k))
    (hs : s.store.db.Attributed (boot s).IsUser) : ∀ k ≤ n, (w k).Attributed (w k).IsUser := by
  refine hrun.invariant ?_ fun k hk ha h ↦ ?_
  · rw [hrun.start]
    exact attributed_boot hs
  · exact (h.act (fun row hrow ↦ ⟨row, hrow, rfl⟩) ha).mono fun x hx ↦ hx.act (hkeeps k hk) ha

/-- **Rows name stored users.** From a deployment in which it is so, in every state of every run in
which no user is removed by hand: the creator of each stored domain is a stored user, and so is
whoever has triggered a stored scan. -/
theorem authors_stored (cfg : Settings) (auth : AuthSettings) (u : UnicodeTables) (c : Crypto)
    {s : Deployment} {w : ℕ → ApiWorld} {a : ℕ → ApiAction} {n : ℕ}
    (hrun : Trace (act cfg auth u c) (boot s) w a n)
    (hkeeps : ∀ k < n, (w k).KeepsUsers (a k))
    (hs : s.store.db.Attributed (boot s).IsUser) :
    ∀ k ≤ n,
      (∀ d ∈ (w k).shared.store.db.domains, (w k).IsUser d.createdBy) ∧
      ∀ x ∈ (w k).shared.store.db.scans, ∀ user ∈ x.triggeredBy, (w k).IsUser user := by
  intro k hk
  have h := (attributed_of_trace hrun hkeeps hs k hk).rows
  exact ⟨fun d hd ↦ (h.domains d.id d (Table.get_key hd)).2,
    fun x hx ↦ h.scans x.id x (Table.get_key hx)⟩

theorem authors_stored_loginAndSpell : spelled.map Domain.createdBy = [0] ∧
    ∀ d ∈ spelled, IsUser (states (act {} {} asciiTables .plain) loginAndSpell (boot .oneUser) 18)
      d.createdBy := by
  refine ⟨by decide +kernel, fun d hd ↦ ?_⟩
  refine (authors_stored {} {} asciiTables .plain trace_loginAndSpell ?_ ⟨?_, ?_⟩
    18 (Nat.le_refl 18)).1 d hd
  · intro k _
    simp only [loginAndSpell]
    split_ifs <;> trivial
  · exact fun d row h ↦ absurd (Table.mem_of_get h) (Table.not_mem_empty _)
  · exact fun x row h ↦ absurd (Table.mem_of_get h) (Table.not_mem_empty _)

end ApiWorld

end AssetDiscovery
