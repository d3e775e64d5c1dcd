import AssetDiscovery.Accounts.Access
import AssetDiscovery.Accounts.Directory

/-!
# How long a login lasts

A token says who has logged in and when the login expires, and nothing else of it counts: the guards
look at the role and at `is_active` of the row that is stored when the request arrives. So a login
is good exactly until it expires, through whatever happens in between, and what it is good for
follows the table of users at once (`login_lasts`).

What the guards answer is said here without code (`guardAnswer`).
-/

set_option autoImplicit false

namespace AssetDiscovery

open Effect Runs

/-- What a guard for some roles answers to the bearer of a token that expires at a time, by the row
of its user. -/
def guardAnswer (roles : List UserRole) (expires now : Time) (stored : Option User) :
    Except Exn User :=
  if expires < now then .error unauthenticated
  else
    match stored with
    | none => .error unauthenticated
    | some user =>
      if ¬ user.isActive then .error unauthenticated
      else if user.role ∉ roles then
        .error (.http 403 "You do not have permission to perform this action")
      else .ok user

section Guard

variable {c : Crypto} {u : UnicodeTables} {rate : RateSettings} {tid : ℕ}

/-- A token has expired after the time in its `exp`. -/
theorem expired_iff {claims : Claims} {expires now : Time}
    (h : claims.get "exp" = some (.date expires)) : claims.Expired now ↔ expires < now := by
  simp [Claims.Expired, h]

/-- Decoding a token gives the payload that has been signed, until it expires. -/
theorem decode_sign {s : Deployment} {claims : Claims} {expires : Time}
    (hsign : Set.InjOn c.sign { p | p ∈ s.issued }) (hissued : claims ∈ s.issued)
    (hexp : claims.get "exp" = some (.date expires)) :
    s.decode c (c.sign claims) = if expires < s.store.clock then none else some claims := by
  rw [Deployment.decode]
  split
  · next hexpired =>
    refine List.find?_eq_none.2 fun claims' hclaims' h ↦ ?_
    simp only [decide_eq_true_eq] at h
    obtain rfl := hsign hclaims' hissued h.1
    exact h.2 ((expired_iff hexp).2 hexpired)
  · next hvalid =>
    have hfound : (s.issued.find? fun claims' ↦
        c.sign claims' = c.sign claims ∧ ¬ claims'.Expired s.store.clock).isSome := by
      refine List.find?_isSome.2 ⟨claims, hissued, decide_eq_true ⟨rfl, fun h ↦ ?_⟩⟩
      exact hvalid ((expired_iff hexp).1 h)
    obtain ⟨claims', hclaims'⟩ := Option.isSome_iff_exists.1 hfound
    have hsome := List.find?_some hclaims'
    simp only [decide_eq_true_eq] at hsome
    rw [hclaims', hsign (List.mem_of_find?_eq_some hclaims') hissued hsome.1]

variable (c rate tid) in
/-- `get_current_user` from the decoded payload on, without failures. -/
theorem run_currentUserOf {s : Deployment} {claims : Claims} {x : Id} {ω : ℕ → ApiEnv}
    (hω : Succeeding ω) (hsub : claims.get "sub" = some (.id x)) :
    (currentUserOf claims).runAlone c rate tid ω s =
      some (((s.users.byId x).filter User.isActive).elim (.error unauthenticated) .ok,
        fun n ↦ ω (n + 1), s.tick (ω 0)) := by
  rw [currentUserOf, hsub]
  refine (run_query (Api.call (.userById x)) (Users.byId · x) (fun _ _ _ ↦ rfl) _ ω s).trans ?_
  rw [hω 0, if_neg (by decide)]
  cases s.users.byId x with
  | none => rfl
  | some user =>
    rw [Option.filter_some]
    by_cases hactive : user.isActive = true
    · simp only [hactive, if_true]
      rfl
    · simp only [hactive]
      rfl

/-- A guard lets the user through, or refuses the role. -/
theorem run_requireRoles_of (roles : List UserRole) {credentials : Option Credentials}
    {ω ω' : ℕ → ApiEnv} {s s' : Deployment} {r : Except Exn User}
    (h : (getCurrentUser u credentials).runAlone c rate tid ω s = some (r, ω', s')) :
    (requireRoles u roles credentials).runAlone c rate tid ω s =
      some (r.bind fun user ↦ if user.role ∉ roles
        then .error (.http 403 "You do not have permission to perform this action")
        else .ok user, ω', s') := by
  cases r with
  | error e => exact run_bind_error h
  | ok user =>
    refine (run_bind_ok h).trans ?_
    show Api.runAlone c rate tid (if user.role ∉ roles then _ else _) ω' s' =
      some (if user.role ∉ roles then _ else _, ω', s')
    split
    · rfl
    · rfl

variable (c rate tid) in
/-- `get_current_user`, by what the token is decoded to. -/
theorem run_getCurrentUser (cr : Credentials) (ω : ℕ → ApiEnv) (s : Deployment)
    (hscheme : String.ofList (u.lower cr.scheme.toList) = "bearer") :
    (getCurrentUser u (some cr)).runAlone c rate tid ω s =
      ((s.tick (ω 0)).decode c cr.token).elim
        (some (.error unauthenticated, fun n ↦ ω (n + 1), s.tick (ω 0)))
        fun payload ↦ (currentUserOf payload).runAlone c rate tid (fun n ↦ ω (n + 1))
          (s.tick (ω 0)) := by
  have hserve : serveApi c rate tid (.decode cr.token) (ω 0) s =
      some ((s.tick (ω 0)).decode c cr.token, s.tick (ω 0)) := rfl
  rw [getCurrentUser, if_neg (not_not.2 hscheme)]
  refine (run_call hserve).trans ?_
  cases (s.tick (ω 0)).decode c cr.token with
  | none => rfl
  | some payload => rfl

/-- A guard without failures. -/
theorem run_requireRoles {s : Deployment} {claims : Claims} {x : Id} {expires : Time}
    {scheme : String} {roles : List UserRole} {ω : ℕ → ApiEnv} (hω : Succeeding ω)
    (hscheme : String.ofList (u.lower scheme.toList) = "bearer")
    (hsign : Set.InjOn c.sign { p | p ∈ s.issued }) (hissued : claims ∈ s.issued)
    (hsub : claims.get "sub" = some (.id x)) (hexp : claims.get "exp" = some (.date expires)) :
    ∃ ω' s', (requireRoles u roles (some ⟨scheme, c.sign claims⟩)).runAlone c rate tid ω s =
      some (guardAnswer roles expires (s.store.clock + (ω 0).tick) (s.users.byId x), ω', s') := by
  have hdecode : (s.tick (ω 0)).decode c (c.sign claims) =
      if expires < s.store.clock + (ω 0).tick then none else some claims :=
    decode_sign (s := s.tick (ω 0)) hsign hissued hexp
  have hcurrent := run_getCurrentUser c rate tid ⟨scheme, c.sign claims⟩ ω s hscheme
  rw [hdecode] at hcurrent
  unfold guardAnswer
  split
  · next hexpired =>
    rw [if_pos hexpired] at hcurrent
    exact ⟨_, _, run_requireRoles_of roles hcurrent⟩
  · next hvalid =>
    rw [if_neg hvalid] at hcurrent
    have huser := run_currentUserOf c rate tid (s := s.tick (ω 0)) (fun n ↦ hω (n + 1)) hsub
    refine ⟨fun n ↦ ω (n + 1 + 1), (s.tick (ω 0)).tick (ω 1),
      (run_requireRoles_of roles (hcurrent.trans huser)).trans ?_⟩
    show some (Except.bind (((s.users.byId x).filter User.isActive).elim _ _) _, _, _) = _
    cases s.users.byId x with
    | none => rfl
    | some user =>
      rw [Option.filter_some]
      by_cases hactive : user.isActive = true
      · simp [hactive, Except.bind]
      · simp [hactive, Except.bind]

/-- A login that returns a token has signed a payload that names the user and the time until which
it is valid. -/
theorem claims_of_loginUser {cfg : AuthSettings} {payload : LoginRequest} {ω ω' : ℕ → ApiEnv}
    {s s' : Deployment} {token tokenType : String} {expiresIn : ℕ}
    (h : (AuthService.loginUser cfg u c payload).runAlone c rate tid ω s =
      some (.ok (.token token tokenType expiresIn), ω', s')) :
    ∃ user ∈ s.users.table, payload.Matches u c user ∧ user.isActive = true ∧
      ∃ now, s.store.clock ≤ now ∧ now ≤ s'.store.clock ∧ ∃ claims ∈ s'.issued,
        token = c.sign claims ∧ claims.get "sub" = some (.id user.id) ∧
        claims.get "exp" = some (.date (now + cfg.jwtAccessTokenExpireMinutes * cfg.minute)) := by
  unfold AuthService.loginUser at h
  rw [run_getUserByEmail] at h
  split at h
  · exact absurd (Prod.mk.inj (Option.some.inj h)).1 (by simp)
  · cases hfound : s.users.byEmail (normalizeEmail u.toUnicode payload.email) with
    | none =>
      rw [hfound] at h
      exact absurd (Prod.mk.inj (Option.some.inj h)).1 (by simp)
    | some user =>
      obtain ⟨hmem, hemail⟩ := Users.mem_of_byEmail hfound
      rw [hfound] at h
      change (if ¬ c.verify payload.password user.passwordHash = true then _ else
        if ¬ user.isActive = true then _ else _ : Api ApiResponse).runAlone c rate tid _ _ = _ at h
      split at h
      · exact absurd (Prod.mk.inj (Option.some.inj h)).1 (by simp)
      -- address, password and `is_active` have passed, so a payload is signed
      · next hpassword =>
        split at h
        · exact absurd (Prod.mk.inj (Option.some.inj h)).1 (by simp)
        · next hactive =>
          obtain ⟨hr, hs⟩ := Prod.mk.inj (Option.some.inj h)
          obtain ⟨-, rfl⟩ := Prod.mk.inj hs
          obtain ⟨rfl, -, -⟩ := ApiResponse.token.inj (Except.ok.inj hr)
          have hpassword := not_not.1 hpassword
          refine ⟨user, hmem, ⟨hemail, hpassword, fun password salt hhash ↦ ?_⟩,
            not_not.1 hactive, s.store.clock + (ω 0).tick + (ω 1).tick, ?_, ?_, _,
            List.mem_cons_self, rfl, rfl, rfl⟩
          · rw [hhash] at hpassword
            exact c.verify_hash _ _ _ hpassword
          · exact (Nat.le_add_right _ _).trans (Nat.le_add_right _ _)
          · exact Nat.le_add_right _ _

end Guard

namespace ApiWorld

variable {cfg : Settings} {auth : AuthSettings} {u : UnicodeTables} {c : Crypto} {w w' : ApiWorld}

/-- What has been signed stays signed. -/
theorem mem_issued_of_act {a : ApiAction} (ha : w.act cfg auth u c a = some w') {claims : Claims}
    (h : claims ∈ w.shared.issued) : claims ∈ w'.shared.issued := by
  cases a with
  | start r =>
    obtain rfl := Option.some.inj ha
    exact h
  | take n | duplicate n =>
    simp only [ApiWorld.act] at ha
    split at ha
    · obtain rfl := Option.some.inj ha
      exact h
    · exact absurd ha (by simp)
  | edit users =>
    obtain rfl := Option.some.inj ha
    exact h
  | perform i e =>
    obtain ⟨o, next, st, r, s, -, hserve, rfl⟩ := Pool.step_eq_some ha
    show claims ∈ s.issued
    rcases (changes_of_serveApi hserve).signed with hsame | ⟨payload, -, hsigned⟩
    · rwa [hsame]
    · rw [hsigned]
      exact List.mem_cons_of_mem _ h

/-- **A login lasts until it expires, and is worth what the user is.** A login returns a token only
to an active user with its address and password. In every state that is reached from then on, in
whatever way requests, workers, restarts and edits of the users are interleaved, every guard answers
to the token, in a header `Bearer`, as `guardAnswer` says: until the configured number of minutes
after the login it goes by the row of the user that is stored at that moment, and after that it
refuses. It is assumed that no two different payloads that have been signed have the same token. -/
theorem login_lasts (cfg : Settings) (auth : AuthSettings) (u : UnicodeTables) (c : Crypto)
    {tid : ℕ} {payload : LoginRequest} {ω ω' : ℕ → ApiEnv} {s s' : Deployment}
    {token tokenType : String} {expiresIn : ℕ}
    (hlogin : (AuthService.loginUser auth u c payload).runAlone c auth.rate tid ω s =
      some (.ok (.token token tokenType expiresIn), ω', s'))
    {P : ApiWorld} (hP : P.shared = s') {w : ℕ → ApiWorld} {a : ℕ → ApiAction} {n : ℕ}
    (hrun : Trace (act cfg auth u c) P w a n)
    (hsign : ∀ k ≤ n, Set.InjOn c.sign { p | p ∈ (w k).shared.issued }) :
    ∃ user ∈ s.users.table, payload.Matches u c user ∧ user.isActive = true ∧
      ∃ now, s.store.clock ≤ now ∧ now ≤ s'.store.clock ∧
        ∀ k ≤ n, ∀ scheme : String, String.ofList (u.lower scheme.toList) = "bearer" →
          ∀ (roles : List UserRole) (tid : ℕ) (ω : ℕ → ApiEnv), Succeeding ω → ∃ ω' s'',
            (requireRoles u roles (some ⟨scheme, token⟩)).runAlone c auth.rate tid ω (w k).shared =
              some (guardAnswer roles (now + auth.jwtAccessTokenExpireMinutes * auth.minute)
                ((w k).shared.store.clock + (ω 0).tick) ((w k).shared.users.byId user.id),
                ω', s'') := by
  obtain ⟨user, hmem, hmatches, hactive, now, hle, hle', claims, hissued, rfl, hsub, hexp⟩ :=
    claims_of_loginUser hlogin
  refine ⟨user, hmem, hmatches, hactive, now, hle, hle',
    fun k hk scheme hscheme roles tid ω hω ↦ ?_⟩
  have hstill : ∀ k ≤ n, claims ∈ (w k).shared.issued := by
    refine hrun.invariant ?_ fun k _ ha h ↦ mem_issued_of_act ha h
    rw [hrun.start, hP]
    exact hissued
  exact run_requireRoles hω hscheme (hsign k hk) (hstill k hk) hsub hexp

/-- The only user has logged in. -/
def loggedIn : Deployment :=
  ((AuthService.loginUser {} .plain .plain ⟨"a", "p"⟩).runAlone .plain {} 0 (fun _ ↦ {})
    .oneUser).elim .oneUser fun q ↦ q.2.2

/-- The user is made a viewer by hand. -/
def demote (_ : ℕ) : ApiAction :=
  .edit (Users.empty.insert ⟨0, "a", "p", "A", .viewer, true⟩ rfl
    fun _ h ↦ absurd h (Table.not_mem_empty _))

/-- The token of an administrator is refused as that of a viewer. -/
theorem login_lasts_demoted : ∃ ω' s',
    (requireRoles UnicodeTables.plain [.admin] (some ⟨"bearer", ""⟩)).runAlone .plain {} 1
      (fun _ ↦ {}) (states (act {} {} .plain .plain) demote (boot loggedIn) 1).shared =
      some (.error (.http 403 "You do not have permission to perform this action"), ω', s') := by
  have hlogin : (AuthService.loginUser {} .plain .plain ⟨"a", "p"⟩).runAlone .plain {} 0
      (fun _ ↦ {}) .oneUser = some (.ok (.token "" "bearer" 3600), fun _ ↦ {}, loggedIn) := rfl
  have hrun : Trace (act {} {} .plain .plain) (boot loggedIn)
      (states (act {} {} .plain .plain) demote (boot loggedIn)) demote 1 :=
    trace_of_isSome (by decide)
  have hsign : ∀ k ≤ 1, Set.InjOn Crypto.plain.sign
      { p | p ∈ (states (act {} {} .plain .plain) demote (boot loggedIn) k).shared.issued } := by
    intro k hk p hp q hq _
    have hone : (states (act {} {} .plain .plain) demote (boot loggedIn) k).shared.issued =
        loggedIn.issued := by
      rcases Nat.le_one_iff_eq_zero_or_eq_one.1 hk with rfl | rfl
      · rfl
      · rfl
    change p ∈ _ at hp
    change q ∈ _ at hq
    rw [hone] at hp hq
    rw [List.mem_singleton.1 hp, List.mem_singleton.1 hq]
  obtain ⟨user, hmem, -, -, now, -, -, hguard⟩ :=
    login_lasts {} {} .plain .plain hlogin rfl hrun hsign
  obtain rfl : user = ⟨0, "a", "p", "A", .admin, true⟩ :=
    List.mem_singleton.1 (Table.mem_rows.2 hmem)
  obtain ⟨ω', s', hrefused⟩ := hguard 1 (Nat.le_refl 1) "bearer" rfl [.admin] 1 (fun _ ↦ {})
    fun _ ↦ rfl
  refine ⟨ω', s', hrefused.trans (congrArg (fun r ↦ some (r, ω', s')) ?_)⟩
  exact (if_neg (Nat.not_lt_zero _)).trans rfl

end ApiWorld

end AssetDiscovery
