import AssetDiscovery.Accounts.Auth

/-!
# The budget of failed logins

`POST /auth/login` takes one attempt from the budget of its client (`enforce_login_rate_limit`) and
gives all of them back after a successful login (`clear_client`). Requests to one API process are
carried out one after another here (`serveLogins`); each is its own run of the endpoint, with
arbitrary inputs of the environment.

The calls of the limiter that the requests make are a history of it (`calls`), so what is known of
the limiter bounds how many requests are answered 401: within a span shorter than the window, at
most `login_rate_limit` as long as no login with the key succeeds in it (`rejections_le`). A success
in between starts a new budget, so the bound does not hold without this (`exists_refund`).
-/

set_option autoImplicit false

namespace AssetDiscovery

open Effect SlidingWindow

/-! ### Rules for code of the API that runs alone -/

namespace Api

variable {α β : Type} {c : Crypto} {rate : RateSettings} {tid : ℕ}

variable (c rate tid) in
/-- The code runs to its end, whatever the environment does, and ends as `Q` says. -/
def Ensures (Q : Except Exn α → Deployment → Prop) (m : Api α) (s : Deployment) : Prop :=
  Program.Ensures (serveApi c rate tid) (fun _ ↦ True) (fun _ ↦ True) Q m s

variable {s : Deployment} {Q : Except Exn α → Deployment → Prop}

@[simp]
theorem ensures_pure {a : α} : Ensures c rate tid Q (pure a) s ↔ Q (.ok a) s :=
  ⟨fun h ↦ h.2, fun h ↦ ⟨trivial, h⟩⟩

@[simp]
theorem ensures_raise {e : Exn} : Ensures c rate tid Q (raise e) s ↔ Q (.error e) s :=
  ⟨fun h ↦ h.2, fun h ↦ ⟨trivial, h⟩⟩

@[simp]
theorem ensures_orRaise {r : Except DbError α} :
    Ensures c rate tid Q (orRaise r) s ↔ Q (r.mapError Exn.database) s :=
  ⟨fun h ↦ h.2, fun h ↦ ⟨trivial, h⟩⟩

/-- The rule of sequential composition. -/
theorem ensures_bind {m : Api α} {f : α → Api β} {Q : Except Exn β → Deployment → Prop}
    (h : Ensures c rate tid (fun r s ↦ match r with
      | .ok a => Ensures c rate tid Q (f a) s
      | .error e => Q (.error e) s) m s) : Ensures c rate tid Q (m >>= f) s := by
  refine Program.ensures_bind.2 (Program.Ensures.mono h ?_)
  rintro (e | a) s' - h'
  · exact ⟨trivial, h'⟩
  · exact h'

/-- An operation, whatever the environment does. -/
theorem ensures_call {o : ApiOp} {Q : Except Exn o.Res → Deployment → Prop}
    (h : ∀ e, ∃ r s', serveApi c rate tid o e s = some (r, s') ∧ Q (.ok r) s') :
    Ensures c rate tid Q (call o) s := by
  refine ⟨trivial, fun e _ ↦ ?_⟩
  obtain ⟨r, s', hr, hQ⟩ := h e
  exact ⟨r, s', hr, trivial, hQ⟩

/-- Closing the session changes neither users nor stamps. -/
theorem ensures_tryFinally_close {m : Api α}
    (h : Ensures c rate tid (fun r s ↦ ∀ s', s'.users = s.users → s'.attempts = s.attempts →
      s.store.clock ≤ s'.store.clock → Q r s') m s) :
    Ensures c rate tid Q (tryFinally m close) s := by
  refine Program.ensures_bind.2 (Program.Ensures.mono h ?_)
  rintro r s - h'
  refine ⟨trivial, fun e _ ↦ ⟨(), _, rfl, trivial, h' _ rfl rfl ?_⟩⟩
  exact Nat.le_add_right ..

end Api

/-! ### One login -/

variable {c : Crypto} {cfg : AuthSettings} {u : UnicodeTables} {tid api : ℕ}

/-- A step that leaves the stamps of the limiter alone, while time may pass. -/
structure Deployment.Passes (s s' : Deployment) : Prop where
  attempts : s'.attempts = s.attempts
  clock : s.store.clock ≤ s'.store.clock

theorem Deployment.Passes.trans {s s' s'' : Deployment} (h : s.Passes s') (h' : s'.Passes s'') :
    s.Passes s'' :=
  ⟨h'.attempts.trans h.attempts, h.clock.trans h'.clock⟩

theorem Deployment.passes_tick (s : Deployment) (e : ApiEnv) : s.Passes (s.tick e) :=
  ⟨rfl, Nat.le_add_right ..⟩

/-- A query for a user changes nothing but the clock. -/
theorem ensures_getUserByEmail {email : String} {s : Deployment}
    {Q : Except Exn (Option User) → Deployment → Prop} (h : ∀ r s', s.Passes s' → Q r s') :
    Api.Ensures c cfg.rate tid Q (UserRepo.getUserByEmail u email) s := by
  refine Api.ensures_bind (Api.ensures_call fun e ↦ ?_)
  refine ⟨(selectUser e s _).1, (selectUser e s _).2, rfl, Api.ensures_orRaise.2 (h _ _ ?_)⟩
  rw [selectUser]
  split
  · exact s.passes_tick e
  · exact s.passes_tick e

/-- `login_user` does not touch the limiter. -/
theorem ensures_loginUser (payload : LoginRequest) (s : Deployment) :
    Api.Ensures c cfg.rate tid (fun _ s' ↦ s.Passes s') (AuthService.loginUser cfg u c payload)
      s := by
  refine Api.ensures_bind (ensures_getUserByEmail fun r s' hpass ↦ ?_)
  rcases r with err | (_ | user)
  · exact hpass
  · exact Api.ensures_raise.2 hpass
  · show Api.Ensures c cfg.rate tid _ (if _ then _ else _) s'
    split
    · exact Api.ensures_raise.2 hpass
    · split
      · exact Api.ensures_raise.2 hpass
      · refine Api.ensures_bind (Api.ensures_bind (Api.ensures_call fun e ↦ ⟨_, _, rfl, ?_⟩))
        refine Api.ensures_call fun e' ↦ ⟨_, _, rfl, ?_⟩
        refine Api.ensures_pure.2 (hpass.trans ⟨rfl, ?_⟩)
        exact (Nat.le_add_right ..).trans (Nat.le_add_right ..)

/-! ### A sequence of logins -/

/-- A request to `POST /auth/login`, with what the environment does while it is carried out. -/
structure LoginCall where
  request : Client
  payload : LoginRequest
  env : ℕ → ApiEnv

/-- A request that has been answered. -/
structure Answered where
  /-- Its client key. -/
  key : String
  /-- What it read from the clock. -/
  reading : Reading
  answer : Except Exn ApiResponse
  deriving DecidableEq

namespace Answered

/-- The login succeeded. -/
def Succeeded (r : Answered) : Prop :=
  r.answer.isOk

/-- The request was answered 401. -/
def Rejected (r : Answered) : Prop :=
  r.answer = .error (.http 401 "Invalid credentials")

instance : DecidablePred Succeeded := fun r ↦
  inferInstanceAs (Decidable (r.answer.isOk = true))

instance : DecidablePred Rejected := fun r ↦
  inferInstanceAs (Decidable (r.answer = _))

/-- The calls of the limiter that a request made, latest first. -/
def calls (r : Answered) : List LimiterCall :=
  if r.Succeeded then [.clear r.key, .enforce r.key r.reading] else [.enforce r.key r.reading]

end Answered

variable (cfg u c tid api) in
/-- Carry out one login. -/
def serveLogin (l : LoginCall) (s : Deployment) : Option (Answered × Deployment) :=
  (((ApiRequest.login api l.request l.payload).code cfg u c).run (serveApi c cfg.rate tid) l.env
    s).map fun q ↦
      (⟨clientIp u.toUnicode l.request, ((s.tick (l.env 0)).store.clock : ℤ), q.1⟩, q.2.2)

variable (c cfg u api) in
/-- The endpoint from its reading of the clock on. -/
def loginAt (key : String) (payload : LoginRequest) (now : Reading) : Api ApiResponse := do
  let clientKey ← enforceUnderLock api key now
  let token ← AuthService.loginUser cfg u c payload
  Api.call (.clearClient api clientKey)
  return token

theorem Answered.calls_error {key : String} {now : Reading} {e : Exn} :
    (⟨key, now, .error e⟩ : Answered).calls = [.enforce key now] :=
  rfl

/-- How a login ends that has read the clock: it has made the calls of the limiter that its answer
says, and if it is answered 401 it has been admitted. -/
structure LoginEnds (rate : RateSettings) (api : ℕ) (s : Deployment) (r : Answered)
    (s' : Deployment) : Prop where
  clock : s.store.clock ≤ s'.store.clock
  attempts : s'.attempts api = r.calls.foldr (LimiterCall.apply rate) (s.attempts api)
  admitted : r.Rejected → Admits rate r.key r.reading (s.attempts api)

variable (c cfg u tid api) in
/-- A login request after its reading of the clock. -/
theorem ensures_loginAt (key : String) (payload : LoginRequest) (now : Reading) (s : Deployment) :
    Api.Ensures c cfg.rate tid (fun a s' ↦ LoginEnds cfg.rate api s ⟨key, now, a⟩ s')
      (loginAt c cfg u api key payload now) s := by
  refine Api.ensures_bind (Api.ensures_bind (Api.ensures_call fun e ↦ ⟨_, _, rfl, ?_⟩))
  by_cases hadmits : Admits cfg.rate key now (s.attempts api)
  · rw [enforceLoginRateLimit_of_admits hadmits]
    refine Api.ensures_pure.2 (Api.ensures_bind ?_)
    refine Program.Ensures.mono (ensures_loginUser payload _) fun r s' _ hpass ↦ ?_
    have hclock := (s.passes_tick e).clock.trans hpass.clock
    have hattempts : s'.attempts api =
        (enforceLoginRateLimit cfg.rate key now (s.attempts api)).2 := by
      rw [hpass.attempts, enforceLoginRateLimit_of_admits hadmits]
      exact Function.update_self ..
    cases r with
    | error err => exact ⟨hclock, hattempts, fun _ ↦ hadmits⟩
    | ok token =>
      refine Api.ensures_bind (Api.ensures_call fun e' ↦ ⟨_, _, rfl, Api.ensures_pure.2 ?_⟩)
      refine ⟨hclock.trans (Nat.le_add_right ..), ?_, fun _ ↦ hadmits⟩
      show Function.update s'.attempts api _ api = _
      rw [Function.update_self, hattempts]
      rfl
  · have hupdate : ∀ q, Function.update s.attempts api q api = q := fun q ↦ Function.update_self ..
    rw [enforceLoginRateLimit_of_not_admits hadmits]
    refine Api.ensures_raise.2 ⟨Nat.le_add_right .., ?_, fun h ↦ ?_⟩
    · rw [Answered.calls_error]
      show _ = (enforceLoginRateLimit cfg.rate key now (s.attempts api)).2
      rw [enforceLoginRateLimit_of_not_admits hadmits]
      exact hupdate _
    · exact absurd h (by simp [Answered.Rejected])

variable (c cfg u tid api) in
/-- The session is closed at the end. -/
theorem ensures_loginAt_close (key : String) (payload : LoginRequest) (now : Reading)
    (s : Deployment) :
    Api.Ensures c cfg.rate tid (fun a s' ↦ LoginEnds cfg.rate api s ⟨key, now, a⟩ s')
      (Api.tryFinally (loginAt c cfg u api key payload now) Api.close) s := by
  refine Api.ensures_tryFinally_close (Program.Ensures.mono
    (ensures_loginAt c cfg u tid api key payload now s) ?_)
  intro a s₁ _ h s' _ hattempts hclock
  exact ⟨h.clock.trans hclock, hattempts ▸ h.attempts, h.admitted⟩

variable (c cfg u tid api) in
/-- What one login does: it is answered, and makes the calls of the limiter that its answer says;
only a call that was admitted can be answered 401. -/
theorem exists_serveLogin (l : LoginCall) (s : Deployment) :
    ∃ r s', serveLogin c cfg u tid api l s = some (r, s') ∧
      (s.store.clock : ℤ) ≤ r.reading ∧ r.reading ≤ s'.store.clock ∧
      s'.attempts api = r.calls.foldr (LimiterCall.apply cfg.rate) (s.attempts api) ∧
      (r.Rejected → Admits cfg.rate r.key r.reading (s.attempts api)) := by
  have hcode : (ApiRequest.login api l.request l.payload).code cfg u c =
      Program.perform .monotonic fun now ↦ Api.tryFinally
        (loginAt c cfg u api (clientIp u.toUnicode l.request) l.payload now) Api.close := rfl
  obtain ⟨a, ω', s', hrun, -, hends⟩ := Program.Ensures.run (ω := fun n ↦ l.env (n + 1))
    (ensures_loginAt_close c cfg u tid api (clientIp u.toUnicode l.request) l.payload
      ((s.tick (l.env 0)).store.clock : ℤ) (s.tick (l.env 0))) fun _ ↦ trivial
  have hcoderun : Program.run (serveApi c cfg.rate tid)
      ((ApiRequest.login api l.request l.payload).code cfg u c) l.env s = some (a, ω', s') := by
    rw [hcode]
    exact (Program.run_perform ..).trans hrun
  refine ⟨⟨_, _, a⟩, s', ?_, ?_, ?_, hends.attempts, hends.admitted⟩
  · rw [serveLogin, hcoderun]
    rfl
  · exact Int.ofNat_le.2 (s.passes_tick (l.env 0)).clock
  · exact Int.ofNat_le.2 hends.clock

/-! ### Sequences of logins -/

variable (c cfg u tid api) in
/-- Carry out logins one after another; the latest comes first, also among the answers. -/
def serveLogins : List LoginCall → Deployment → Option (List Answered × Deployment)
  | [], s => some ([], s)
  | l :: earlier, s =>
    (serveLogins earlier s).bind fun q ↦
      (serveLogin c cfg u tid api l q.2).map fun q' ↦ (q'.1 :: q.1, q'.2)

/-- The calls of the limiter that the requests of a log have made. -/
def history (log : List Answered) : List LimiterCall :=
  log.flatMap Answered.calls

/-- The history of one answered request more. -/
theorem history_cons (r : Answered) (log : List Answered) :
    history (r :: log) = r.calls ++ history log :=
  List.flatMap_cons

/-- What is known of a log: readings do not decrease, and a request that is answered 401 was
admitted. -/
def Consistent (rate : RateSettings) : List Answered → Prop
  | [] => True
  | r :: earlier =>
    Consistent rate earlier ∧ (∀ r' ∈ earlier, r'.reading ≤ r.reading) ∧
      (r.Rejected → Admits rate r.key r.reading (after rate (history earlier)))

variable (c cfg u tid) in
/-- A sequence of logins is answered, and its log is consistent. -/
theorem exists_serveLogins (ls : List LoginCall) {s : Deployment}
    (hs : s.attempts api = resetRateLimits) :
    ∃ log s', serveLogins c cfg u tid api ls s = some (log, s') ∧ log.length = ls.length ∧
      Consistent cfg.rate log ∧ (∀ r ∈ log, r.reading ≤ s'.store.clock) ∧
      s'.attempts api = after cfg.rate (history log) := by
  induction ls with
  | nil => exact ⟨[], s, rfl, rfl, trivial, by simp, hs⟩
  | cons l ls ih =>
    obtain ⟨log, s₁, hlog, hlength, hconsistent, hclock, hattempts⟩ := ih
    obtain ⟨r, s', hr, hreading, hreading', hattempts', hadmitted⟩ :=
      exists_serveLogin c cfg u tid api l s₁
    have hbefore : ∀ r' ∈ log, r'.reading ≤ r.reading := fun r' hr' ↦ (hclock r' hr').trans hreading
    rw [hattempts] at hattempts' hadmitted
    refine ⟨r :: log, s', ?_, congrArg (· + 1) hlength, ⟨hconsistent, hbefore, hadmitted⟩, ?_, ?_⟩
    · rw [serveLogins, hlog, Option.bind_some, hr]
      rfl
    · intro r' hr'
      rcases List.mem_cons.1 hr' with rfl | hr'
      · exact hreading'
      · exact (hbefore r' hr').trans hreading'
    · rw [hattempts', history_cons, after_append]

/-! ### How many requests are answered 401 -/

/-- The requests with a key that are answered 401 within a span. -/
def rejections (key : String) (a b : Reading) (log : List Answered) : ℕ :=
  log.countP fun r ↦ r.key = key ∧ a ≤ r.reading ∧ r.reading ≤ b ∧ r.Rejected

/-- No login with the key succeeds within the span. -/
def NoSuccess (key : String) (a b : Reading) (log : List Answered) : Prop :=
  ∀ r ∈ log, r.key = key → a ≤ r.reading → r.reading ≤ b → ¬ r.Succeeded

variable {rate : RateSettings} {key : String} {a b : Reading} {log : List Answered}

/-- The calls of a request are made at its reading. -/
theorem Answered.reading_of_mem_calls {r : Answered} {t : Reading}
    (h : t ∈ r.calls.filterMap LimiterCall.reading?) : t = r.reading := by
  rw [Answered.calls] at h
  split at h
  · simpa [LimiterCall.reading?, eq_comm] using h
  · simpa [LimiterCall.reading?, eq_comm] using h

/-- Requests that come one after another make their calls in order. -/
theorem inOrder_history (h : Consistent rate log) : InOrder (history log) := by
  induction log with
  | nil => exact List.Pairwise.nil
  | cons r log ih =>
    obtain ⟨hlog, hbefore, -⟩ := h
    rw [InOrder, history_cons, List.filterMap_append]
    refine List.pairwise_append.2 ⟨?_, ih hlog, fun t ht t' ht' ↦ ?_⟩
    · rw [Answered.calls]
      split
      · exact List.pairwise_singleton _ _
      · exact List.pairwise_singleton _ _
    · obtain ⟨call, hcall, ht'⟩ := List.mem_filterMap.1 ht'
      obtain ⟨r', hr', hcall⟩ := List.mem_flatMap.1 hcall
      rw [Answered.reading_of_mem_calls ht,
        Answered.reading_of_mem_calls (List.mem_filterMap.2 ⟨call, hcall, ht'⟩)]
      exact hbefore r' hr'

/-- Calls for one client make no sections of another. -/
theorem sections_calls_of_ne {r : Answered} (h : r.key ≠ key) (past : List LimiterCall) :
    sections rate key (r.calls ++ past) = sections rate key past := by
  rw [Answered.calls]
  split
  · rw [List.cons_append, List.cons_append, sections, if_neg h, sections, if_neg h]
    rfl
  · rw [List.cons_append, sections, if_neg h]
    rfl

/-- Up to the end of a span without a success, the requests answered 401 in it are among the
admitted calls since the key was last cleared. -/
theorem rejections_le_admitted (h : Consistent rate log) (hspan : ∀ r ∈ log, r.reading ≤ b)
    (hno : NoSuccess key a b log) :
    rejections key a b log ≤
      (admitted (sections rate key (history log))).countP fun t ↦ a ≤ t ∧ t ≤ b := by
  induction log with
  | nil => exact Nat.le_refl _
  | cons r log ih =>
    obtain ⟨hlog, hbefore, hadmitted⟩ := h
    have ih := ih hlog (fun r' hr' ↦ hspan r' (List.mem_cons_of_mem _ hr'))
      fun r' hr' ↦ hno r' (List.mem_cons_of_mem _ hr')
    rw [history_cons]
    by_cases hkey : r.key = key
    · subst hkey
      by_cases hsuccess : r.Succeeded
      · -- it succeeded before the span began, and so did everything before it
        have hr : ¬ a ≤ r.reading := fun har ↦
          hno r List.mem_cons_self rfl har (hspan r List.mem_cons_self) hsuccess
        have hnone : rejections r.key a b (r :: log) = 0 := by
          refine List.countP_eq_zero.2 fun r' hr' hcount ↦ hr ?_
          have hcount : r'.key = r.key ∧ a ≤ r'.reading ∧ r'.reading ≤ b ∧ r'.Rejected := by
            simpa using hcount
          rcases List.mem_cons.1 hr' with rfl | hr'
          · exact hcount.2.1
          · exact hcount.2.1.trans (hbefore r' hr')
        rw [hnone]
        exact Nat.zero_le _
      -- an answer 401 was admitted by the limiter, and its stamp is in the span
      · rw [Answered.calls, if_neg hsuccess, List.cons_append, List.nil_append, sections,
          if_pos rfl, admitted, List.countP_append, rejections, List.countP_cons]
        refine Nat.add_le_add ih ?_
        split
        · next hcount =>
          obtain ⟨-, har, hrb, hrejected⟩ :
              r.key = r.key ∧ a ≤ r.reading ∧ r.reading ≤ b ∧ r.Rejected := by
            simpa using hcount
          rw [answer, enforceLoginRateLimit_isOk, decide_eq_true (hadmitted hrejected), if_pos rfl,
            List.countP_singleton, if_pos (by simpa using ⟨har, hrb⟩)]
        · exact Nat.zero_le _
    · rw [sections_calls_of_ne hkey, rejections, List.countP_cons_of_neg (by simp [hkey])]
      exact ih

/-- In a consistent log, a span shorter than the window in which no login with the key succeeds
holds at most `login_rate_limit` requests with the key that are answered 401. -/
theorem rejections_le_limit (h : Consistent rate log) (hab : b - a < rate.loginRateWindow)
    (hno : NoSuccess key a b log) : rejections key a b log ≤ rate.loginRateLimit.toNat := by
  induction log with
  | nil => exact Nat.zero_le _
  | cons r log ih =>
    by_cases hr : r.reading ≤ b
    · have hspan : ∀ r' ∈ r :: log, r'.reading ≤ b := by
        intro r' hr'
        rcases List.mem_cons.1 hr' with rfl | hr'
        · exact hr
        · exact (h.2.1 r' hr').trans hr
      exact (rejections_le_admitted h hspan hno).trans
        (sparse_sections (inOrder_history h) a b hab)
    · rw [rejections, List.countP_cons_of_neg (by simp [hr])]
      exact ih h.1 fun r' hr' ↦ hno r' (List.mem_cons_of_mem _ hr')

/-- **The budget of a client.** Whatever logins are sent one after another to a new API process,
they are all answered, and of those with one key that are answered 401, at most `login_rate_limit`
lie in any span shorter than the window in which no login with that key succeeds. -/
theorem rejections_le (c : Crypto) (cfg : AuthSettings) (u : UnicodeTables) (tid api : ℕ)
    (ls : List LoginCall) (s : Deployment) (hs : s.attempts api = resetRateLimits) :
    ∃ log s', serveLogins c cfg u tid api ls s = some (log, s') ∧ log.length = ls.length ∧
      ∀ key a b, b - a < cfg.rate.loginRateWindow → NoSuccess key a b log →
        rejections key a b log ≤ cfg.rate.loginRateLimit.toNat := by
  obtain ⟨log, s', hlog, hlength, hconsistent, -, -⟩ :=
    exists_serveLogins c cfg u tid ls hs
  exact ⟨log, s', hlog, hlength, fun key a b ↦ rejections_le_limit hconsistent⟩

/-- Three wrong guesses, of which the limiter admits two. -/
theorem rejections_le_two :
    (serveLogins .plain { rate := ⟨2, 60⟩ } .plain 0 0
      (List.replicate 3 ⟨{}, ⟨"a", "x"⟩, fun _ ↦ {}⟩) .oneUser).any
        fun q ↦ rejections "unknown" 0 0 q.1 ≤ 2 := by
  obtain ⟨log, s', hlog, -, hle⟩ := rejections_le .plain { rate := ⟨2, 60⟩ } .plain 0 0
    (List.replicate 3 ⟨{}, ⟨"a", "x"⟩, fun _ ↦ {}⟩) .oneUser rfl
  have hno : (serveLogins .plain { rate := ⟨2, 60⟩ } .plain 0 0
      (List.replicate 3 ⟨{}, ⟨"a", "x"⟩, fun _ ↦ {}⟩) .oneUser).any
        fun q ↦ ∀ r ∈ q.1, ¬ r.Succeeded := by
    decide
  rw [hlog] at hno ⊢
  exact decide_eq_true (hle "unknown" 0 0 (by decide) fun r hr _ _ _ ↦ of_decide_eq_true hno r hr)

/-- A success refunds the failed guesses: with a limit of two, a wrong guess, a success and two more
wrong guesses are three requests answered 401 at one time. -/
theorem exists_refund : ∃ (c : Crypto) (cfg : AuthSettings) (u : UnicodeTables) (tid api : ℕ)
    (ls : List LoginCall) (s s' : Deployment) (log : List Answered) (key : String)
    (a b : Reading), s.attempts api = resetRateLimits ∧
      serveLogins c cfg u tid api ls s = some (log, s') ∧ b - a < cfg.rate.loginRateWindow ∧
      cfg.rate.loginRateLimit.toNat < rejections key a b log := by
  have hmany : (serveLogins .plain { rate := ⟨2, 60⟩ } .plain 0 0
      [⟨{}, ⟨"a", "x"⟩, fun _ ↦ {}⟩, ⟨{}, ⟨"a", "x"⟩, fun _ ↦ {}⟩, ⟨{}, ⟨"a", "p"⟩, fun _ ↦ {}⟩,
        ⟨{}, ⟨"a", "x"⟩, fun _ ↦ {}⟩] .oneUser).any fun q ↦ 2 < rejections "unknown" 0 0 q.1 := by
    decide
  obtain ⟨⟨log, s'⟩, hlog, hlt⟩ := (Option.any_eq_true _ _).1 hmany
  exact ⟨.plain, { rate := ⟨2, 60⟩ }, .plain, 0, 0, _, .oneUser, s', log, "unknown", 0, 0, rfl,
    hlog, by decide, of_decide_eq_true hlt⟩

end AssetDiscovery
