import AssetDiscovery.Fqdn
import AssetDiscovery.Library.SlidingWindow
import Mathlib.Algebra.Order.Ring.Int

/-!
# The login rate limiter

`app/core/rate_limit.py`. The module-level dictionary `_attempts` is the state of one API process.
`enforce_login_rate_limit` reads the clock before it takes the lock; what it does under the lock is
one step here, and its reading is an argument.

A history of the limiter is the list of its calls in the order in which they took the lock, latest
call first (`after`). If the calls were made one after another, so that no reading is older than an
earlier one (`InOrder`), the limiter decides as one that never forgets a stamp (`pruned_eq_full`):
what a call throws away no later call asks about.
-/

set_option autoImplicit false

namespace AssetDiscovery

open SlidingWindow

/-- A reading of `time.monotonic()`, in units of the clock. -/
abbrev Reading := ℤ

/-- `settings.login_rate_limit`, and `settings.login_rate_window_seconds` in units of the clock. -/
structure RateSettings where
  loginRateLimit : ℤ := 5
  loginRateWindow : ℤ := 60

/-- What `client_ip` reads of a request. -/
structure Client where
  /-- The header `x-forwarded-for`. -/
  forwarded : Option String := none
  /-- `request.client.host`. -/
  host : Option String := none
  deriving DecidableEq, Repr

/-- `client_ip`. -/
def clientIp (u : Unicode) (request : Client) : String :=
  let forwarded := request.forwarded.getD ""
  let host := request.host.getD ""
  if forwarded ≠ "" then
    let first := u.strip (forwarded.toList.takeWhile (· ≠ ','))
    if first.isEmpty then "unknown" else String.ofList first
  else if host ≠ "" then host
  else "unknown"

/-- `_attempts`. -/
abbrev Attempts := String → List Reading

/-- `reset_rate_limits`, and the dictionary of a new process. -/
def resetRateLimits : Attempts := fun _ ↦ []

/-- `clear_client`. -/
def clearClient (key : String) (attempts : Attempts) : Attempts :=
  Function.update attempts key []

/-- What `enforce_login_rate_limit` does under the lock, for a client key and a reading of the
clock. -/
def enforceLoginRateLimit (cfg : RateSettings) (key : String) (now : Reading)
    (attempts : Attempts) : Except Exn String × Attempts :=
  let stamps := live cfg.loginRateWindow now (attempts key)
  if (stamps.length : ℤ) ≥ cfg.loginRateLimit then
    (.error (.http 429 "Too many login attempts. Please try again later."),
      Function.update attempts key stamps)
  else
    (.ok key, Function.update attempts key (stamps ++ [now]))

variable (cfg : RateSettings)

/-- The call is not answered 429. -/
def Admits (key : String) (now : Reading) (attempts : Attempts) : Prop :=
  ((live cfg.loginRateWindow now (attempts key)).length : ℤ) < cfg.loginRateLimit

instance (key : String) (now : Reading) (attempts : Attempts) :
    Decidable (Admits cfg key now attempts) :=
  inferInstanceAs (Decidable (_ < _))

variable {cfg} {key : String} {now : Reading} {attempts : Attempts}

/-- A call that is admitted adds its stamp to those that are left in the window. -/
theorem enforceLoginRateLimit_of_admits (h : Admits cfg key now attempts) :
    enforceLoginRateLimit cfg key now attempts = (.ok key, Function.update attempts key
      (live cfg.loginRateWindow now (attempts key) ++ [now])) :=
  if_neg (Int.not_le.2 h)

/-- A call that is rejected only prunes. -/
theorem enforceLoginRateLimit_of_not_admits (h : ¬ Admits cfg key now attempts) :
    enforceLoginRateLimit cfg key now attempts =
      (.error (.http 429 "Too many login attempts. Please try again later."),
        Function.update attempts key (live cfg.loginRateWindow now (attempts key))) :=
  if_pos (Int.not_lt.1 h)

/-- A call is let through exactly when it is admitted. -/
theorem enforceLoginRateLimit_isOk :
    (enforceLoginRateLimit cfg key now attempts).1.isOk = decide (Admits cfg key now attempts) := by
  by_cases h : Admits cfg key now attempts
  · rw [enforceLoginRateLimit_of_admits h, decide_eq_true h]
    rfl
  · rw [enforceLoginRateLimit_of_not_admits h, decide_eq_false h]
    rfl

/-- What a call leaves for its own key. -/
theorem enforceLoginRateLimit_self :
    (enforceLoginRateLimit cfg key now attempts).2 key =
      live cfg.loginRateWindow now (attempts key) ++
        if decide (Admits cfg key now attempts) then [now] else [] := by
  by_cases h : Admits cfg key now attempts
  · rw [enforceLoginRateLimit_of_admits h, decide_eq_true h]
    exact Function.update_self ..
  · rw [enforceLoginRateLimit_of_not_admits h, decide_eq_false h]
    simp

/-- A call leaves the other keys alone. -/
theorem enforceLoginRateLimit_of_ne {key' : String} (h : key' ≠ key) :
    (enforceLoginRateLimit cfg key now attempts).2 key' = attempts key' := by
  by_cases hadmits : Admits cfg key now attempts
  · rw [enforceLoginRateLimit_of_admits hadmits]
    exact Function.update_of_ne h ..
  · rw [enforceLoginRateLimit_of_not_admits hadmits]
    exact Function.update_of_ne h ..

/-! ### Histories -/

/-- A call of the limiter. -/
inductive LimiterCall where
  /-- `enforce_login_rate_limit`, with its client key and its reading of the clock. -/
  | enforce (key : String) (now : Reading)
  /-- `clear_client`. -/
  | clear (key : String)
  /-- `reset_rate_limits`. -/
  | reset
  deriving DecidableEq, Repr

/-- What a call leaves. -/
def LimiterCall.apply (cfg : RateSettings) : LimiterCall → Attempts → Attempts
  | .enforce key now, attempts => (enforceLoginRateLimit cfg key now attempts).2
  | .clear key, attempts => clearClient key attempts
  | .reset, _ => resetRateLimits

/-- The reading of a call that reads the clock. -/
def LimiterCall.reading? : LimiterCall → Option Reading
  | .enforce _ now => some now
  | .clear _ | .reset => none

/-- The call can change what is stored for this key. -/
def LimiterCall.Concerns (key : String) : LimiterCall → Prop
  | .enforce key' _ | .clear key' => key' = key
  | .reset => True

instance (key : String) : DecidablePred (LimiterCall.Concerns key)
  | .enforce key' _ | .clear key' => inferInstanceAs (Decidable (key' = key))
  | .reset => instDecidableTrue

variable (cfg)

/-- `_attempts` after the calls of a history, latest call first, since the process started. -/
def after (past : List LimiterCall) : Attempts :=
  past.foldr (LimiterCall.apply cfg) resetRateLimits

/-- The dictionary after two histories, one after the other. -/
theorem after_append (later earlier : List LimiterCall) :
    after cfg (later ++ earlier) = later.foldr (LimiterCall.apply cfg) (after cfg earlier) :=
  List.foldr_append

/-- The answer to a call of `enforce_login_rate_limit` after a history. -/
def answer (past : List LimiterCall) (key : String) (now : Reading) : Except Exn String :=
  (enforceLoginRateLimit cfg key now (after cfg past)).1

/-- The calls with `key` since it was last cleared: their readings, and whether they were
admitted. -/
def sections (key : String) : List LimiterCall → List (Reading × Bool)
  | [] => []
  | .enforce key' now :: past =>
    if key' = key then (now, (answer cfg past key now).isOk) :: sections key past
    else sections key past
  | .clear key' :: past => if key' = key then [] else sections key past
  | .reset :: _ => []

/-- What is stored is what the calls since the last clear have left. -/
theorem after_eq_stored (key : String) (past : List LimiterCall) :
    after cfg past key = stored cfg.loginRateWindow (sections cfg key past) := by
  induction past with
  | nil => rfl
  | cons c past ih =>
    cases c with
    | enforce key' now =>
      show (enforceLoginRateLimit cfg key' now (after cfg past)).2 key = _
      by_cases hkey : key' = key
      · subst hkey
        rw [enforceLoginRateLimit_self, sections, if_pos rfl, stored, ih, answer,
          enforceLoginRateLimit_isOk]
      · rw [enforceLoginRateLimit_of_ne (Ne.symm hkey), sections, if_neg hkey, ih]
    | clear key' =>
      show clearClient key' (after cfg past) key = _
      by_cases hkey : key' = key
      · subst hkey
        rw [sections, if_pos rfl]
        exact Function.update_self ..
      · rw [sections, if_neg hkey, ← ih]
        exact Function.update_of_ne (Ne.symm hkey) ..
    | reset => rfl

/-! ### The limiter that never forgets -/

/-- The stamps of a limiter that keeps every one until its key is cleared. -/
def fullHistory (key : String) : List LimiterCall → List Reading
  | [] => []
  | .enforce key' now :: past =>
    if key' = key ∧
        ((live cfg.loginRateWindow now (fullHistory key past)).length : ℤ) < cfg.loginRateLimit
    then fullHistory key past ++ [now] else fullHistory key past
  | .clear key' :: past => if key' = key then [] else fullHistory key past
  | .reset :: _ => []

/-- That limiter admits a call. -/
def FullAdmits (past : List LimiterCall) (key : String) (now : Reading) : Prop :=
  ((live cfg.loginRateWindow now (fullHistory cfg key past)).length : ℤ) < cfg.loginRateLimit

instance (past : List LimiterCall) (key : String) (now : Reading) :
    Decidable (FullAdmits cfg past key now) :=
  inferInstanceAs (Decidable (_ < _))

variable {cfg}

/-- It does not look at the calls of other keys. -/
theorem fullHistory_filter (key : String) (past : List LimiterCall) :
    fullHistory cfg key (past.filter (LimiterCall.Concerns key)) = fullHistory cfg key past := by
  induction past with
  | nil => rfl
  | cons c past ih =>
    by_cases hc : c.Concerns key
    · rw [List.filter_cons_of_pos (by simpa using hc)]
      cases c with
      | enforce key' now => rw [fullHistory, fullHistory, ih]
      | clear key' => rw [fullHistory, fullHistory, ih]
      | reset => rfl
    · rw [List.filter_cons_of_neg (by simpa using hc), ih]
      cases c with
      | enforce key' now => rw [fullHistory, if_neg fun h ↦ hc h.1]
      | clear key' => exact (if_neg hc).symm
      | reset => exact absurd trivial hc

/-- It does not remember the calls it rejects. -/
theorem fullHistory_rejected {earlier : List LimiterCall} {key' : String} {t : Reading}
    (hrejected : ¬ FullAdmits cfg earlier key' t) (key : String) (later : List LimiterCall) :
    fullHistory cfg key (later ++ .enforce key' t :: earlier) =
      fullHistory cfg key (later ++ earlier) := by
  induction later with
  | nil =>
    rw [List.nil_append, fullHistory, if_neg]
    · rfl
    · rintro ⟨rfl, hfew⟩
      exact hrejected hfew
  | cons c later ih =>
    rw [List.cons_append, List.cons_append]
    cases c with
    | enforce key' now => rw [fullHistory, fullHistory, ih]
    | clear key' => rw [fullHistory, fullHistory, ih]
    | reset => rfl

/-! ### Calls one after another -/

/-- No call reads an older clock than an earlier one. -/
def InOrder (past : List LimiterCall) : Prop :=
  (past.filterMap LimiterCall.reading?).Pairwise (· ≥ ·)

instance : DecidablePred InOrder := fun _ ↦
  inferInstanceAs (Decidable (List.Pairwise _ _))

variable {past : List LimiterCall}

/-- The readings of the sections of a key are those of calls. -/
theorem reading_of_mem_sections {s : Reading × Bool} (h : s ∈ sections cfg key past) :
    s.1 ∈ past.filterMap LimiterCall.reading? := by
  induction past with
  | nil => exact absurd h List.not_mem_nil
  | cons c past ih =>
    cases c with
    | enforce key' t =>
      show s.1 ∈ t :: past.filterMap LimiterCall.reading?
      by_cases hkey : key' = key
      · rw [sections, if_pos hkey] at h
        rcases List.mem_cons.1 h with rfl | h
        · exact List.mem_cons_self
        · exact List.mem_cons_of_mem _ (ih h)
      · rw [sections, if_neg hkey] at h
        exact List.mem_cons_of_mem _ (ih h)
    | clear key' =>
      rw [List.filterMap_cons_none rfl]
      by_cases hkey : key' = key
      · rw [sections, if_pos hkey] at h
        exact absurd h List.not_mem_nil
      · rw [sections, if_neg hkey] at h
        exact ih h
    | reset => exact absurd h List.not_mem_nil

theorem InOrder.of_cons {c : LimiterCall} (h : InOrder (c :: past)) : InOrder past :=
  List.Pairwise.sublist ((List.sublist_cons_self c past).filterMap _) h

/-- Without overtaking, nothing that still counts has been thrown away. -/
theorem InOrder.inTime (h : InOrder (.enforce key now :: past)) (key' : String) :
    InTime cfg.loginRateWindow now (sections cfg key' past) :=
  inTime_of_le fun _ hs ↦ List.rel_of_pairwise_cons h (reading_of_mem_sections hs)

/-- A call for which nothing that still counts has been thrown away is admitted if fewer than
`login_rate_limit` admitted calls count. -/
theorem admits_iff (h : InTime cfg.loginRateWindow now (sections cfg key past)) :
    Admits cfg key now (after cfg past) ↔
      ((live cfg.loginRateWindow now (admitted (sections cfg key past))).length : ℤ) <
        cfg.loginRateLimit := by
  rw [Admits, after_eq_stored, live_stored h]

/-- The admitted calls are the stamps of the limiter that never forgets. -/
theorem admitted_sections (h : InOrder past) (key : String) :
    admitted (sections cfg key past) = fullHistory cfg key past := by
  induction past with
  | nil => rfl
  | cons c past ih =>
    have ih := ih h.of_cons
    cases c with
    | enforce key' now =>
      rw [sections, fullHistory]
      by_cases hkey : key' = key
      · subst hkey
        -- in order, so the pruned stamps and the full history give the same count
        have hiff : Admits cfg key' now (after cfg past) ↔ FullAdmits cfg past key' now := by
          rw [admits_iff (h.inTime key'), ih, FullAdmits]
        rw [if_pos rfl, admitted, ih, answer, enforceLoginRateLimit_isOk]
        by_cases hfew : FullAdmits cfg past key' now
        · rw [decide_eq_true (hiff.2 hfew), if_pos rfl]
          exact (if_pos ⟨rfl, hfew⟩).symm
        · rw [decide_eq_false (mt hiff.1 hfew), if_neg Bool.false_ne_true, List.append_nil]
          exact (if_neg fun h ↦ hfew h.2).symm
      · rw [if_neg hkey, if_neg fun h ↦ hkey h.1, ih]
    | clear key' =>
      rw [sections, fullHistory]
      by_cases hkey : key' = key
      · rw [if_pos hkey, if_pos hkey]
        rfl
      · rw [if_neg hkey, if_neg hkey, ih]
    | reset => rfl

/-- The limiter and the one that never forgets admit the same calls. -/
theorem admits_iff_fullAdmits (h : InOrder (.enforce key now :: past)) :
    Admits cfg key now (after cfg past) ↔ FullAdmits cfg past key now := by
  rw [admits_iff (h.inTime key), admitted_sections h.of_cons, FullAdmits]

/-- A call is answered without an error exactly if it is admitted. -/
theorem answer_eq_ok : answer cfg past key now = .ok key ↔ Admits cfg key now (after cfg past) := by
  by_cases h : Admits cfg key now (after cfg past)
  · simp [answer, enforceLoginRateLimit_of_admits h, h]
  · simp [answer, enforceLoginRateLimit_of_not_admits h, h]

/-- Limiters that never forget and admit the same call give it the same answer. -/
theorem answer_congr {past' : List LimiterCall} (h : InOrder (.enforce key now :: past))
    (h' : InOrder (.enforce key now :: past'))
    (hfull : fullHistory cfg key past' = fullHistory cfg key past) :
    answer cfg past' key now = answer cfg past key now := by
  have hiff : Admits cfg key now (after cfg past') ↔ Admits cfg key now (after cfg past) := by
    rw [admits_iff_fullAdmits h', admits_iff_fullAdmits h, FullAdmits, FullAdmits, hfull]
  by_cases hadmits : Admits cfg key now (after cfg past)
  · rw [answer, answer, enforceLoginRateLimit_of_admits hadmits,
      enforceLoginRateLimit_of_admits (hiff.2 hadmits)]
  · rw [answer, answer, enforceLoginRateLimit_of_not_admits hadmits,
      enforceLoginRateLimit_of_not_admits fun h ↦ hadmits (hiff.1 h)]

/-! ### The bound -/

/-- One call keeps the bound if it counts every stamp that it has to. -/
theorem sparse_enforce {key' : String}
    (hin : key' = key → InTime cfg.loginRateWindow now (sections cfg key past))
    (h : Sparse cfg.loginRateWindow cfg.loginRateLimit.toNat (admitted (sections cfg key past))) :
    Sparse cfg.loginRateWindow cfg.loginRateLimit.toNat
      (admitted (sections cfg key (.enforce key' now :: past))) := by
  rw [sections]
  by_cases hkey : key' = key
  · subst hkey
    rw [if_pos rfl, admitted, answer, enforceLoginRateLimit_isOk]
    by_cases hadmits : Admits cfg key' now (after cfg past)
    · rw [decide_eq_true hadmits]
      exact h.append (Int.lt_toNat.2 ((admits_iff (hin rfl)).1 hadmits))
    · rw [decide_eq_false hadmits, if_neg Bool.false_ne_true, List.append_nil]
      exact h
  · rw [if_neg hkey]
    exact h

/-- Forgetting stamps leaves those that are kept sparse. -/
theorem sparse_clear {key' : String}
    (h : Sparse cfg.loginRateWindow cfg.loginRateLimit.toNat (admitted (sections cfg key past))) :
    Sparse cfg.loginRateWindow cfg.loginRateLimit.toNat
      (admitted (sections cfg key (.clear key' :: past))) := by
  rw [sections]
  by_cases hkey : key' = key
  · rw [if_pos hkey]
    exact sparse_nil
  · rw [if_neg hkey]
    exact h

/-- After calls made one after another, no span shorter than the window holds more than
`login_rate_limit` of the calls admitted since the key was last cleared. -/
theorem sparse_sections (h : InOrder past) :
    Sparse cfg.loginRateWindow cfg.loginRateLimit.toNat (admitted (sections cfg key past)) := by
  induction past with
  | nil => exact sparse_nil
  | cons c past ih =>
    have ih := ih h.of_cons
    cases c with
    | enforce key' now => exact sparse_enforce (fun _ ↦ h.inTime key) ih
    | clear key' => exact sparse_clear ih
    | reset => exact sparse_nil

/-! ### The main theorem -/

/-- **The pruned limiter is the one with the full history.** After calls made one after another, a
call is admitted exactly when fewer than `login_rate_limit` admitted calls with its key, since it
was last cleared, are less than the window old. The answer is the one that would have been given had
the calls that concern other keys never been made, and had any call that was rejected not been
made. -/
theorem pruned_eq_full (cfg : RateSettings) (key : String) (now : Reading)
    (past : List LimiterCall) (h : InOrder (.enforce key now :: past)) :
    (answer cfg past key now = .ok key ↔
      (((admitted (sections cfg key past)).filter fun t ↦ now - t < cfg.loginRateWindow).length : ℤ)
        < cfg.loginRateLimit) ∧
    answer cfg (past.filter (LimiterCall.Concerns key)) key now = answer cfg past key now ∧
    ∀ later earlier key' t, past = later ++ .enforce key' t :: earlier →
      answer cfg earlier key' t ≠ .ok key' →
      answer cfg (later ++ earlier) key now = answer cfg past key now := by
  have hsub : ∀ {past' : List LimiterCall}, past'.Sublist past →
      InOrder (.enforce key now :: past') := fun hsub ↦
    List.Pairwise.sublist ((hsub.cons_cons _).filterMap _) h
  refine ⟨?_, ?_, ?_⟩
  · rw [answer_eq_ok]
    exact admits_iff (h.inTime key)
  · exact answer_congr h (hsub List.filter_sublist) (fullHistory_filter key past)
  · rintro later earlier key' t rfl hrejected
    have hearlier : InOrder (.enforce key' t :: earlier) :=
      List.Pairwise.sublist ((List.sublist_append_right later _).filterMap _) h.of_cons
    refine answer_congr h (hsub ((List.sublist_cons_self _ earlier).append_left later)) ?_
    refine (fullHistory_rejected (fun hfull ↦ hrejected ?_) key later).symm
    exact answer_eq_ok.2 ((admits_iff_fullAdmits hearlier).2 hfull)

/-- With a limit of two and a window of ten, the third of three calls is rejected and the fourth,
after the first has aged, admitted. -/
theorem pruned_eq_full_four :
    answer ⟨2, 10⟩ [.enforce "a" 2, .enforce "a" 1, .enforce "a" 0] "a" 10 = .ok "a" ∧
    answer ⟨2, 10⟩ [.enforce "a" 1, .enforce "a" 0] "a" 10 =
      answer ⟨2, 10⟩ [.enforce "a" 2, .enforce "a" 1, .enforce "a" 0] "a" 10 := by
  obtain ⟨hiff, -, hrejected⟩ := pruned_eq_full ⟨2, 10⟩ "a" 10
    [.enforce "a" 2, .enforce "a" 1, .enforce "a" 0] (by decide)
  exact ⟨hiff.2 (by decide), hrejected [] _ "a" 2 rfl (by decide)⟩

end AssetDiscovery
