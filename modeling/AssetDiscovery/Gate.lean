import AssetDiscovery.Library.Runs
import AssetDiscovery.RateLimit

/-!
# Concurrent calls of the rate limiter

`enforce_login_rate_limit` reads the clock before it takes the lock, so a call can be overtaken
between the two lines: a `Gate` is one API process with its monotonic clock and the calls that have
read it and still wait for the lock. A call decides and changes the dictionary while it holds the
lock; the history of the gate lists the calls in the order in which they held it.

A call that overtook another one prunes with the later reading, and may throw away a stamp that the
overtaken call still has to count (`exists_not_sparse`). In every run in which no call finds that
this has happened, no span shorter than the window contains the readings of more than
`login_rate_limit` admitted calls (`sparse_of_inTime`).
-/

set_option autoImplicit false

namespace AssetDiscovery

open SlidingWindow Runs

/-- An API process, as far as the limiter is concerned. -/
structure Gate where
  /-- The monotonic clock. -/
  clock : Reading
  /-- The calls that wait for the lock: their keys and what they have read. -/
  waiting : List (String × Reading)
  /-- The calls that have held the lock, latest first. -/
  past : List LimiterCall
  deriving DecidableEq, Repr

namespace Gate

/-- A step of the process. -/
inductive Action where
  /-- Time passes. -/
  | tick (d : ℕ)
  /-- A call of `enforce_login_rate_limit` reads the clock. -/
  | read (key : String)
  /-- The `n`-th of the waiting calls takes the lock, decides and releases it. -/
  | enter (n : ℕ)
  /-- A call of `clear_client` takes the lock and releases it. -/
  | clear (key : String)
  deriving DecidableEq, Repr

/-- A process that starts. -/
def start (clock : Reading) : Gate :=
  ⟨clock, [], []⟩

/-- Carry out one step; `none` if there is no such call. -/
def act (g : Gate) : Action → Option Gate
  | .tick d => some { g with clock := g.clock + d }
  | .read key => some { g with waiting := g.waiting ++ [(key, g.clock)] }
  | .enter n =>
    match g.waiting[n]? with
    | some (key, now) =>
      some { g with waiting := g.waiting.eraseIdx n, past := .enforce key now :: g.past }
    | none => none
  | .clear key => some { g with past := .clear key :: g.past }

variable (cfg : RateSettings)

/-- `_attempts`. -/
def attempts (g : Gate) : Attempts :=
  after cfg g.past

/-- The readings of the admitted calls with a key since it was last cleared. -/
def admittedReadings (key : String) (g : Gate) : List Reading :=
  admitted (sections cfg key g.past)

/-- A call with this key that takes the lock finds every stamp it has to count: none of the calls
that held the lock since the key was last cleared has outlived a stamp that still counts for it. -/
def EntersInTime (key : String) (g : Gate) : Action → Prop
  | .enter n => ∀ c ∈ g.waiting[n]?, c.1 = key →
      InTime cfg.loginRateWindow c.2 (sections cfg key g.past)
  | .tick _ | .read _ | .clear _ => True

instance (key : String) (g : Gate) : DecidablePred (EntersInTime cfg key g)
  | .enter n => inferInstanceAs (Decidable (∀ c ∈ g.waiting[n]?, _))
  | .tick _ | .read _ | .clear _ => instDecidableTrue

variable {cfg} {key : String}

/-- One step keeps the bound. -/
theorem sparse_act {g g' : Gate} {a : Action}
    (h : Sparse cfg.loginRateWindow cfg.loginRateLimit.toNat (admittedReadings cfg key g))
    (hin : EntersInTime cfg key g a) (ha : g.act a = some g') :
    Sparse cfg.loginRateWindow cfg.loginRateLimit.toNat (admittedReadings cfg key g') := by
  cases a with
  | tick d =>
    obtain rfl := Option.some.inj ha
    exact h
  | read key' =>
    obtain rfl := Option.some.inj ha
    exact h
  | enter n =>
    simp only [act] at ha
    split at ha
    · next key' now hn =>
      obtain rfl := Option.some.inj ha
      exact sparse_enforce (hin (key', now) hn) h
    · exact absurd ha (by simp)
  | clear key' =>
    obtain rfl := Option.some.inj ha
    exact sparse_clear h

/-- **The bound, as long as no call is overtaken by too much.** In every run in which each call with
the key finds the stamps it has to count, no span shorter than the window contains the readings of
more than `login_rate_limit` of the calls admitted since the key was last cleared. -/
theorem sparse_of_inTime (cfg : RateSettings) (key : String) (clock : Reading) (g : Gate)
    (h : Reach act (EntersInTime cfg key) (start clock) g) :
    Sparse cfg.loginRateWindow cfg.loginRateLimit.toNat (admittedReadings cfg key g) :=
  h.invariant (fun _ _ _ hs hok ha ↦ sparse_act hs hok ha) sparse_nil

/-- A call that is overtaken by one that read the clock later. -/
theorem sparse_of_inTime_overtaken :
    Sparse 10 2 (admittedReadings ⟨2, 10⟩ "a" ⟨1, [], [.enforce "a" 0, .enforce "a" 1]⟩) :=
  sparse_of_inTime ⟨2, 10⟩ "a" 0 _ (reach_of_replay
    [.read "a", .tick 1, .read "a", .enter 1, .enter 0] (by decide))

/-- The bound does not survive every interleaving. With a limit of two and a window of ten, the
calls that read 0 and 1 are admitted, a call that reads 9 is overtaken by one that reads 11 and
throws both stamps away, and is then admitted as a third one within the window. -/
theorem exists_not_sparse : ∃ (cfg : RateSettings) (key : String) (clock : Reading) (g : Gate),
    0 < cfg.loginRateWindow ∧ Reach act (fun _ a ↦ a ≠ .clear key) (start clock) g ∧
      ¬ Sparse cfg.loginRateWindow cfg.loginRateLimit.toNat (admittedReadings cfg key g) := by
  refine ⟨⟨2, 10⟩, "a", 0, ⟨11, [], [.enforce "a" 9, .enforce "a" 11, .enforce "a" 1,
    .enforce "a" 0]⟩, by decide, ?_, ?_⟩
  · exact reach_of_replay [.read "a", .enter 0, .tick 1, .read "a", .enter 0, .tick 8,
      .read "a", .tick 2, .read "a", .enter 1, .enter 0] (by decide)
  · intro h
    exact absurd (h 0 9 (by decide)) (by decide)

end Gate

end AssetDiscovery
