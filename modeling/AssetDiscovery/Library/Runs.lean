import Mathlib.Data.Nat.Notation
import Mathlib.Logic.Relation

/-!
# Runs of a state machine

A state machine is a function `act` from a state and an action to the next state, or `none` if the
action cannot be carried out. A run is a sequence of actions, each of which satisfies a condition
`ok` on the state it is carried out in (`Reach`). What every step keeps holds at the end of every
run (`Reach.invariant`), and a list of actions that can be replayed is a run (`reach_of_replay`).
Where a statement refers to earlier states, a run is given step by step (`Trace`), and every run can
be (`Reach.exists_trace`).
-/

set_option autoImplicit false

universe u v

namespace Runs

open Relation

variable {S : Type u} {A : Type v} (act : S → A → Option S) (ok : S → A → Prop)

/-- One step of a run whose actions satisfy `ok`. -/
def Step (s s' : S) : Prop :=
  ∃ a, ok s a ∧ act s a = some s'

/-- `s'` is reached from `s` by actions that satisfy `ok`. -/
def Reach : S → S → Prop :=
  ReflTransGen (Step act ok)

/-- Carry out a list of actions, as long as each satisfies `ok`. -/
def replay [∀ s a, Decidable (ok s a)] : List A → S → Option S
  | [], s => some s
  | a :: as, s => if ok s a then (act s a).bind (replay as) else none

variable {act ok}

/-- A list of actions that can be replayed is a run. -/
theorem reach_of_replay [∀ s a, Decidable (ok s a)] (as : List A) {s s' : S}
    (h : replay act ok as s = some s') : Reach act ok s s' := by
  induction as generalizing s with
  | nil =>
    rw [Option.some.inj h]
    exact .refl
  | cons a as ih =>
    rw [replay] at h
    split at h
    · next hok =>
      obtain ⟨s₁, h₁, h₂⟩ := Option.bind_eq_some_iff.1 h
      exact .head ⟨a, hok, h₁⟩ (ih h₂)
    · exact absurd h (by simp)

variable (act ok) in
/-- A state with a decidable property is reached by replaying a list of actions. -/
theorem exists_reach [∀ s a, Decidable (ok s a)] (P : S → Prop) [DecidablePred P] (as : List A)
    {s : S} (h : (replay act ok as s).any fun s' ↦ P s') : ∃ s', Reach act ok s s' ∧ P s' := by
  obtain ⟨s', hs', hP⟩ := (Option.any_eq_true _ _).1 h
  exact ⟨s', reach_of_replay as hs', by simpa using hP⟩

/-- An invariant of every step holds at the end of every run. -/
theorem Reach.invariant {I : S → Prop} (hstep : ∀ s a s', I s → ok s a → act s a = some s' → I s')
    {s s' : S} (h : Reach act ok s s') (hs : I s) : I s' := by
  induction h with
  | refl => exact hs
  | tail _ hlast ih =>
    obtain ⟨a, hok, ha⟩ := hlast
    exact hstep _ a _ ih hok ha

variable (act) in
/-- The first `n` steps of a run, state by state and action by action. -/
structure Trace (s : S) (w : ℕ → S) (a : ℕ → A) (n : ℕ) : Prop where
  start : w 0 = s
  step : ∀ k < n, act (w k) (a k) = some (w (k + 1))

/-- What holds at the start and is kept by each step holds all along. -/
theorem Trace.invariant {s : S} {w : ℕ → S} {a : ℕ → A} {n : ℕ} (h : Trace act s w a n)
    {I : ℕ → Prop} (hstart : I 0)
    (hstep : ∀ k, k < n → act (w k) (a k) = some (w (k + 1)) → I k → I (k + 1)) :
    ∀ k ≤ n, I k := by
  intro k
  induction k with
  | zero => exact fun _ ↦ hstart
  | succ k ih => exact fun hk ↦ hstep k hk (h.step k hk) (ih (Nat.le_of_succ_le hk))

/-- What is reached is reached step by step, by actions that satisfy the condition. -/
theorem Reach.exists_trace [Nonempty A] {s s' : S} (h : Reach act ok s s') :
    ∃ w a n, Trace act s w a n ∧ (∀ k < n, ok (w k) (a k)) ∧ w n = s' := by
  induction h with
  | refl =>
    exact ⟨fun _ ↦ s, fun _ ↦ Classical.ofNonempty, 0,
      ⟨rfl, fun _ hk ↦ absurd hk (Nat.not_lt_zero _)⟩, fun _ hk ↦ absurd hk (Nat.not_lt_zero _),
      rfl⟩
  | @tail _ s' _ hlast ih =>
    obtain ⟨w, a, n, htrace, hall, rfl⟩ := ih
    obtain ⟨b, hok, hb⟩ := hlast
    refine ⟨fun k ↦ if k ≤ n then w k else s', fun k ↦ if k < n then a k else b, n + 1,
      ⟨by simp [htrace.start], fun k hk ↦ ?_⟩, fun k hk ↦ ?_, if_neg (Nat.not_succ_le_self n)⟩
    · rcases Nat.lt_succ_iff_lt_or_eq.1 hk with hlt | rfl
      · simp [hlt, Nat.le_of_lt hlt, Nat.succ_le_of_lt hlt, htrace.step k hlt]
      · rw [if_pos (Nat.le_refl k), if_neg (Nat.lt_irrefl k), if_neg (Nat.not_succ_le_self k), hb]
    · rcases Nat.lt_succ_iff_lt_or_eq.1 hk with hlt | rfl
      · simpa only [if_pos (Nat.le_of_lt hlt), if_pos hlt] using hall k hlt
      · simpa only [if_pos (Nat.le_refl k), if_neg (Nat.lt_irrefl k)] using hok

/-- Each state of a run is reached from each earlier one. -/
theorem Trace.reach {s : S} {w : ℕ → S} {a : ℕ → A} {n k : ℕ} (h : Trace act s w a n) (hk : k ≤ n) :
    Reach act (fun _ _ ↦ True) (w k) (w n) := by
  obtain ⟨j, rfl⟩ := Nat.exists_eq_add_of_le hk
  have hlater : ∀ i ≤ j, Reach act (fun _ _ ↦ True) (w k) (w (k + i)) := by
    intro i
    induction i with
    | zero => exact fun _ ↦ .refl
    | succ i ih =>
      exact fun hi ↦ .tail (ih (Nat.le_of_succ_le hi))
        ⟨a (k + i), trivial, h.step (k + i) (Nat.add_lt_add_left hi k)⟩
  exact hlater j (Nat.le_refl j)

variable (act) in
/-- The states that a sequence of actions leads through; an action that cannot be carried out
changes nothing. -/
def states (a : ℕ → A) (s : S) : ℕ → S
  | 0 => s
  | k + 1 => (act (states a s k) (a k)).getD (states a s k)

/-- A sequence of actions that can all be carried out is a run. -/
theorem trace_of_isSome {a : ℕ → A} {s : S} {n : ℕ}
    (h : ∀ k < n, (act (states act a s k) (a k)).isSome) : Trace act s (states act a s) a n := by
  refine ⟨rfl, fun k hk ↦ ?_⟩
  obtain ⟨s', hs'⟩ := Option.isSome_iff_exists.1 (h k hk)
  rw [states, hs']
  rfl

end Runs
