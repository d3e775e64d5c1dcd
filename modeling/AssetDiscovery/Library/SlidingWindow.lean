import Mathlib.Algebra.Order.Group.Defs
import Mathlib.Data.List.Basic
import Mathlib.Tactic.Abel

/-!
# Sliding windows

A limiter over a sliding window admits an event at `now` if fewer than `limit` of the stamps it
remembers are less than `window` old. Two questions about it are independent of what it limits.

* When does forgetting stamps change nothing? A limiter that decides in *sections*, each at a
  reading of the clock, throws away in every section what does not count at its reading (`stored`).
  Asked at `now`, it counts what a limiter that keeps everything counts (`live_stored`), unless an
  earlier section has outlived a stamp that still counts at `now`.
* What does admission bound? `Sparse` says that no span shorter than the window holds more than
  `limit` stamps. Admitting one more event keeps it (`Sparse.append`) whenever the limiter has
  counted every stamp that still counts. This needs no order among the stamps.
-/

set_option autoImplicit false

universe u

namespace SlidingWindow

variable {T : Type u} [AddCommGroup T] [LinearOrder T]

/-- The stamps that still count at `now`. -/
def live (window now : T) (stamps : List T) : List T :=
  stamps.filter fun t ↦ now - t < window

/-- No span shorter than the window holds more than `limit` of the stamps. -/
def Sparse (window : T) (limit : ℕ) (stamps : List T) : Prop :=
  ∀ a b, b - a < window → stamps.countP (fun t ↦ a ≤ t ∧ t ≤ b) ≤ limit

variable {window now now' t : T} {limit : ℕ} {stamps stamps' : List T}

@[simp]
theorem mem_live : t ∈ live window now stamps ↔ t ∈ stamps ∧ now - t < window := by
  simp [live]

@[simp]
theorem live_nil : live window now [] = [] :=
  rfl

@[simp]
theorem live_append :
    live window now (stamps ++ stamps') = live window now stamps ++ live window now stamps' :=
  List.filter_append ..

/-! ### What may be forgotten -/

/-- The admitted stamps of a list of sections, latest section first. A section is a reading of the
clock and whether it admitted. -/
def admitted : List (T × Bool) → List T
  | [] => []
  | s :: sections => admitted sections ++ if s.2 then [s.1] else []

/-- What is left of them if every section forgets what does not count at its reading. -/
def stored (window : T) : List (T × Bool) → List T
  | [] => []
  | s :: sections => live window s.1 (stored window sections) ++ if s.2 then [s.1] else []

/-- No section has outlived a stamp that was admitted before it and still counts at `now`. -/
def InTime (window now : T) (sections : List (T × Bool)) : Prop :=
  sections.Pairwise fun s' s ↦ s.2 = true → now - s.1 < window → s'.1 - s.1 < window

instance (window now : T) (sections : List (T × Bool)) : Decidable (InTime window now sections) :=
  inferInstanceAs (Decidable (List.Pairwise _ _))

variable {s : T × Bool} {sections : List (T × Bool)}

omit [AddCommGroup T] [LinearOrder T] in
/-- The admitted stamps are the readings of the sections that admitted. -/
theorem mem_admitted : t ∈ admitted sections ↔ (t, true) ∈ sections := by
  induction sections with
  | nil => simp [admitted]
  | cons s sections ih =>
    obtain ⟨r, b⟩ := s
    cases b <;> simp [admitted, ih, or_comm]

/-- Only admitted stamps are stored. -/
theorem stored_subset (h : t ∈ stored window sections) : t ∈ admitted sections := by
  induction sections with
  | nil => exact h
  | cons s sections ih =>
    rw [stored, List.mem_append] at h
    rw [admitted, List.mem_append]
    exact h.imp_left fun h ↦ ih (mem_live.1 h).1

theorem InTime.of_cons (h : InTime window now (s :: sections)) : InTime window now sections :=
  List.Pairwise.of_cons h

/-- What has been forgotten in time makes no difference. -/
theorem live_stored (h : InTime window now sections) :
    live window now (stored window sections) = live window now (admitted sections) := by
  induction sections with
  | nil => rfl
  | cons s sections ih =>
    rw [stored, admitted, live_append, live_append, ← ih h.of_cons]
    congr 1
    rw [live, live, List.filter_filter]
    refine List.filter_congr fun t ht ↦ ?_
    have hsection : (t, true) ∈ sections := mem_admitted.1 (stored_subset ht)
    by_cases hlive : now - t < window
    · have hs : s.1 - t < window :=
        List.rel_of_pairwise_cons h hsection rfl hlive
      simp [hlive, hs]
    · simp [hlive]

/-- Sections whose readings are at most `now` have outlived nothing that still counts. -/
theorem inTime_of_le [IsOrderedAddMonoid T] (h : ∀ s ∈ sections, s.1 ≤ now) :
    InTime window now sections := by
  refine List.pairwise_iff_forall_sublist.2 fun {s' s} hsub _ hlive ↦ ?_
  have hs' : s'.1 ≤ now := h s' (hsub.subset List.mem_cons_self)
  exact (sub_le_sub_right hs' s.1).trans_lt hlive

/-! ### What admission bounds -/

/-- Before the first call nothing is admitted. -/
theorem sparse_nil : Sparse window limit [] :=
  fun _ _ _ ↦ Nat.zero_le _

/-- One more stamp keeps a list sparse if fewer than `limit` of the others count at its time. -/
theorem Sparse.append [IsOrderedAddMonoid T] (h : Sparse window limit stamps)
    (hfew : (live window now stamps).length < limit) : Sparse window limit (stamps ++ [now]) := by
  intro a b hab
  rw [List.countP_append, List.countP_singleton]
  by_cases hnow : a ≤ now ∧ now ≤ b
  · -- every stamp of the span counts at `now`
    have hcount : stamps.countP (fun t ↦ a ≤ t ∧ t ≤ b) ≤ (live window now stamps).length := by
      rw [live, ← List.countP_eq_length_filter]
      refine List.countP_mono_left fun t _ ht ↦ ?_
      obtain ⟨hat, -⟩ : a ≤ t ∧ t ≤ b := by simpa using ht
      simpa using (sub_le_sub hnow.2 hat).trans_lt hab
    rw [if_pos (by simpa using hnow)]
    omega
  · rw [if_neg (by simpa using hnow)]
    exact h a b hab

end SlidingWindow
