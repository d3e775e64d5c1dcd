import AssetDiscovery.Library.Pool
import Mathlib.Data.Set.Basic
import Mathlib.Logic.Function.Basic

/-!
# Fresh names

Threads that draw names, hold them, and store something under them. A `Naming` says which names an
operation hands out, which it needs, and which it uses up; by its discipline a thread stores only
under names that it has drawn itself and not used yet, its *hand*.

If the state hands out new names only, the hands of different threads stay apart and no stored name
is in a hand (`Pool.Named`). A name that is stored is then *settled*: nobody will store anything
under it again, even after it has been removed (`Named.settled`, `Settled.not_used`).
-/

set_option autoImplicit false

universe u v w x y z t

namespace Effect

variable {Op : Type u} {Res : Op → Type v} {α : Type w}
variable {Env : Type x} {State : Type y} {View : Type z} {Name : Type t}

/-- What operations do with names. -/
structure Naming (Op : Type u) (Res : Op → Type v) (Name : Type t) where
  /-- The names that an answer hands out. -/
  drawn : (o : Op) → Res o → List Name
  /-- The names under which an operation stores something. -/
  used : Op → List Name
  /-- The names under which it has done so. -/
  spent : (o : Op) → Res o → List Name
  spent_used : ∀ {o : Op} {r : Res o} {y : Name}, y ∈ spent o r → y ∈ used o

namespace Naming

variable (N : Naming Op Res Name) (Possible : (o : Op) → Res o → Prop)

/-- A thread stores under names of its hand, and each name leaves the hand when it has been used. -/
def discipline : Discipline Op Res (Set Name) where
  Allowed hand o := ∀ y ∈ N.used o, y ∈ hand
  Possible := Possible
  observe hand o r := {y | y ∈ N.drawn o r ∨ (y ∈ hand ∧ y ∉ N.spent o r)}

/-- What is left of the program keeps to the hand. -/
def Keeps (p : Program Op Res α) (hand : Set Name) : Prop :=
  p.Follows (N.discipline Possible) (fun _ _ ↦ True) hand

/-- The state hands out new names only, forgets none of them, and gets names stored only by the
operations that use them up. -/
structure Sound (Drawn Taken : State → Name → Prop) (H : ℕ → Handler Op Res Env State) : Prop where
  possible : ∀ {i o e r} {s s' : State}, H i o e s = some (r, s') → Possible o r
  fresh : ∀ {i o e r} {s s' : State} {y : Name}, H i o e s = some (r, s') → y ∈ N.drawn o r →
    ¬ Drawn s y ∧ Drawn s' y
  mono : ∀ {i o e r} {s s' : State} {y : Name}, H i o e s = some (r, s') → Drawn s y → Drawn s' y
  taken : ∀ {i o e r} {s s' : State} {y : Name}, H i o e s = some (r, s') → Taken s' y →
    Taken s y ∨ y ∈ N.spent o r

end Naming

namespace Pool

variable (N : Naming Op Res Name) (Possible : (o : Op) → Res o → Prop)
  (Drawn Taken : State → Name → Prop)

/-- The threads keep to hands that are apart, and no stored name is in one. -/
structure Hands (P : Pool Op Res α State View) (hand : ℕ → Set Name) : Prop where
  keeps : ∀ {i : ℕ} {t : Thread Op Res α View}, P.threads[i]? = some t →
    N.Keeps Possible t.program (hand i)
  apart : ∀ {i j : ℕ} {y : Name}, y ∈ hand i → y ∈ hand j → i = j
  drawn : ∀ {i : ℕ} {y : Name}, y ∈ hand i → Drawn P.shared y
  free : ∀ {i : ℕ} {y : Name}, y ∈ hand i → ¬ Taken P.shared y
  taken : ∀ {y : Name}, Taken P.shared y → Drawn P.shared y

/-- Every thread stores only under names that it has drawn itself. -/
def Named (P : Pool Op Res α State View) : Prop :=
  ∃ hand, P.Hands N Possible Drawn Taken hand

/-- Nobody will store anything under this name. -/
structure Settled (y : Name) (P : Pool Op Res α State View) : Prop where
  drawn : Drawn P.shared y
  keeps : ∀ t ∈ P.threads, ∃ hand, N.Keeps Possible t.program hand ∧ y ∉ hand

variable {N Possible Drawn Taken} {H : ℕ → Handler Op Res Env State}
  {D : Discipline Op Res View} {P P' : Pool Op Res α State View} {i : ℕ} {e : Env} {y : Name}

/-- Without processes the names in use are those of the state. -/
theorem named_empty {s : State} (h : ∀ y, Taken s y → Drawn s y) :
    (⟨s, []⟩ : Pool Op Res α State View).Named N Possible Drawn Taken :=
  ⟨fun _ ↦ ∅, fun hi ↦ absurd hi (by simp), fun hy ↦ absurd hy (Set.notMem_empty _),
    fun hy ↦ absurd hy (Set.notMem_empty _), fun hy ↦ absurd hy (Set.notMem_empty _), h _⟩

/-- The shared state may change otherwise. -/
theorem Named.share (h : P.Named N Possible Drawn Taken) {s : State}
    (hdrawn : ∀ {y}, Drawn P.shared y → Drawn s y) (htaken : ∀ {y}, Taken s y → Taken P.shared y) :
    (⟨s, P.threads⟩ : Pool Op Res α State View).Named N Possible Drawn Taken := by
  obtain ⟨hand, h⟩ := h
  exact ⟨hand, h.keeps, h.apart, fun hy ↦ hdrawn (h.drawn hy), fun hy hy' ↦ h.free hy (htaken hy'),
    fun hy ↦ hdrawn (h.taken (htaken hy))⟩

/-- A name stays settled when more names are drawn. -/
theorem Settled.share (h : P.Settled N Possible Drawn y) {s : State}
    (hdrawn : ∀ {y}, Drawn P.shared y → Drawn s y) :
    (⟨s, P.threads⟩ : Pool Op Res α State View).Settled N Possible Drawn y :=
  ⟨hdrawn h.drawn, h.keeps⟩

/-- A new thread has nothing in hand. -/
theorem Named.spawn (h : P.Named N Possible Drawn Taken) {p : Program Op Res α} {v : View}
    (hp : N.Keeps Possible p ∅) : (P.spawn p v).Named N Possible Drawn Taken := by
  obtain ⟨hand, h⟩ := h
  have hsub : ∀ {i : ℕ} {y : Name}, y ∈ Function.update hand P.threads.length ∅ i → y ∈ hand i := by
    intro i y hy
    by_cases hi : i = P.threads.length
    · rw [hi, Function.update_self] at hy
      exact absurd hy (Set.notMem_empty y)
    · rwa [Function.update_of_ne hi] at hy
  refine ⟨Function.update hand P.threads.length ∅, fun {i t} ht ↦ ?_,
    fun hi hj ↦ h.apart (hsub hi) (hsub hj), fun hy ↦ h.drawn (hsub hy),
    fun hy ↦ h.free (hsub hy), h.taken⟩
  rw [Pool.spawn, List.getElem?_append] at ht
  split at ht
  · next hi =>
    rw [Function.update_of_ne (Nat.ne_of_lt hi)]
    exact h.keeps ht
  · next hi =>
    have hlt := (List.getElem?_eq_some_iff.1 ht).1
    have hi' : i = P.threads.length := by
      rw [List.length_singleton] at hlt
      omega
    rw [hi', Function.update_self, List.mem_singleton.1 (List.mem_of_getElem? ht)]
    exact hp

/-- A name stays settled when a process joins that knows no names. -/
theorem Settled.spawn (h : P.Settled N Possible Drawn y) {p : Program Op Res α} {v : View}
    (hp : N.Keeps Possible p ∅) : (P.spawn p v).Settled N Possible Drawn y := by
  refine ⟨h.drawn, fun t ht ↦ ?_⟩
  rcases List.mem_append.1 ht with ht | ht
  · exact h.keeps t ht
  · rw [List.mem_singleton.1 ht]
    exact ⟨∅, hp, Set.notMem_empty y⟩

/-- A step uses only names of the hand of its thread. -/
theorem Named.step (hN : N.Sound Possible Drawn Taken H) (h : P.Named N Possible Drawn Taken)
    (hstep : P.step H D i e = some P') : P'.Named N Possible Drawn Taken := by
  obtain ⟨hand, h⟩ := h
  obtain ⟨o, next, v, r, s, ht, hr, rfl⟩ := step_eq_some hstep
  have hkeeps := h.keeps ht
  have hspent : ∀ {y : Name}, y ∈ N.spent o r → y ∈ hand i := fun hy ↦
    hkeeps.1 _ (N.spent_used hy)
  -- a name in a new hand has just been drawn, or was in the old one and is not used up
  have hnew : ∀ {j : ℕ} {y : Name},
      y ∈ Function.update hand i ((N.discipline Possible).observe (hand i) o r) j →
      (j = i ∧ y ∈ N.drawn o r) ∨ (y ∈ hand j ∧ y ∉ N.spent o r) := by
    intro j y hy
    by_cases hj : j = i
    · subst hj
      rw [Function.update_self] at hy
      exact hy.imp (fun hy ↦ ⟨rfl, hy⟩) id
    · rw [Function.update_of_ne hj] at hy
      exact Or.inr ⟨hy, fun hy' ↦ hj (h.apart hy (hspent hy'))⟩
  refine ⟨Function.update hand i ((N.discipline Possible).observe (hand i) o r),
    fun {j t} hj ↦ ?_, fun {j k y} hyj hyk ↦ ?_, fun {j y} hy ↦ ?_, fun {j y} hy hy' ↦ ?_,
    fun {y} hy ↦ ?_⟩
  · rcases eq_or_ne j i with rfl | hji
    · rw [List.getElem?_set_self (List.getElem?_eq_some_iff.1 ht).1] at hj
      rw [Function.update_self, ← Option.some.inj hj]
      exact hkeeps.2 r (hN.possible hr)
    · rw [List.getElem?_set_ne hji.symm] at hj
      rw [Function.update_of_ne hji]
      exact h.keeps hj
  · rcases hnew hyj with ⟨hji, hdrawn⟩ | ⟨hj, -⟩
    · rcases hnew hyk with ⟨hki, -⟩ | ⟨hk, -⟩
      · rw [hji, hki]
      · exact absurd (h.drawn hk) (hN.fresh hr hdrawn).1
    · rcases hnew hyk with ⟨-, hdrawn⟩ | ⟨hk, -⟩
      · exact absurd (h.drawn hj) (hN.fresh hr hdrawn).1
      · exact h.apart hj hk
  · rcases hnew hy with ⟨-, hdrawn⟩ | ⟨hy, -⟩
    · exact (hN.fresh hr hdrawn).2
    · exact hN.mono hr (h.drawn hy)
  · rcases hN.taken hr hy' with htaken | hspent'
    · rcases hnew hy with ⟨-, hdrawn⟩ | ⟨hy, -⟩
      · exact (hN.fresh hr hdrawn).1 (h.taken htaken)
      · exact h.free hy htaken
    · rcases hnew hy with ⟨-, hdrawn⟩ | ⟨-, hy⟩
      · exact (hN.fresh hr hdrawn).1 (h.drawn (hspent hspent'))
      · exact hy hspent'
  · rcases hN.taken hr hy with htaken | hspent'
    · exact hN.mono hr (h.taken htaken)
    · exact hN.mono hr (h.drawn (hspent hspent'))

/-- No thread asks for an operation that stores something under a settled name. -/
theorem Settled.not_used (h : P.Settled N Possible Drawn y) {o : Op} (hasks : P.asks i = some o) :
    y ∉ N.used o := by
  rw [asks] at hasks
  split at hasks
  · next o' next v ht =>
    obtain rfl := Option.some.inj hasks
    obtain ⟨hand, hkeeps, hy⟩ := h.keeps _ (List.mem_of_getElem? ht)
    exact fun hy' ↦ hy (hkeeps.1 y hy')
  · exact absurd hasks (by simp)

/-- A settled name stays settled. -/
theorem Settled.step (hN : N.Sound Possible Drawn Taken H) (h : P.Settled N Possible Drawn y)
    (hstep : P.step H D i e = some P') : P'.Settled N Possible Drawn y := by
  obtain ⟨o, next, v, r, s, ht, hr, rfl⟩ := step_eq_some hstep
  refine ⟨hN.mono hr h.drawn, fun t hmem ↦ ?_⟩
  rcases List.mem_or_eq_of_mem_set hmem with hmem | rfl
  · exact h.keeps t hmem
  · obtain ⟨hand, hkeeps, hy⟩ := h.keeps _ (List.mem_of_getElem? ht)
    refine ⟨_, hkeeps.2 r (hN.possible hr), ?_⟩
    rintro (hdrawn | ⟨hy', -⟩)
    · exact (hN.fresh hr hdrawn).1 h.drawn
    · exact hy hy'

/-- A stored name is settled. -/
theorem Named.settled (h : P.Named N Possible Drawn Taken) (hy : Taken P.shared y) :
    P.Settled N Possible Drawn y := by
  obtain ⟨hand, h⟩ := h
  refine ⟨h.taken hy, fun t ht ↦ ?_⟩
  obtain ⟨i, hi⟩ := List.mem_iff_getElem?.1 ht
  exact ⟨hand i, h.keeps hi, fun hmem ↦ h.free hmem hy⟩

end Pool

end Effect
