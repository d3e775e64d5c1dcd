import AssetDiscovery.Library.Program
import Mathlib.Data.List.Basic

/-!
# Interleaved programs

A **pool** is a shared state and a list of threads; a thread is what is left of its program, next
to a *view*: a summary of the answers the thread has received so far, kept by an observer that
reads each operation with its answer and never influences the program. A step of the pool lets one
thread perform one operation.

A `Discipline` says which operations a thread may ask for in each view. `Follows` checks a program
against a discipline by looking at the program alone, for all answers; `Pool.Disciplined` carries
that check through every step. An invariant of a pool of disciplined threads can then be stated and
proved on the shared state and the views only, without mentioning what is left of any program.
-/

universe u v w x y z

namespace Effect

variable {Op : Type u} {Res : Op → Type v} {α : Type w} {β : Type w}
variable {Env : Type x} {State : Type y} {View : Type z}

/-- Which operations a thread may ask for in a view, which answers it can get, and how the answer
changes the view. -/
structure Discipline (Op : Type u) (Res : Op → Type v) (View : Type z) where
  /-- A thread with this view may ask for this operation. -/
  Allowed : View → Op → Prop
  /-- An answer that this operation can give. -/
  Possible : (o : Op) → Res o → Prop
  /-- The view after an answer. -/
  observe : View → (o : Op) → Res o → View

namespace Program

/-- From a view on, the program asks only for allowed operations, whatever it is answered, and
ends with a result and a view that satisfy `Q`. -/
def Follows (D : Discipline Op Res View) (Q : α → View → Prop) :
    Program Op Res α → View → Prop
  | .pure a, v => Q a v
  | .perform o next, v =>
    D.Allowed v o ∧ ∀ r, D.Possible o r → (next r).Follows D Q (D.observe v o r)

variable {D : Discipline Op Res View}

@[simp]
theorem follows_pure {Q : α → View → Prop} {a : α} {v : View} :
    (pure a : Program Op Res α).Follows D Q v ↔ Q a v :=
  Iff.rfl

/-- The operation is allowed now, and after any possible answer the rest follows the discipline. -/
theorem follows_perform {Q : α → View → Prop} {o : Op} {next : Res o → Program Op Res α}
    {v : View} :
    (perform o next).Follows D Q v ↔
      D.Allowed v o ∧ ∀ r, D.Possible o r → (next r).Follows D Q (D.observe v o r) :=
  Iff.rfl

/-- A weaker end is reached as well. -/
theorem Follows.mono {Q Q' : α → View → Prop} {p : Program Op Res α} {v : View}
    (h : p.Follows D Q v) (hQ : ∀ a v, Q a v → Q' a v) : p.Follows D Q' v := by
  induction p generalizing v with
  | pure a => exact hQ a v h
  | perform o next ih => exact ⟨h.1, fun r hr ↦ ih r (h.2 r hr)⟩

theorem follows_congr {Q Q' : α → View → Prop} {p : Program Op Res α} {v : View}
    (hQ : ∀ a v, Q a v ↔ Q' a v) : p.Follows D Q v ↔ p.Follows D Q' v :=
  ⟨fun h ↦ h.mono fun a v ↦ (hQ a v).1, fun h ↦ h.mono fun a v ↦ (hQ a v).2⟩

/-- The rule of sequential composition. -/
theorem follows_bind {Q : β → View → Prop} {p : Program Op Res α} {f : α → Program Op Res β}
    {v : View} :
    (p.bind f).Follows D Q v ↔ p.Follows D (fun a v ↦ (f a).Follows D Q v) v := by
  induction p generalizing v with
  | pure a => rfl
  | perform o next ih =>
    rw [perform_bind, follows_perform, follows_perform]
    exact and_congr_right fun _ ↦ forall_congr' fun r ↦ imp_congr_right fun _ ↦ ih r

/-- A program that follows a discipline follows another one as a part of a larger system, if that
one allows there what the first allows. -/
theorem Follows.lift {Op' : Type*} {Res' : Op' → Type*} {View' : Type*} (ι : Op → Op')
    (back : (o : Op) → Res' (ι o) → Res o) (D' : Discipline Op' Res' View') {f : View → View'}
    (hallowed : ∀ v o, D.Allowed v o → D'.Allowed (f v) (ι o))
    (hpossible : ∀ o r, D'.Possible (ι o) r → D.Possible o (back o r))
    (hobserve : ∀ v o r, D'.observe (f v) (ι o) r = f (D.observe v o (back o r)))
    {Q : α → View → Prop} {p : Program Op Res α} {v : View} (h : p.Follows D Q v) :
    (p.lift ι back).Follows D' (fun a v' ↦ ∃ v, v' = f v ∧ Q a v) (f v) := by
  induction p generalizing v with
  | pure a => exact ⟨v, rfl, h⟩
  | perform o next ih =>
    refine ⟨hallowed v o h.1, fun r hr ↦ ?_⟩
    rw [hobserve]
    exact ih _ (h.2 _ (hpossible o r hr))

/-- A program that follows a discipline follows another one from a related view, if what the first
allows is allowed by the second and leads to related views again. -/
theorem Follows.simulate {View' : Type*} {D' : Discipline Op Res View'} {S : View → View' → Prop}
    (hS : ∀ v v' o, S v v' → D.Allowed v o → D'.Allowed v' o ∧ ∀ r, D'.Possible o r →
      D.Possible o r ∧ S (D.observe v o r) (D'.observe v' o r))
    {Q : α → View → Prop} {p : Program Op Res α} {v : View} {v' : View'} (h : p.Follows D Q v)
    (hv : S v v') : p.Follows D' (fun a v' ↦ ∃ v, S v v' ∧ Q a v) v' := by
  induction p generalizing v v' with
  | pure a => exact ⟨v, hv, h⟩
  | perform o next ih =>
    obtain ⟨hallowed, hnext⟩ := hS v v' o hv h.1
    refine ⟨hallowed, fun r hr ↦ ?_⟩
    obtain ⟨hpossible, hv'⟩ := hnext r hr
    exact ih r (h.2 r hpossible) hv'

/-! ### Disciplined programs run alone -/

section Run

variable {H : Handler Op Res Env State} {Q : α → View → Prop}

/-- If every allowed operation is carried out and keeps `J`, a program that follows the discipline
runs to its end, in a final view of which `J` holds. -/
theorem Follows.run {J : View → State → Prop}
    (hstep : ∀ {v o e s}, D.Allowed v o → J v s →
      ∃ r s', H o e s = some (r, s') ∧ D.Possible o r ∧ J (D.observe v o r) s')
    {p : Program Op Res α} {v : View} (hp : p.Follows D Q v) {s : State} (h : J v s)
    (ω : ℕ → Env) : ∃ a ω' s' v', p.run H ω s = some (a, ω', s') ∧ Q a v' ∧ J v' s' := by
  induction p generalizing v s ω with
  | pure a => exact ⟨a, ω, s, v, rfl, hp, h⟩
  | perform o next ih =>
    obtain ⟨r, s', hr, hpossible, hJ⟩ := hstep (e := ω 0) hp.1 h
    obtain ⟨a, ω', s'', v', hrun, hQ, hJ'⟩ := ih r (hp.2 r hpossible) hJ fun n ↦ ω (n + 1)
    refine ⟨a, ω', s'', v', ?_, hQ, hJ'⟩
    rw [run_perform, hr]
    exact hrun

/-- If every allowed operation either satisfies `P` and keeps `J`, or violates `P` and leads from
`J` to `B`, which is never left again, then a run from `J` ends in `J` if all its operations satisfy
`P`, and in `B` if one of them does not. -/
theorem Follows.run_or {J B : View → State → Prop} {P : State → (o : Op) → Res o → Prop}
    (hstep : ∀ {v o e s}, D.Allowed v o → J v s →
      ∃ r s', H o e s = some (r, s') ∧ D.Possible o r ∧
        ((P s o r ∧ J (D.observe v o r) s') ∨ (¬ P s o r ∧ B (D.observe v o r) s')))
    (hstay : ∀ {v o e s}, D.Allowed v o → B v s →
      ∃ r s', H o e s = some (r, s') ∧ D.Possible o r ∧ B (D.observe v o r) s')
    {p : Program Op Res α} {v : View} (hp : p.Follows D Q v) {s : State} (h : J v s)
    (ω : ℕ → Env) :
    ∃ a ω' s' v', p.run H ω s = some (a, ω', s') ∧ Q a v' ∧
      ((p.Throughout H P ω s ∧ J v' s') ∨ (¬ p.Throughout H P ω s ∧ B v' s')) := by
  induction p generalizing v s ω with
  | pure a => exact ⟨a, ω, s, v, rfl, hp, Or.inl ⟨trivial, h⟩⟩
  | perform o next ih =>
    obtain ⟨r, s', hr, hpossible, hJ⟩ := hstep (e := ω 0) hp.1 h
    rw [run_perform, hr, throughout_perform hr]
    rcases hJ with ⟨hP, hJ⟩ | ⟨hP, hB⟩
    · obtain ⟨a, ω', s'', v', hrun, hQ, hend⟩ := ih r (hp.2 r hpossible) hJ fun n ↦ ω (n + 1)
      refine ⟨a, ω', s'', v', hrun, hQ, hend.imp (fun h ↦ ⟨⟨hP, h.1⟩, h.2⟩) fun h ↦ ⟨?_, h.2⟩⟩
      exact fun hall ↦ h.1 hall.2
    · obtain ⟨a, ω', s'', v', hrun, hQ, hB'⟩ :=
        Follows.run hstay (hp.2 r hpossible) hB fun n ↦ ω (n + 1)
      exact ⟨a, ω', s'', v', hrun, hQ, Or.inr ⟨fun hall ↦ hP hall.1, hB'⟩⟩

end Run

end Program

/-! ### Views -/

/-- The views with which one view is replaced contain the new one. -/
theorem mem_set_self {vs : List View} {i : ℕ} {v v' : View} (hi : vs[i]? = some v) :
    v' ∈ vs.set i v' :=
  List.mem_set (List.getElem?_eq_some_iff.1 hi).1 v'

/-- What holds of some view still holds of some view after one of them is replaced, unless it held
of that one. -/
theorem exists_mem_set {vs : List View} {i : ℕ} {v v' : View} {P : View → Prop}
    (hi : vs[i]? = some v) (h : ∃ u ∈ vs, P u) : P v ∨ ∃ u ∈ vs.set i v', P u := by
  obtain ⟨u, hu, hPu⟩ := h
  obtain ⟨j, hj⟩ := List.mem_iff_getElem?.1 hu
  by_cases hij : i = j
  · subst hij
    rw [hi] at hj
    exact Or.inl (Option.some.inj hj ▸ hPu)
  · refine Or.inr ⟨u, List.mem_of_getElem? (i := j) ?_, hPu⟩
    rwa [List.getElem?_set_ne hij]

/-- A view after one has been added was there before, or is the new one. -/
theorem getElem?_append_view {vs : List View} {i : ℕ} {u v : View}
    (h : (vs ++ [v])[i]? = some u) : vs[i]? = some u ∨ u = v := by
  rw [List.getElem?_append] at h
  split at h
  · exact Or.inl h
  · exact Or.inr (List.mem_singleton.1 (List.mem_of_getElem? h))

/-- A view after one has been replaced is the new one, or that of another index. -/
theorem getElem?_set_view {vs : List View} {i j : ℕ} {u v : View}
    (h : (vs.set i v)[j]? = some u) : (j = i ∧ u = v) ∨ (j ≠ i ∧ vs[j]? = some u) := by
  by_cases hji : j = i
  · subst hji
    have hlt : j < vs.length := by
      simpa using (List.getElem?_eq_some_iff.1 h).1
    rw [List.getElem?_set_self hlt] at h
    exact Or.inl ⟨rfl, (Option.some.inj h).symm⟩
  · rw [List.getElem?_set_ne (Ne.symm hji)] at h
    exact Or.inr ⟨hji, h⟩

/-- What is left of a program, and the view of its thread. -/
structure Thread (Op : Type u) (Res : Op → Type v) (α : Type w) (View : Type z) where
  /-- What the thread has still to do. -/
  program : Program Op Res α
  /-- The summary of the answers it has had. -/
  view : View

/-- The thread has nothing left to do. -/
def Thread.IsDone (t : Thread Op Res α View) : Prop :=
  ∃ a, t.program = .pure a

instance (t : Thread Op Res α View) : Decidable t.IsDone :=
  match h : t.program with
  | .pure a => isTrue ⟨a, h⟩
  | .perform _ _ => isFalse fun ⟨a, ha⟩ ↦ by
    rw [h] at ha
    exact absurd ha (by simp)

/-- A shared state and the threads that work on it; a thread is named by its index. -/
structure Pool (Op : Type u) (Res : Op → Type v) (α : Type w) (State : Type y)
    (View : Type z) where
  /-- The state every operation works on. -/
  shared : State
  /-- The threads, in the order in which they were started. -/
  threads : List (Thread Op Res α View)

namespace Pool

variable (H : ℕ → Handler Op Res Env State) (D : Discipline Op Res View)

/-- The views of all threads. -/
def views (P : Pool Op Res α State View) : List View :=
  P.threads.map Thread.view

/-- Thread `i` performs its next operation with input `e`. -/
def step (i : ℕ) (e : Env) (P : Pool Op Res α State View) : Option (Pool Op Res α State View) :=
  match P.threads[i]? with
  | some ⟨.perform o next, v⟩ =>
    match H i o e P.shared with
    | some (r, s) => some ⟨s, P.threads.set i ⟨next r, D.observe v o r⟩⟩
    | none => none
  | _ => none

/-- A new thread. -/
def spawn (p : Program Op Res α) (v : View) (P : Pool Op Res α State View) :
    Pool Op Res α State View :=
  { P with threads := P.threads ++ [⟨p, v⟩] }

variable {H D}

/-- What a step of a pool is: one thread, one operation, one answer. -/
theorem step_eq_some {i : ℕ} {e : Env} {P P' : Pool Op Res α State View}
    (h : P.step H D i e = some P') :
    ∃ o next v r s, P.threads[i]? = some ⟨.perform o next, v⟩ ∧
      H i o e P.shared = some (r, s) ∧
      P' = ⟨s, P.threads.set i ⟨next r, D.observe v o r⟩⟩ := by
  rw [step] at h
  split at h
  · next o next v ht =>
    split at h
    · next r s hr => exact ⟨o, next, v, r, s, ht, hr, (Option.some.inj h).symm⟩
    · exact absurd h (by simp)
  · exact absurd h (by simp)

/-- Every thread follows the discipline from its view on, and ends in a result and a view that are
final together. -/
def Disciplined (D : Discipline Op Res View) (Final : α → View → Prop)
    (P : Pool Op Res α State View) : Prop :=
  ∀ t ∈ P.threads, t.program.Follows D Final t.view

variable {Final : α → View → Prop}

/-- A new process that keeps to the discipline joins those that do. -/
theorem Disciplined.spawn {P : Pool Op Res α State View} (h : P.Disciplined D Final)
    {p : Program Op Res α} {v : View} (hp : p.Follows D Final v) :
    (P.spawn p v).Disciplined D Final := by
  intro t ht
  rcases List.mem_append.1 ht with ht | ht
  · exact h t ht
  · rw [List.mem_singleton.1 ht]
    exact hp

/-- The operation that thread `i` performs next. -/
def asks (i : ℕ) (P : Pool Op Res α State View) : Option Op :=
  match P.threads[i]? with
  | some ⟨.perform o _, _⟩ => some o
  | _ => none

/-- A process that asks for an operation has not ended. -/
theorem asks_eq_some {i : ℕ} {P : Pool Op Res α State View} {o : Op} (h : P.asks i = some o) :
    ∃ next v, P.threads[i]? = some ⟨.perform o next, v⟩ := by
  rw [asks] at h
  split at h
  · next o' next v ht =>
    obtain rfl := Option.some.inj h
    exact ⟨next, v, ht⟩
  · exact absurd h (by simp)

/-- The result of thread `i`, if it is done. -/
def result (i : ℕ) (P : Pool Op Res α State View) : Option α :=
  match P.threads[i]? with
  | some ⟨.pure a, _⟩ => some a
  | _ => none

/-- A process with a result has ended. -/
theorem result_eq_some {i : ℕ} {P : Pool Op Res α State View} {a : α} (h : P.result i = some a) :
    ∃ v, P.threads[i]? = some ⟨.pure a, v⟩ := by
  rw [result] at h
  split at h
  · next a' v ht =>
    obtain rfl := Option.some.inj h
    exact ⟨v, ht⟩
  · exact absurd h (by simp)

/-- One step of a disciplined pool, seen from the views: some thread asks for an operation its view
allows, the operation is carried out on the shared state, and only that thread's view changes, as
the discipline says. The pool stays disciplined. -/
theorem Disciplined.step {i : ℕ} {e : Env} {P P' : Pool Op Res α State View}
    (h : P.Disciplined D Final) (hstep : P.step H D i e = some P')
    (hH : ∀ {i o e s r s'}, H i o e s = some (r, s') → D.Possible o r) :
    P'.Disciplined D Final ∧
      ∃ v o r, P.views[i]? = some v ∧ P.asks i = some o ∧ D.Allowed v o ∧
        H i o e P.shared = some (r, P'.shared) ∧ P'.views = P.views.set i (D.observe v o r) := by
  obtain ⟨o, next, v, r, s, ht, hr, rfl⟩ := step_eq_some hstep
  have hfollows := h _ (List.mem_of_getElem? ht)
  refine ⟨?_, v, o, r, ?_, ?_, hfollows.1, hr, ?_⟩
  · intro t hmem
    rcases List.mem_or_eq_of_mem_set hmem with hmem | rfl
    · exact h t hmem
    · exact hfollows.2 r (hH hr)
  · rw [views, List.getElem?_map, ht]
    rfl
  · rw [asks, ht]
  · rw [views, views, List.map_set]

/-- A thread of a disciplined pool that is done has a final result and view. -/
theorem Disciplined.final {P : Pool Op Res α State View} (h : P.Disciplined D Final) {i : ℕ}
    {a : α} (ha : P.result i = some a) : ∃ v, P.views[i]? = some v ∧ Final a v := by
  obtain ⟨v, ht⟩ := result_eq_some ha
  refine ⟨v, ?_, h _ (List.mem_of_getElem? ht)⟩
  rw [views, List.getElem?_map, ht]
  rfl

/-! ### A second discipline -/

/-- Next to its own view, each thread has one of `vs`, from which it follows the discipline `D'`. -/
structure Follows {View' : Type*} (D' : Discipline Op Res View') (Final : α → View' → Prop)
    (vs : List View') (P : Pool Op Res α State View) : Prop where
  length : vs.length = P.threads.length
  program : ∀ {i : ℕ} {t : Thread Op Res α View} {v : View'}, P.threads[i]? = some t →
    vs[i]? = some v → t.program.Follows D' Final v

section

variable {View' : Type*} {D' : Discipline Op Res View'} {Final' : α → View' → Prop}
  {vs : List View'} {P P' : Pool Op Res α State View}

/-- Only the threads matter. -/
theorem Follows.of_threads (h : P.Follows D' Final' vs) (hP' : P'.threads = P.threads) :
    P'.Follows D' Final' vs where
  length := h.length.trans (congrArg List.length hP'.symm)
  program ht := h.program (hP' ▸ ht)

/-- A new process that follows a second discipline joins those that do. -/
theorem Follows.spawn (h : P.Follows D' Final' vs) {p : Program Op Res α} {v : View} {v' : View'}
    (hp : p.Follows D' Final' v') : (P.spawn p v).Follows D' Final' (vs ++ [v']) where
  length := by simp [Pool.spawn, h.length]
  program := by
    intro j t l ht hl
    by_cases hj : j < P.threads.length
    · rw [Pool.spawn, List.getElem?_append_left hj] at ht
      rw [List.getElem?_append_left (h.length.symm ▸ hj)] at hl
      exact h.program ht hl
    · rw [Pool.spawn, List.getElem?_append_right (Nat.le_of_not_lt hj)] at ht
      rw [List.getElem?_append_right (h.length.symm ▸ Nat.le_of_not_lt hj)] at hl
      obtain rfl := List.mem_singleton.1 (List.mem_of_getElem? ht)
      obtain rfl := List.mem_singleton.1 (List.mem_of_getElem? hl)
      exact hp

/-- The step of a thread, seen from the second discipline. -/
theorem Follows.step (h : P.Follows D' Final' vs) {i : ℕ} {e : Env}
    (hstep : P.step H D i e = some P')
    (hH : ∀ {i o e s r s'}, H i o e s = some (r, s') → D'.Possible o r) :
    ∃ v o r, vs[i]? = some v ∧ P.asks i = some o ∧ D'.Allowed v o ∧
      H i o e P.shared = some (r, P'.shared) ∧
      P'.Follows D' Final' (vs.set i (D'.observe v o r)) := by
  obtain ⟨o, next, l, r, s, ht, hr, rfl⟩ := step_eq_some hstep
  have hlt : i < vs.length := h.length.symm ▸ (List.getElem?_eq_some_iff.1 ht).1
  have hv : vs[i]? = some vs[i] := List.getElem?_eq_getElem hlt
  have hfollows := h.program ht hv
  refine ⟨vs[i], o, r, hv, by rw [asks, ht], hfollows.1, hr, by simp [h.length], ?_⟩
  intro j t v hj hl
  rcases getElem?_set_view hl with ⟨rfl, rfl⟩ | ⟨hji, hl⟩
  · rw [List.getElem?_set_self (List.getElem?_eq_some_iff.1 ht).1] at hj
    rw [← Option.some.inj hj]
    exact hfollows.2 r (hH hr)
  · rw [List.getElem?_set_ne (Ne.symm hji)] at hj
    exact h.program hj hl

end

end Pool

end Effect
