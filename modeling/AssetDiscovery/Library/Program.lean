import Mathlib.Data.Nat.Notation

/-!
# Programs over atomic operations

A **program** is a tree of atomic operations: it is either finished with a result, or it asks for
one operation and continues with whatever that operation answers. The same program can then be run
in several ways without being written twice — alone to its end (`run`), alone and stopped after any
number of operations (`stopAfter`), or interleaved with others.

What an operation does is given by a `Handler`: from an input of the environment (everything the
program does not decide) and a state, an answer and a new state, or `none` while the operation has
to wait.

`Ensures` is the total-correctness rule for a program run alone: whatever allowed inputs the
environment supplies, no operation waits, the invariant `I` holds before every operation and at the
end, and the result satisfies `Q`. It composes along `bind` (`ensures_bind`), and `Ensures.run`
and `Ensures.stopAfter` read it back as a fact about the two ways of running.
-/

universe u v w x y z

namespace Effect

/-- A tree of operations of type `Op`, where `o` is answered in `Res o`, with results in `α`. -/
inductive Program (Op : Type u) (Res : Op → Type v) (α : Type w) : Type (max u v w) where
  /-- The program is finished. -/
  | pure (a : α)
  /-- The program asks for `o` and continues with its answer. -/
  | perform (o : Op) (next : Res o → Program Op Res α)

/-- What operations do: none of them decides the input, and a `none` is an operation that has to
wait in this state. -/
abbrev Handler (Op : Type u) (Res : Op → Type v) (Env : Type x) (State : Type y) :=
  (o : Op) → Env → State → Option (Res o × State)

namespace Program

variable {Op : Type u} {Res : Op → Type v} {α : Type w} {β : Type z} {γ : Type z}
variable {Env : Type x} {State : Type y}

/-- Continue with `f` from the result. -/
def bind (p : Program Op Res α) (f : α → Program Op Res β) : Program Op Res β :=
  match p with
  | .pure a => f a
  | .perform o next => .perform o fun r ↦ (next r).bind f

@[simp]
theorem pure_bind (a : α) (f : α → Program Op Res β) : (pure a).bind f = f a :=
  rfl

@[simp]
theorem perform_bind (o : Op) (next : Res o → Program Op Res α) (f : α → Program Op Res β) :
    (perform o next).bind f = perform o fun r ↦ (next r).bind f :=
  rfl

/-! ### Programs as parts of larger systems -/

section Lift

variable {Op' : Type*} {Res' : Op' → Type*}

/-- The program over a larger set of operations: `ι` names each operation there, and `back` reads
its answer. -/
def lift (ι : Op → Op') (back : (o : Op) → Res' (ι o) → Res o) :
    Program Op Res α → Program Op' Res' α
  | .pure a => .pure a
  | .perform o next => .perform (ι o) fun r ↦ (next (back o r)).lift ι back

end Lift

/-! ### Running alone -/

section Run

variable (H : Handler Op Res Env State)

/-- Run a program alone to its end, taking one input of the stream for each operation. The inputs
that are left are returned with the result. -/
def run : Program Op Res α → (ℕ → Env) → State → Option (α × (ℕ → Env) × State)
  | .pure a, ω, s => some (a, ω, s)
  | .perform o next, ω, s =>
    match H o (ω 0) s with
    | none => none
    | some (r, s') => (next r).run (fun n ↦ ω (n + 1)) s'

/-- The state in which a program that runs alone is found after `n` operations, or earlier if it
has ended or waits. -/
def stopAfter : ℕ → Program Op Res α → (ℕ → Env) → State → State
  | 0, _, _, s => s
  | _ + 1, .pure _, _, s => s
  | n + 1, .perform o next, ω, s =>
    match H o (ω 0) s with
    | none => s
    | some (r, s') => stopAfter n (next r) (fun n ↦ ω (n + 1)) s'

@[simp]
theorem run_pure (a : α) (ω : ℕ → Env) (s : State) :
    (pure a : Program Op Res α).run H ω s = some (a, ω, s) :=
  rfl

/-- Code that begins with an operation runs the rest in the state that the operation leaves. -/
theorem run_perform (o : Op) (next : Res o → Program Op Res α) (ω : ℕ → Env) (s : State) :
    (perform o next).run H ω s =
      (H o (ω 0) s).bind fun q ↦ (next q.1).run H (fun n ↦ ω (n + 1)) q.2 := by
  rw [run]
  cases H o (ω 0) s <;> rfl

/-- Each operation of a run, with the state before it and its answer, satisfies `P`. -/
def Throughout (P : State → (o : Op) → Res o → Prop) :
    Program Op Res α → (ℕ → Env) → State → Prop
  | .pure _, _, _ => True
  | .perform o next, ω, s =>
    match H o (ω 0) s with
    | none => True
    | some (r, s') => P s o r ∧ (next r).Throughout P (fun n ↦ ω (n + 1)) s'

/-- What holds of every operation holds of the first one and of the rest. -/
theorem throughout_perform {H : Handler Op Res Env State} {P : State → (o : Op) → Res o → Prop}
    {o : Op} {next : Res o → Program Op Res α} {ω : ℕ → Env} {s s' : State} {r : Res o}
    (h : H o (ω 0) s = some (r, s')) :
    (perform o next).Throughout H P ω s ↔
      P s o r ∧ (next r).Throughout H P (fun n ↦ ω (n + 1)) s' := by
  rw [Throughout, h]

/-- Whether all operations of a run satisfy a decidable property can be computed. -/
instance Throughout.decidable {H : Handler Op Res Env State}
    {P : State → (o : Op) → Res o → Prop} [∀ s o r, Decidable (P s o r)] :
    (p : Program Op Res α) → (ω : ℕ → Env) → (s : State) → Decidable (p.Throughout H P ω s)
  | .pure _, _, _ => isTrue trivial
  | .perform o next, ω, s =>
    match h : H o (ω 0) s with
    | none => isTrue (by rw [Throughout, h]; trivial)
    | some (r, s') =>
      have : Decidable ((next r).Throughout H P (fun n ↦ ω (n + 1)) s') :=
        Throughout.decidable (next r) _ s'
      decidable_of_iff _ (throughout_perform h).symm

/-- A sequence runs its first part and then, with what is left of the inputs, the second. -/
theorem run_bind (p : Program Op Res α) (f : α → Program Op Res β) (ω : ℕ → Env) (s : State) :
    (p.bind f).run H ω s = (p.run H ω s).bind fun q ↦ (f q.1).run H q.2.1 q.2.2 := by
  induction p generalizing ω s with
  | pure a => rfl
  | perform o next ih =>
    rw [perform_bind, run_perform, run_perform]
    cases H o (ω 0) s with
    | none => rfl
    | some q => exact ih q.1 _ _

end Run

/-! ### Total correctness of a program run alone -/

section Ensures

variable (H : Handler Op Res Env State) (ok : Env → Prop) (I : State → Prop)

/-- Under inputs that satisfy `ok`, the program run alone never waits, keeps `I` before every
operation and at the end, and ends in a result and a state that satisfy `Q`. -/
def Ensures (Q : α → State → Prop) : Program Op Res α → State → Prop
  | .pure a, s => I s ∧ Q a s
  | .perform o next, s =>
    I s ∧ ∀ e, ok e → ∃ r s', H o e s = some (r, s') ∧ (next r).Ensures Q s'

variable {H ok I} {Q : α → State → Prop}

@[simp]
theorem ensures_pure {a : α} {s : State} :
    (pure a : Program Op Res α).Ensures H ok I Q s ↔ I s ∧ Q a s :=
  Iff.rfl

/-- The invariant holds now, and after any allowed input the rest ensures the same. -/
theorem ensures_perform {o : Op} {next : Res o → Program Op Res α} {s : State} :
    (perform o next).Ensures H ok I Q s ↔
      I s ∧ ∀ e, ok e → ∃ r s', H o e s = some (r, s') ∧ (next r).Ensures H ok I Q s' :=
  Iff.rfl

/-- The invariant holds where the code begins. -/
theorem Ensures.invariant {p : Program Op Res α} {s : State} (h : p.Ensures H ok I Q s) : I s := by
  cases p with
  | pure a => exact h.1
  | perform o next => exact h.1

/-- A weaker end is ensured as well. -/
theorem Ensures.mono {Q' : α → State → Prop} {p : Program Op Res α} {s : State}
    (h : p.Ensures H ok I Q s) (hQ : ∀ a s, I s → Q a s → Q' a s) : p.Ensures H ok I Q' s := by
  induction p generalizing s with
  | pure a => exact ⟨h.1, hQ a s h.1 h.2⟩
  | perform o next ih =>
    refine ⟨h.1, fun e he ↦ ?_⟩
    obtain ⟨r, s', hr, hnext⟩ := h.2 e he
    exact ⟨r, s', hr, ih r hnext⟩

/-- The rule of sequential composition. -/
theorem ensures_bind {p : Program Op Res α} {f : α → Program Op Res β} {Q : β → State → Prop}
    {s : State} :
    (p.bind f).Ensures H ok I Q s ↔
      p.Ensures H ok I (fun a s ↦ (f a).Ensures H ok I Q s) s := by
  induction p generalizing s with
  | pure a => exact ⟨fun h ↦ ⟨h.invariant, h⟩, fun h ↦ h.2⟩
  | perform o next ih =>
    rw [perform_bind, ensures_perform, ensures_perform]
    simp only [ih]

/-- A program that ensures `Q` runs to its end, whatever allowed inputs it is given. -/
theorem Ensures.run {p : Program Op Res α} {s : State} (h : p.Ensures H ok I Q s)
    {ω : ℕ → Env} (hω : ∀ n, ok (ω n)) :
    ∃ a ω' s', p.run H ω s = some (a, ω', s') ∧ I s' ∧ Q a s' := by
  induction p generalizing s ω with
  | pure a => exact ⟨a, ω, s, rfl, h.1, h.2⟩
  | perform o next ih =>
    obtain ⟨r, s', hr, hnext⟩ := h.2 (ω 0) (hω 0)
    obtain ⟨a, ω', s'', hrun, hI, hQ⟩ := ih r hnext fun n ↦ hω (n + 1)
    refine ⟨a, ω', s'', ?_, hI, hQ⟩
    rw [run_perform, hr]
    exact hrun

/-- Wherever a program that runs alone is stopped, the invariant holds. -/
theorem Ensures.stopAfter {p : Program Op Res α} {s : State} (h : p.Ensures H ok I Q s)
    {ω : ℕ → Env} (hω : ∀ n, ok (ω n)) (n : ℕ) : I (p.stopAfter H n ω s) := by
  induction p generalizing s ω n with
  | pure a =>
    cases n with
    | zero => exact h.1
    | succ n => exact h.1
  | perform o next ih =>
    cases n with
    | zero => exact h.1
    | succ n =>
      obtain ⟨r, s', hr, hnext⟩ := h.2 (ω 0) (hω 0)
      simp only [Program.stopAfter, hr]
      exact ih r hnext (fun n ↦ hω (n + 1)) n

end Ensures

end Program

end Effect
