import AssetDiscovery.Library.Program

/-!
# What is known of a shared state

A program that shares its state with others does not know it exactly: between two of its operations
the others may change the state in every respect that they are free to change. `K k s` says that `k`
is known of the state `s`, and `Secures` is the total-correctness rule for a program that goes by
what it knows: before each operation it speaks of *all* the states of which the same is known.

A program that runs alone is the case in which nobody uses that freedom (`Secures.ensures`). A rule
that is proved once therefore serves for a run alone and for a thread among others, which takes its
next step in any state of which it knows enough (`secures_perform`).

What is known may also say how much the operations so far have cost. `Secures.run` reads it back as
the `tally` of a run.
-/

set_option autoImplicit false

universe u v w x y z

namespace Effect

namespace Program

variable {Op : Type u} {Res : Op → Type v} {α : Type w} {β : Type w}
variable {Env : Type x} {State : Type y} {Info : Type z}

/-! ### The cost of a run -/

/-- What the operations of a run cost together. -/
def tally (H : Handler Op Res Env State) (cost : Op → ℕ) :
    Program Op Res α → (ℕ → Env) → State → ℕ
  | .pure _, _, _ => 0
  | .perform o next, ω, s =>
    match H o (ω 0) s with
    | none => 0
    | some (r, s') => cost o + (next r).tally H cost (fun n ↦ ω (n + 1)) s'

/-- The cost of an operation and of the rest. -/
theorem tally_perform {H : Handler Op Res Env State} {cost : Op → ℕ} {o : Op}
    {next : Res o → Program Op Res α} {ω : ℕ → Env} {s s' : State} {r : Res o}
    (h : H o (ω 0) s = some (r, s')) :
    (perform o next).tally H cost ω s =
      cost o + (next r).tally H cost (fun n ↦ ω (n + 1)) s' := by
  rw [tally, h]

/-! ### The rule -/

variable (H : Handler Op Res Env State) (K : Info → State → Prop) (R : Info → Op → Info → Prop)

/-- In every state of which `k` is known the program can go on, knows enough again after each
operation, by a development that `R` allows, and ends knowing what `Q` says of its result. -/
def Secures (Q : α → Info → Prop) : Program Op Res α → Info → Prop
  | .pure a, k => ∀ s, K k s → Q a k
  | .perform o next, k => ∀ s e, K k s →
    ∃ r s' k', H o e s = some (r, s') ∧ K k' s' ∧ R k o k' ∧ (next r).Secures Q k'

variable {H K R} {Q : α → Info → Prop} {k : Info}

/-- Whatever the input is, the operation is carried out, the knowledge of its outcome is right, and
the rest secures the same. -/
theorem secures_perform {o : Op} {next : Res o → Program Op Res α} :
    (perform o next).Secures H K R Q k ↔ ∀ s e, K k s →
      ∃ r s' k', H o e s = some (r, s') ∧ K k' s' ∧ R k o k' ∧ (next r).Secures H K R Q k' :=
  Iff.rfl

/-- A program may use that there is a state of which the same is known. -/
theorem secures_of_known {p : Program Op Res α} (h : ∀ s, K k s → p.Secures H K R Q k) :
    p.Secures H K R Q k := by
  cases p with
  | pure a => exact fun s hs ↦ h s hs s hs
  | perform o next => exact fun s e hs ↦ h s hs s e hs

/-- A weaker end is secured as well. -/
theorem Secures.mono {Q' : α → Info → Prop} {p : Program Op Res α}
    (h : p.Secures H K R Q k) (hQ : ∀ a k s, K k s → Q a k → Q' a k) :
    p.Secures H K R Q' k := by
  induction p generalizing k with
  | pure a => exact fun s hs ↦ hQ a k s hs (h s hs)
  | perform o next ih =>
    intro s e hs
    obtain ⟨r, s', k', hr, hs', hR, hnext⟩ := h s e hs
    exact ⟨r, s', k', hr, hs', hR, ih r hnext⟩

/-- What a program secures it secures when the environment supplies only some of the inputs. -/
theorem Secures.restrict {p : Program Op Res α} (h : p.Secures H K R Q k) (f : Env → Env) :
    p.Secures (fun o e ↦ H o (f e)) K R Q k := by
  induction p generalizing k with
  | pure a => exact h
  | perform o next ih =>
    intro s e hs
    obtain ⟨r, s', k', hr, hs', hR, hnext⟩ := h s (f e) hs
    exact ⟨r, s', k', hr, hs', hR, ih r hnext⟩

/-- The rule of sequential composition. -/
theorem secures_bind {Q : β → Info → Prop} {p : Program Op Res α} {f : α → Program Op Res β} :
    (p.bind f).Secures H K R Q k ↔
      p.Secures H K R (fun a k ↦ (f a).Secures H K R Q k) k := by
  induction p generalizing k with
  | pure a => exact ⟨fun h _ _ ↦ h, fun h ↦ secures_of_known h⟩
  | perform o next ih =>
    rw [perform_bind, secures_perform, secures_perform]
    simp only [ih]

/-! ### Running alone -/

/-- Run alone, the program keeps its knowledge up. -/
theorem Secures.ensures {p : Program Op Res α} (h : p.Secures H K R Q k) {s : State}
    (hs : K k s) :
    p.Ensures H (fun _ ↦ True) (fun s ↦ ∃ k, K k s) (fun a s ↦ ∃ k, K k s ∧ Q a k) s := by
  induction p generalizing k s with
  | pure a => exact ⟨⟨k, hs⟩, k, hs, h s hs⟩
  | perform o next ih =>
    refine ⟨⟨k, hs⟩, fun e _ ↦ ?_⟩
    obtain ⟨r, s', k', hr, hs', -, hnext⟩ := h s e hs
    exact ⟨r, s', hr, ih r hnext hs'⟩

/-- Run alone, the program runs to its end. If what is known includes what has been spent, it knows
at the end what the run has cost. -/
theorem Secures.run {p : Program Op Res α} (h : p.Secures H K R Q k) (cost : Op → ℕ)
    (spent : Info → ℕ) (hspent : ∀ {k o k'}, R k o k' → spent k' = spent k + cost o) {s : State}
    (hs : K k s) (ω : ℕ → Env) :
    ∃ a ω' s' k', p.run H ω s = some (a, ω', s') ∧ K k' s' ∧ Q a k' ∧
      spent k' = spent k + p.tally H cost ω s := by
  induction p generalizing k s ω with
  | pure a => exact ⟨a, ω, s, k, rfl, hs, h s hs, rfl⟩
  | perform o next ih =>
    obtain ⟨r, s', k', hr, hs', hR, hnext⟩ := h s (ω 0) hs
    obtain ⟨a, ω', s'', k'', hrun, hs'', hQ, hk''⟩ := ih r hnext hs' fun n ↦ ω (n + 1)
    refine ⟨a, ω', s'', k'', ?_, hs'', hQ, ?_⟩
    · rw [run_perform, hr]
      exact hrun
    · rw [hk'', hspent hR, tally_perform hr, Nat.add_assoc]

end Program

end Effect
