import AssetDiscovery.Library.Pool
import Mathlib.Logic.Hydra
import Mathlib.Order.RelClasses

/-!
# Pools come to rest

A program is a well-founded tree, so a thread performs only finitely many operations, but their
number is not bounded before it starts: it can depend on what is answered. `Program.Below` is the
order in which a program gets shorter. A step of a pool replaces one program of its list by one
below it (`Relation.CutExpand`), so a pool with a fixed list of threads comes to rest.

A pool that also *starts* threads comes to rest if every start is paid for out of a budget
(`Pool.acc_of_budget`). The threads that were there before need not keep to anything: they may even
raise the budget, since each of their steps uses up something of theirs.
-/

set_option autoImplicit false

universe u v w x y z

namespace Effect

open Relation

variable {Op : Type u} {Res : Op → Type v} {α : Type w}
variable {Env : Type x} {State : Type y} {View : Type z}

namespace Program

/-- The first program is what some answer to the first operation of the second one leaves. -/
inductive Below : Program Op Res α → Program Op Res α → Prop
  | intro (o : Op) (next : Res o → Program Op Res α) (r : Res o) :
    Below (next r) (.perform o next)

/-- A program is finished after finitely many operations, whatever it is answered. -/
theorem wellFounded_below :
    WellFounded (Below : Program Op Res α → Program Op Res α → Prop) := by
  refine ⟨fun p ↦ ?_⟩
  induction p with
  | pure a => exact ⟨_, nofun⟩
  | perform o next ih => exact ⟨_, fun q ⟨_, _, r⟩ ↦ ih r⟩

end Program

/-- Replacing one element of a list by a smaller one makes its multiset smaller. -/
theorem cutExpand_set {β : Type*} {r : β → β → Prop} {l : List β} {i : ℕ} {a b : β}
    (hi : l[i]? = some a) (h : r b a) : CutExpand r (l.set i b : Multiset β) (l : Multiset β) := by
  refine ⟨{b}, a, fun c hc ↦ Multiset.mem_singleton.1 hc ▸ h, ?_⟩
  induction l generalizing i with
  | nil => exact absurd hi (by simp)
  | cons c l ih =>
    cases i with
    | zero =>
      obtain rfl : c = a := by simpa using hi
      show ((b :: l : List β) : Multiset β) + {c} = ((c :: l : List β) : Multiset β) + {b}
      rw [← Multiset.cons_coe, ← Multiset.cons_coe, ← Multiset.singleton_add,
        ← Multiset.singleton_add]
      ac_rfl
    | succ i =>
      show ((c :: l.set i b : List β) : Multiset β) + {a} = ((c :: l : List β) : Multiset β) + {b}
      rw [← Multiset.cons_coe, ← Multiset.cons_coe, Multiset.cons_add, Multiset.cons_add,
        ih (by simpa using hi)]

namespace Pool

/-- What the threads have still to do. -/
def programs (P : Pool Op Res α State View) : List (Program Op Res α) :=
  P.threads.map Thread.program

/-- Thread `i` performs one operation. -/
def Moves (i : ℕ) (P P' : Pool Op Res α State View) : Prop :=
  ∃ p p', P.programs[i]? = some p ∧ p'.Below p ∧ P'.programs = P.programs.set i p'

theorem moves_of_step {H : ℕ → Handler Op Res Env State} {D : Discipline Op Res View} {i : ℕ}
    {e : Env} {P P' : Pool Op Res α State View} (h : P.step H D i e = some P') : P.Moves i P' := by
  obtain ⟨o, next, v, r, s, ht, -, rfl⟩ := step_eq_some h
  refine ⟨_, next r, ?_, .intro o next r, ?_⟩
  · rw [programs, List.getElem?_map, ht]
    rfl
  · rw [programs, programs, List.map_set]

/-! ### Starting threads -/

section Budget

variable {Ghost : Type*} (old : ℕ) (budget : Pool Op Res α State View → Ghost → ℕ)

/-- What a step of the pool is paid with: with an operation of one of the first `old` threads, out
of the budget, or with an operation of another thread that does not raise the budget. -/
inductive Paid (P : Pool Op Res α State View) (g : Ghost) (P' : Pool Op Res α State View)
    (g' : Ghost) : Prop
  | old {i : ℕ} (hi : i < old) (h : P.Moves i P')
  | start (h : P'.programs.take old = P.programs.take old) (hlt : budget P' g' < budget P g)
  | other {i : ℕ} (hi : old ≤ i) (h : P.Moves i P') (hle : budget P' g' ≤ budget P g)

/-- What is left of the first `old` threads, then the budget, then what is left of the others. -/
def rank (P : Pool Op Res α State View) (g : Ghost) :
    Multiset (Program Op Res α) × ℕ × Multiset (Program Op Res α) :=
  (P.programs.take old, budget P g, P.programs.drop old)

/-- The order of the ranks. -/
def RankLt : (Multiset (Program Op Res α) × ℕ × Multiset (Program Op Res α)) →
    (Multiset (Program Op Res α) × ℕ × Multiset (Program Op Res α)) → Prop :=
  Prod.Lex (CutExpand Program.Below) (Prod.Lex (· < ·) (CutExpand Program.Below))

theorem wellFounded_rankLt :
    WellFounded
      (RankLt : _ → Multiset (Program Op Res α) × ℕ × Multiset (Program Op Res α) → Prop) :=
  Program.wellFounded_below.cutExpand.prod_lex
    (wellFounded_lt.prod_lex Program.wellFounded_below.cutExpand)

variable {old budget}

/-- A step that is paid for lowers the rank. -/
theorem Paid.rankLt {P P' : Pool Op Res α State View} {g g' : Ghost}
    (h : Paid old budget P g P' g') : RankLt (rank old budget P' g') (rank old budget P g) := by
  rcases h with ⟨hi, p, p', hp, hbelow, hset⟩ | ⟨htake, hlt⟩ | ⟨hi, ⟨p, p', hp, hbelow, hset⟩, hle⟩
  · refine Prod.Lex.left _ _ ?_
    rw [hset, List.take_set]
    exact cutExpand_set (by rwa [List.getElem?_take_of_lt hi]) hbelow
  · rw [rank, rank, htake]
    exact Prod.Lex.right _ (Prod.Lex.left _ _ hlt)
  · have htake : P'.programs.take old = P.programs.take old := by
      rw [hset, List.take_set_of_le hi]
    rw [rank, rank, htake]
    refine Prod.Lex.right _ ?_
    rcases hle.lt_or_eq with hlt | heq
    · exact Prod.Lex.left _ _ hlt
    · rw [heq, hset]
      refine Prod.Lex.right _ ?_
      rw [List.drop_set, if_neg (Nat.not_lt.2 hi)]
      refine cutExpand_set (a := p) ?_ hbelow
      rwa [List.getElem?_drop, Nat.add_sub_cancel' hi]

/-- A pool comes to rest if every step is paid for. -/
theorem acc_of_budget {R : Pool Op Res α State View → Pool Op Res α State View → Prop}
    {Inv : Pool Op Res α State View → Ghost → Prop}
    (hstep : ∀ P g P', Inv P g → R P' P → ∃ g', Inv P' g' ∧ Paid old budget P g P' g')
    {P : Pool Op Res α State View} {g : Ghost} (h : Inv P g) : Acc R P := by
  generalize hm : rank old budget P g = m
  induction m using wellFounded_rankLt.induction generalizing P g with
  | _ m ih =>
    subst hm
    refine ⟨_, fun P' hP' ↦ ?_⟩
    obtain ⟨g', hinv, hpaid⟩ := hstep P g P' h hP'
    exact ih _ hpaid.rankLt hinv rfl

end Budget

end Pool

end Effect
