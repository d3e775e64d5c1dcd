import Mathlib.Data.List.Infix

/-!
# LIKE

The pattern language of SQL. A pattern is a list of tokens, each of which matches one given
character, any one character, or any string; `parse` reads them from a text in which `%` stands for
any string, `_` for any one character, and a backslash takes its meaning from the character after
it.

A pattern that consists of a text without these three characters, between two `%`, matches the
strings that contain the text (`like_contains`).
-/

universe u

namespace Like

/-- A part of a pattern. -/
inductive Token (α : Type u) where
  /-- This character. -/
  | lit (a : α)
  /-- Any one character. -/
  | one
  /-- Any string. -/
  | any
  deriving DecidableEq, Repr

section Matching

variable {α : Type u} [DecidableEq α]

/-- The pattern matches the string. -/
def matching : List (Token α) → List α → Bool
  | [], s => s.isEmpty
  | .lit a :: p, s =>
    match s with
    | [] => false
    | b :: s => a = b && matching p s
  | .one :: p, s =>
    match s with
    | [] => false
    | _ :: s => matching p s
  -- the string that is matched is what precedes one of the tails
  | .any :: p, s => s.tails.any (matching p)

variable {p : List (Token α)} {s t : List α}

@[simp]
theorem matching_nil : matching ([] : List (Token α)) s ↔ s = [] :=
  List.isEmpty_iff

@[simp]
theorem matching_any : matching (.any :: p) s ↔ ∃ t, t <:+ s ∧ matching p t := by
  simp [matching]

theorem matching_lits : matching (t.map .lit ++ p) s ↔ ∃ s', s = t ++ s' ∧ matching p s' := by
  induction t generalizing s with
  | nil => simp
  | cons a t ih =>
    cases s with
    | nil => simp [matching]
    | cons b s => simp [matching, ih, eq_comm (a := a), and_assoc]

/-- Between two tokens for any string, a list of characters is matched where it occurs. -/
theorem matching_contains : matching (.any :: (t.map .lit ++ [.any])) s ↔ t <:+: s := by
  have hrest : ∀ s' : List α, matching [.any] s' := fun s' ↦
    matching_any.2 ⟨[], List.nil_suffix, matching_nil.2 rfl⟩
  rw [matching_any]
  constructor
  · rintro ⟨_, ⟨before, rfl⟩, h⟩
    obtain ⟨after, rfl, -⟩ := matching_lits.1 h
    exact ⟨before, after, List.append_assoc ..⟩
  · rintro ⟨before, after, rfl⟩
    exact ⟨t ++ after, ⟨before, (List.append_assoc ..).symm⟩, matching_lits.2 ⟨after, rfl, hrest _⟩⟩

end Matching

/-- The pattern that a text stands for. Of a backslash at the end, which is an error in SQL, nothing
is said: it stands for itself. -/
def parse : List Char → List (Token Char)
  | [] => []
  | '\\' :: c :: t => .lit c :: parse t
  | '%' :: t => .any :: parse t
  | '_' :: t => .one :: parse t
  | c :: t => .lit c :: parse t

/-- `s LIKE pattern`. -/
def like (s pattern : List Char) : Bool :=
  matching (parse pattern) s

/-- No character of the text means anything but itself. -/
def Literal (t : List Char) : Prop :=
  ∀ c ∈ t, c ≠ '%' ∧ c ≠ '_' ∧ c ≠ '\\'

instance (t : List Char) : Decidable (Literal t) :=
  List.decidableBAll _ t

theorem parse_cons {c : Char} (h : c ≠ '%' ∧ c ≠ '_' ∧ c ≠ '\\') (t : List Char) :
    parse (c :: t) = .lit c :: parse t := by
  obtain ⟨hany, hone, hescape⟩ := h
  rw [parse]
  all_goals simp_all

theorem parse_append {t : List Char} (h : Literal t) (p : List Char) :
    parse (t ++ p) = t.map .lit ++ parse p := by
  induction t with
  | nil => rfl
  | cons c t ih =>
    obtain ⟨hc, ht⟩ := List.forall_mem_cons.1 h
    rw [List.cons_append, parse_cons hc, ih ht, List.map_cons, List.cons_append]

/-- **A literal text between two `%` matches the strings that contain it.** -/
theorem like_contains {t : List Char} (h : Literal t) (s : List Char) :
    like s ('%' :: (t ++ ['%'])) ↔ t <:+: s := by
  have hparse : parse ('%' :: (t ++ ['%'])) = .any :: (t.map .lit ++ [.any]) := by
    show Token.any :: parse (t ++ ['%']) = _
    rw [parse_append h]
    rfl
  rw [like, hparse]
  exact matching_contains

end Like
