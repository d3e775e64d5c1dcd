import Mathlib.Algebra.Order.BigOperators.Group.List
import Mathlib.Algebra.Order.Ring.Nat
import Mathlib.Data.List.DropRight

/-!
# Names of the domain name system, and how they are printed

A `Name` is a list of labels, which are texts of octets; the empty list is the root. On the wire
each label is preceded by its length, and the root is one more octet, within 255 octets in all.

In print each label ends with a dot, and the root is a single dot. An octet prints as itself, behind
a backslash, or as a backslash and three digits; which of the printable octets get a backslash
depends on the printer, and the dot does. `length_stripped` says how long a printed name is without
the dots at its end.
-/

set_option autoImplicit false

namespace Dns

/-- A name, as the list of its labels. -/
structure Name where
  labels : List (List UInt8)
  label_ne_nil : ∀ l ∈ labels, l ≠ []
  label_le : ∀ l ∈ labels, l.length ≤ 63
  wire_le : (labels.map fun l ↦ l.length + 1).sum + 1 ≤ 255

/-- The root. -/
def Name.root : Name :=
  ⟨[], by simp, by simp, by simp⟩

/-- How names are printed. -/
structure Printer where
  /-- The printable octets that get a backslash. -/
  quoted : UInt8 → Bool
  quoted_dot : quoted 46 = true

namespace Printer

variable (P : Printer)

/-- An octet in print. -/
def octet (b : UInt8) : List Char :=
  if P.quoted b then ['\\', Char.ofNat b.toNat]
  else if 32 < b ∧ b < 127 then [Char.ofNat b.toNat]
  else ['\\', Nat.digitChar (b.toNat / 100), Nat.digitChar (b.toNat / 10 % 10),
    Nat.digitChar (b.toNat % 10)]

/-- The number of characters that an octet takes. -/
def octetWidth (b : UInt8) : ℕ :=
  if P.quoted b then 2 else if 32 < b ∧ b < 127 then 1 else 4

/-- A label in print. -/
def label (l : List UInt8) : List Char :=
  l.flatMap P.octet

/-- A name in print. -/
def name (n : Name) : List Char :=
  if n.labels = [] then ['.'] else n.labels.flatMap fun l ↦ P.label l ++ ['.']

/-- The number of characters of all labels, each with a dot. -/
def width (n : Name) : ℕ :=
  (n.labels.map fun l ↦ (l.map P.octetWidth).sum + 1).sum

theorem length_octet (b : UInt8) : (P.octet b).length = P.octetWidth b := by
  unfold octet octetWidth
  split
  · rfl
  · split
    · rfl
    · rfl

theorem length_label (l : List UInt8) : (P.label l).length = (l.map P.octetWidth).sum := by
  rw [label, List.length_flatMap]
  exact congrArg List.sum (List.map_congr_left fun b _ ↦ P.length_octet b)

theorem length_name {n : Name} (h : n.labels ≠ []) : (P.name n).length = P.width n := by
  rw [name, if_neg h, List.length_flatMap, width]
  refine congrArg List.sum (List.map_congr_left fun l _ ↦ ?_)
  rw [List.length_append, P.length_label, List.length_singleton]

/-- A dot prints as a dot behind a backslash, and no other octet ends in a dot in print. -/
theorem octet_concat (b : UInt8) : ∃ text c, P.octet b = text ++ [c] ∧
    (b = 46 → text = ['\\'] ∧ c = '.') ∧ (b ≠ 46 → c ≠ '.') := by
  have hcode : ∀ k < 256, k ≠ 46 → Char.ofNat k ≠ '.' := by
    decide +kernel
  have hchar : b ≠ 46 → Char.ofNat b.toNat ≠ '.' := fun hb ↦
    hcode _ b.toNat_lt fun h ↦ hb (UInt8.toNat_inj.1 h)
  have hdigit : ∀ k < 10, Nat.digitChar k ≠ '.' := by
    decide
  unfold octet
  split
  · next hquoted =>
    refine ⟨['\\'], _, rfl, ?_, hchar⟩
    rintro rfl
    exact ⟨rfl, rfl⟩
  · next hplain =>
    have hne : b ≠ 46 := by
      rintro rfl
      exact hplain P.quoted_dot
    split
    · exact ⟨[], _, rfl, fun h ↦ absurd h hne, hchar⟩
    · exact ⟨['\\', _, _], _, rfl, fun h ↦ absurd h hne,
        fun _ ↦ hdigit _ (Nat.mod_lt _ (by decide))⟩

end Printer

/-- The last octet of a name. -/
def Name.lastOctet (n : Name) : Option UInt8 :=
  n.labels.getLast?.bind List.getLast?

/-- **The length of a printed name without the dots at its end.** Only the final dot goes, or the
last octet is a dot, which goes as well and leaves its backslash. -/
theorem Printer.length_stripped (P : Printer) {n : Name} (h : n.labels ≠ []) :
    (P.name n).rdropWhile (· == '.') ≠ [] ∧
      ((P.name n).rdropWhile (· == '.')).length + (if n.lastOctet = some 46 then 2 else 1) =
        P.width n := by
  obtain ⟨ls, l, hlabels⟩ := (List.eq_nil_or_concat' n.labels).resolve_left h
  have hl : l ≠ [] := n.label_ne_nil l (by simp [hlabels])
  obtain ⟨bs, b, rfl⟩ := (List.eq_nil_or_concat' l).resolve_left hl
  obtain ⟨text, c, hoctet, hdot, hother⟩ := P.octet_concat b
  have hlast : n.lastOctet = some b := by
    simp [Name.lastOctet, hlabels]
  -- the text ends in the last octet and the final dot
  have hname : ∃ front, P.name n = front ++ text ++ [c] ++ ['.'] := by
    refine ⟨(ls.flatMap fun l ↦ P.label l ++ ['.']) ++ P.label bs, ?_⟩
    simp [name, hlabels, label, hoctet]
  obtain ⟨front, hname⟩ := hname
  rw [← P.length_name h, hname, hlast, List.rdropWhile_concat_pos _ _ _ rfl]
  by_cases hb : b = 46
  · obtain ⟨rfl, rfl⟩ := hdot hb
    rw [List.rdropWhile_concat_pos _ _ _ rfl, List.rdropWhile_concat_neg _ _ _ (by decide), hb]
    simp
  · have hkeep : (front ++ text ++ [c]).rdropWhile (· == '.') = front ++ text ++ [c] :=
      List.rdropWhile_concat_neg _ _ _ (by simpa using hother hb)
    rw [hkeep, if_neg (by simpa using hb)]
    simp only [List.length_append, List.length_singleton]
    exact ⟨by simp, trivial⟩

/-! ### How wide a printed name can be -/

theorem Printer.octetWidth_le (P : Printer) (b : UInt8) : P.octetWidth b ≤ 4 := by
  unfold octetWidth
  split
  · decide
  · split <;> decide

theorem Printer.width_le (P : Printer) (n : Name) :
    P.width n ≤ 4 * (n.labels.map List.length).sum + n.labels.length := by
  rw [width]
  induction n.labels with
  | nil => exact Nat.le_refl 0
  | cons l ls ih =>
    have hl : (l.map P.octetWidth).sum ≤ 4 * l.length := by
      refine (List.sum_le_card_nsmul _ 4 ?_).trans (by simp [Nat.mul_comm])
      intro w hw
      obtain ⟨b, -, rfl⟩ := List.mem_map.1 hw
      exact P.octetWidth_le b
    simp only [List.map_cons, List.sum_cons, List.length_cons]
    omega

/-- Only names of four labels that hold 250 octets take more than 1001 characters. -/
theorem Name.of_wide {P : Printer} {n : Name} (h : 1001 < P.width n) :
    n.labels.length = 4 ∧ (n.labels.map List.length).sum = 250 := by
  have hwidth := P.width_le n
  have hwire : (n.labels.map List.length).sum + n.labels.length + 1 ≤ 255 := by
    have hsum : (n.labels.map fun l ↦ l.length + 1).sum =
        (n.labels.map List.length).sum + n.labels.length := by
      induction n.labels with
      | nil => rfl
      | cons l ls ih =>
        simp only [List.map_cons, List.sum_cons, List.length_cons, ih]
        omega
    rw [← hsum]
    exact n.wire_le
  have hlabels : (n.labels.map List.length).sum ≤ 63 * n.labels.length := by
    refine (List.sum_le_card_nsmul _ 63 ?_).trans (by simp [Nat.mul_comm])
    intro k hk
    obtain ⟨l, hl, rfl⟩ := List.mem_map.1 hk
    exact n.label_le l hl
  omega

end Dns
