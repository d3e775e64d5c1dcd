import AssetDiscovery.Accounts.Auth

/-!
# The password policy

`validate_password_policy` asks for a capital letter, a small letter, a digit and a special
character. The first three tests consult the Unicode tables, and the fourth, `[^A-Za-z0-9]`, knows
only ASCII: a letter or digit beyond ASCII counts as special there as well, and it may be the same
character that passes one of the other tests. `asStated_iff` says for which passwords this makes a
difference.
-/

set_option autoImplicit false

namespace AssetDiscovery

/-- The classes of characters, with what the Unicode tables have in common with ASCII. -/
structure CharacterClasses extends UnicodeTables where
  /-- `str.isalpha()` of one character. -/
  isAlpha : Char → Bool
  alpha_of_ascii : ∀ c, ('A' ≤ c ∧ c ≤ 'Z') ∨ ('a' ≤ c ∧ c ≤ 'z') → isAlpha c = true
  digit_of_ascii : ∀ c, '0' ≤ c ∧ c ≤ '9' → isDigit c = true
  not_lower_of_upper : ∀ c, isUpper c = true → isLower c = false
  not_digit_of_alpha : ∀ c, isAlpha c = true → isDigit c = false

namespace CharacterClasses

variable (k : CharacterClasses)

/-- A letter for which `isupper()` holds. -/
def IsCapital (c : Char) : Prop :=
  k.isAlpha c = true ∧ k.isUpper c = true

/-- A letter for which `islower()` holds. -/
def IsSmall (c : Char) : Prop :=
  k.isAlpha c = true ∧ k.isLower c = true

/-- Neither a letter nor a digit. -/
def IsSpecial (c : Char) : Prop :=
  k.isAlpha c = false ∧ k.isDigit c = false

/-- What the policy asks for. -/
structure HasAllClasses (password : String) : Prop where
  length : 8 ≤ password.length
  capital : ∃ c ∈ password.toList, k.IsCapital c
  small : ∃ c ∈ password.toList, k.IsSmall c
  digit : ∃ c ∈ password.toList, k.isDigit c = true
  special : ∃ c ∈ password.toList, k.IsSpecial c

/-- Four different characters, one of each class. -/
def HasFourCharacters (password : String) : Prop :=
  ∃ a ∈ password.toList, ∃ b ∈ password.toList, ∃ c ∈ password.toList, ∃ d ∈ password.toList,
    [a, b, c, d].Nodup ∧ k.IsCapital a ∧ k.IsSmall b ∧ k.isDigit c = true ∧ k.IsSpecial d

/-- The password is accepted if it has characters of all classes, and not otherwise; then they are
four different ones. -/
def AsStated (password : String) : Prop :=
  (validatePasswordPolicy k.toUnicodeTables password = pure () ↔ k.HasAllClasses password) ∧
    (validatePasswordPolicy k.toUnicodeTables password = pure () → k.HasFourCharacters password)

/-- The tests of the code, and a class of which the password has no character: it consists of
letters and digits, some of them beyond ASCII, or what `isupper` or `islower` finds in it is no
letter. -/
structure Loophole (password : String) : Prop where
  length : 8 ≤ password.length
  upper : ∃ c ∈ password.toList, k.isUpper c = true
  lower : ∃ c ∈ password.toList, k.isLower c = true
  digit : ∃ c ∈ password.toList, k.isDigit c = true
  beyond : ∃ c ∈ password.toList, isAsciiAlnum c = false
  missing : (∀ c ∈ password.toList, k.isAlpha c = true ∨ k.isDigit c = true) ∨
    (∀ c ∈ password.toList, k.isUpper c = true → k.isAlpha c = false) ∨
    ∀ c ∈ password.toList, k.isLower c = true → k.isAlpha c = false

variable {k} {password : String}

/-- The policy is a conjunction of five tests. -/
theorem validatePasswordPolicy_eq_pure (u : UnicodeTables) :
    validatePasswordPolicy u password = pure () ↔ 8 ≤ password.length ∧
      (∃ c ∈ password.toList, u.isUpper c = true) ∧ (∃ c ∈ password.toList, u.isLower c = true) ∧
      (∃ c ∈ password.toList, u.isDigit c = true) ∧
      ∃ c ∈ password.toList, isAsciiAlnum c = false := by
  have hraise : ∀ e, (Api.raise e : Api Unit) ≠ pure () := by
    intro e h
    cases h
  simp only [validatePasswordPolicy]
  split
  · next hshort =>
    exact ⟨fun h ↦ absurd h (hraise _), fun h ↦ absurd h.1 (Nat.not_le_of_lt hshort)⟩
  · next hlong =>
    have hlength : 8 ≤ password.length := Nat.le_of_not_lt hlong
    simp only [List.any_eq_true, Bool.not_eq_true', hlength, true_and]
    split
    · next hmissing => exact ⟨fun h ↦ absurd h (hraise _), fun h ↦ absurd h hmissing⟩
    · next hall => exact ⟨fun _ ↦ not_not.1 hall, fun _ ↦ rfl⟩

/-- A special character matches the class that the code looks for. -/
theorem IsSpecial.not_asciiAlnum {c : Char} (h : k.IsSpecial c) : isAsciiAlnum c = false := by
  rw [Bool.eq_false_iff]
  intro halnum
  simp only [isAsciiAlnum, Bool.or_eq_true, Bool.and_eq_true, decide_eq_true_eq] at halnum
  rcases halnum with hletter | hdigit
  · exact absurd (k.alpha_of_ascii c hletter) (by rw [h.1]; decide)
  · exact absurd (k.digit_of_ascii c hdigit) (by rw [h.2]; decide)

/-- A password with all classes is accepted. -/
theorem HasAllClasses.accepted (h : k.HasAllClasses password) :
    validatePasswordPolicy k.toUnicodeTables password = pure () := by
  obtain ⟨a, ha, hcapital⟩ := h.capital
  obtain ⟨b, hb, hsmall⟩ := h.small
  obtain ⟨d, hd, hspecial⟩ := h.special
  exact (validatePasswordPolicy_eq_pure _).2 ⟨h.length, ⟨a, ha, hcapital.2⟩, ⟨b, hb, hsmall.2⟩,
    h.digit, d, hd, hspecial.not_asciiAlnum⟩

/-- The four classes are disjoint. -/
theorem HasAllClasses.hasFourCharacters (h : k.HasAllClasses password) :
    k.HasFourCharacters password := by
  obtain ⟨a, ha, hcapital⟩ := h.capital
  obtain ⟨b, hb, hsmall⟩ := h.small
  obtain ⟨c, hc, hdigit⟩ := h.digit
  obtain ⟨d, hd, hspecial⟩ := h.special
  refine ⟨a, ha, b, hb, c, hc, d, hd, ?_, hcapital, hsmall, hdigit, hspecial⟩
  have hab : a ≠ b := by
    rintro rfl
    exact absurd (k.not_lower_of_upper a hcapital.2) (by rw [hsmall.2]; decide)
  have hac : a ≠ c := by
    rintro rfl
    exact absurd (k.not_digit_of_alpha a hcapital.1) (by rw [hdigit]; decide)
  have hbc : b ≠ c := by
    rintro rfl
    exact absurd (k.not_digit_of_alpha b hsmall.1) (by rw [hdigit]; decide)
  have had : a ≠ d := by
    rintro rfl
    exact absurd hcapital.1 (by rw [hspecial.1]; decide)
  have hbd : b ≠ d := by
    rintro rfl
    exact absurd hsmall.1 (by rw [hspecial.1]; decide)
  have hcd : c ≠ d := by
    rintro rfl
    exact absurd hdigit (by rw [hspecial.2]; decide)
  simp [hab, hac, hbc, had, hbd, hcd]

/-- So is one with a letter beyond ASCII for its special character. -/
theorem Loophole.accepted (h : k.Loophole password) :
    validatePasswordPolicy k.toUnicodeTables password = pure () :=
  (validatePasswordPolicy_eq_pure _).2 ⟨h.length, h.upper, h.lower, h.digit, h.beyond⟩

/-- Such a password has no special character. -/
theorem Loophole.not_hasAllClasses (h : k.Loophole password) : ¬ k.HasAllClasses password := by
  intro hall
  rcases h.missing with hnone | hnone | hnone
  · obtain ⟨d, hd, hspecial⟩ := hall.special
    rcases hnone d hd with halpha | hdigit
    · exact absurd halpha (by rw [hspecial.1]; decide)
    · exact absurd hdigit (by rw [hspecial.2]; decide)
  · obtain ⟨a, ha, hcapital⟩ := hall.capital
    exact absurd (hnone a ha hcapital.2) (by rw [hcapital.1]; decide)
  · obtain ⟨b, hb, hsmall⟩ := hall.small
    exact absurd (hnone b hb hsmall.2) (by rw [hsmall.1]; decide)

/-- What passes the tests of the code has characters of all classes, or goes through the
loophole. -/
theorem hasAllClasses_of_accepted (h : validatePasswordPolicy k.toUnicodeTables password = pure ())
    (hno : ¬ k.Loophole password) : k.HasAllClasses password := by
  obtain ⟨hlength, hupper, hlower, hdigit, hbeyond⟩ := (validatePasswordPolicy_eq_pure _).1 h
  have hmissing := mt (Loophole.mk hlength hupper hlower hdigit hbeyond) hno
  simp only [not_or, not_forall, Bool.not_eq_true, Bool.not_eq_false] at hmissing
  obtain ⟨⟨d, hd, hspecial⟩, ⟨a, ha, hcapital, halpha⟩, b, hb, hsmall, hbeta⟩ := hmissing
  exact ⟨hlength, ⟨a, ha, halpha, hcapital⟩, ⟨b, hb, hbeta, hsmall⟩, hdigit, d, hd, hspecial⟩

/-- **The policy does what it states, except for the passwords that go through the loophole.** -/
theorem asStated_iff (k : CharacterClasses) (password : String) :
    k.AsStated password ↔ ¬ k.Loophole password := by
  constructor
  · intro h hloophole
    exact hloophole.not_hasAllClasses (h.1.1 hloophole.accepted)
  · intro hno
    refine ⟨⟨fun h ↦ hasAllClasses_of_accepted h hno, HasAllClasses.accepted⟩, fun h ↦ ?_⟩
    exact (hasAllClasses_of_accepted h hno).hasFourCharacters

/-! ### Latin-1 -/

/-- The tables for the characters of Latin-1. -/
def latin1 : CharacterClasses where
  toUnicode := .ascii
  isUpper c := (65 ≤ c.toNat && c.toNat ≤ 90) ||
    (192 ≤ c.toNat && c.toNat ≤ 222 && c.toNat != 215)
  isLower c := (97 ≤ c.toNat && c.toNat ≤ 122) ||
    (223 ≤ c.toNat && c.toNat ≤ 255 && c.toNat != 247) ||
    c.toNat == 170 || c.toNat == 181 || c.toNat == 186
  isDigit c := (48 ≤ c.toNat && c.toNat ≤ 57) ||
    c.toNat == 178 || c.toNat == 179 || c.toNat == 185
  isAlpha c := (65 ≤ c.toNat && c.toNat ≤ 90) || (97 ≤ c.toNat && c.toNat ≤ 122) ||
    (192 ≤ c.toNat && c.toNat ≤ 255 && c.toNat != 215 && c.toNat != 247) ||
    c.toNat == 170 || c.toNat == 181 || c.toNat == 186
  alpha_of_ascii c h := by
    have hrange : (65 ≤ c.toNat ∧ c.toNat ≤ 90) ∨ (97 ≤ c.toNat ∧ c.toNat ≤ 122) := h
    simp [hrange]
  digit_of_ascii c h := by
    have hrange : 48 ≤ c.toNat ∧ c.toNat ≤ 57 := h
    simp [hrange]
  not_lower_of_upper c h := by
    simp only [Bool.or_eq_true, Bool.and_eq_true, decide_eq_true_eq, bne_iff_ne] at h
    simp only [Bool.or_eq_false_iff, Bool.and_eq_false_iff, decide_eq_false_iff_not,
      beq_eq_false_iff_ne, bne_eq_false_iff_eq]
    omega
  not_digit_of_alpha c h := by
    simp only [Bool.or_eq_true, Bool.and_eq_true, decide_eq_true_eq, bne_iff_ne, beq_iff_eq] at h
    simp only [Bool.or_eq_false_iff, Bool.and_eq_false_iff, decide_eq_false_iff_not,
      beq_eq_false_iff_ne]
    omega

/-- With an accented capital the fourth test adds nothing: this password has three different
characters, none of them special, and is accepted. -/
theorem not_asStated : ¬ ∀ (k : CharacterClasses) (password : String), k.AsStated password := by
  intro h
  have hall : "Éa1aaaaa".toList.all fun c ↦ latin1.isAlpha c || latin1.isDigit c := by decide
  refine (asStated_iff latin1 "Éa1aaaaa").1 (h latin1 "Éa1aaaaa") ?_
  refine ⟨by decide, ⟨'É', by decide, by decide⟩, ⟨'a', by decide, by decide⟩,
    ⟨'1', by decide, by decide⟩, ⟨'É', by decide, by decide⟩, Or.inl fun c hc ↦ ?_⟩
  exact Bool.or_eq_true_iff.1 (List.all_eq_true.1 hall c hc)

end CharacterClasses

end AssetDiscovery
