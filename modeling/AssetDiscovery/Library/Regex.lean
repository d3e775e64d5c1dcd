import Mathlib.Data.Nat.Notation

/-!
# Backtracking regular expressions

The part of a backtracking regular expression engine that is needed to read patterns with anchors,
bounded repetition, lookahead and one-character lookbehind. A `Place` in a text is the text before
it, last character first, and the text after it. `ends r p` lists the places at which a match of `r`
that starts at `p` may end, in the order in which a backtracking engine would try them; the engine
matches exactly if this list is not empty.
-/

namespace Regex

/-- A position in a text. -/
structure Place where
  /-- What is before, last character first. -/
  before : List Char
  /-- What is after. -/
  after : List Char
  deriving DecidableEq, Repr

/-- A pattern. -/
inductive Pattern where
  /-- One character that satisfies a test. -/
  | char (test : Char → Bool)
  | seq (r s : Pattern)
  /-- `r{lo,hi}`, greedy. -/
  | rep (r : Pattern) (lo hi : ℕ)
  /-- `r+`, greedy. -/
  | plus (r : Pattern)
  /-- `(?=r)`. -/
  | ahead (r : Pattern)
  /-- `(?!r)`. -/
  | notAhead (r : Pattern)
  /-- `(?<!c)` for a one-character test. -/
  | notBehind (test : Char → Bool)
  /-- `^`. -/
  | start
  /-- `$`: at the end, or before a line feed that ends the text. -/
  | stop

/-- The end places of at most `n` more repetitions of a step, longest first. -/
def repeatEnds (step : Place → List Place) : ℕ → ℕ → Place → List Place
  | lo, 0, p => if lo = 0 then [p] else []
  | lo, n + 1, p =>
    (step p).flatMap (repeatEnds step (lo - 1) n) ++ if lo = 0 then [p] else []

namespace Pattern

/-- Where a match that starts at a place may end. -/
def ends : Pattern → Place → List Place
  | char test, p =>
    match p.after with
    | c :: rest => if test c then [⟨c :: p.before, rest⟩] else []
    | [] => []
  | seq r s, p => (r.ends p).flatMap s.ends
  | rep r lo hi, p => repeatEnds r.ends lo hi p
  -- every repetition of a pattern that matches no empty text consumes a character
  | plus r, p => repeatEnds r.ends 1 p.after.length p
  | ahead r, p => if (r.ends p).isEmpty then [] else [p]
  | notAhead r, p => if (r.ends p).isEmpty then [p] else []
  | notBehind test, p =>
    match p.before with
    | c :: _ => if test c then [] else [p]
    | [] => [p]
  | start, p => if p.before.isEmpty then [p] else []
  | stop, p => if p.after = [] ∨ p.after = ['\n'] then [p] else []

/-- `re.fullmatch(r, text)`: a match from the start to the very end. -/
def fullmatch (r : Pattern) (text : List Char) : Bool :=
  (r.ends ⟨[], text⟩).any fun p ↦ p.after.isEmpty

end Pattern

/-! ### Where matches end -/

variable {step : Place → List Place} {p p' : Place} {lo n : ℕ}

namespace Pattern

theorem ends_char (test : Char → Bool) (p : Place) : (char test).ends p =
    match p.after with
    | c :: rest => if test c then [⟨c :: p.before, rest⟩] else []
    | [] => [] :=
  rfl

theorem ends_notBehind (test : Char → Bool) (p : Place) : (notBehind test).ends p =
    match p.before with
    | c :: _ => if test c then [] else [p]
    | [] => [p] :=
  rfl

/-- A character is read where it satisfies the test. -/
theorem mem_ends_char {test : Char → Bool} (h : p' ∈ (char test).ends p) :
    ∃ c, test c = true ∧ p.after = c :: p'.after ∧ p'.before = c :: p.before := by
  rw [ends_char] at h
  split at h
  · next c rest hafter =>
    split at h
    · next hc =>
      rw [List.mem_singleton.1 h]
      exact ⟨c, hc, hafter, rfl⟩
    · exact absurd h List.not_mem_nil
  · exact absurd h List.not_mem_nil

/-- One pattern is read after the other. -/
theorem mem_ends_seq {r s : Pattern} :
    p' ∈ (seq r s).ends p ↔ ∃ p₁ ∈ r.ends p, p' ∈ s.ends p₁ := by
  show p' ∈ (r.ends p).flatMap s.ends ↔ _
  rw [List.mem_flatMap]

/-- A lookahead reads nothing. -/
theorem mem_ends_ahead {r : Pattern} : p' ∈ (ahead r).ends p ↔ p' = p ∧ ∃ p₁, p₁ ∈ r.ends p := by
  show p' ∈ (if (r.ends p).isEmpty then [] else [p]) ↔ _
  split
  · next hempty => simp [List.isEmpty_iff.1 hempty]
  · next hne =>
    have hmem := List.isEmpty_eq_false_iff_exists_mem.1 (Bool.eq_false_iff.2 hne)
    rw [List.mem_singleton]
    exact ⟨fun h ↦ ⟨h, hmem⟩, fun h ↦ h.1⟩

/-- A negative lookahead reads nothing, and lets through where its pattern does not match. -/
theorem mem_ends_notAhead {r : Pattern} :
    p' ∈ (notAhead r).ends p ↔ p' = p ∧ ∀ p₁, p₁ ∉ r.ends p := by
  show p' ∈ (if (r.ends p).isEmpty then [p] else []) ↔ _
  rw [← List.eq_nil_iff_forall_not_mem]
  split
  · next hempty => simp [List.isEmpty_iff.1 hempty]
  · next hne =>
    have hne' : r.ends p ≠ [] := fun h ↦ hne (List.isEmpty_iff.2 h)
    simp [hne']

/-- A negative lookbehind looks at the last character that has been read. -/
theorem mem_ends_notBehind {test : Char → Bool} :
    p' ∈ (notBehind test).ends p ↔ p' = p ∧ ∀ c ∈ p.before.head?, test c = false := by
  rw [ends_notBehind]
  split
  · next c rest hbefore =>
    rw [hbefore]
    cases hc : test c <;> simp [hc]
  · next hbefore => simp [hbefore]

/-- `^` matches where nothing has been read. -/
theorem mem_ends_start : p' ∈ start.ends p ↔ p' = p ∧ p.before = [] := by
  show p' ∈ (if p.before.isEmpty then [p] else []) ↔ _
  cases hbefore : p.before <;> simp

/-- `$` matches at the end, and before a line feed that is the last character. -/
theorem mem_ends_stop :
    p' ∈ stop.ends p ↔ p' = p ∧ (p.after = [] ∨ p.after = ['\n']) := by
  show p' ∈ (if p.after = [] ∨ p.after = ['\n'] then [p] else []) ↔ _
  split
  · next hafter => simp [hafter]
  · next hafter => simp [hafter]

/-! ### Languages -/

/-- The text `w` lies between two places. -/
def Reads (w : List Char) (p p' : Place) : Prop :=
  p.after = w ++ p'.after ∧ p'.before = w.reverse ++ p.before

theorem reads_nil : Reads [] p p' ↔ p' = p := by
  cases p
  cases p'
  simp [Reads, eq_comm, and_comm]

/-- Reading a word part by part. -/
theorem reads_append {w w' : List Char} :
    Reads (w ++ w') p p' ↔ ∃ p₁, Reads w p p₁ ∧ Reads w' p₁ p' := by
  constructor
  · rintro ⟨hafter, hbefore⟩
    refine ⟨⟨w.reverse ++ p.before, w' ++ p'.after⟩, ⟨?_, rfl⟩, rfl, ?_⟩
    · rw [hafter, List.append_assoc]
    · rw [hbefore, List.reverse_append, List.append_assoc]
  · rintro ⟨p₁, ⟨hafter, hbefore⟩, hafter', hbefore'⟩
    constructor
    · rw [hafter, hafter', List.append_assoc]
    · rw [hbefore', hbefore, List.reverse_append, List.append_assoc]

/-- Wherever a match of the pattern starts, it may end exactly behind the words of `L`. -/
def Recognises (r : Pattern) (L : List Char → Prop) : Prop :=
  ∀ p p' : Place, p' ∈ r.ends p ↔ ∃ w, L w ∧ Reads w p p'

variable {r s : Pattern} {L M : List Char → Prop}

/-- One character, if it satisfies the test. -/
theorem recognises_char (test : Char → Bool) :
    Recognises (char test) fun w ↦ ∃ c, test c = true ∧ w = [c] := by
  intro p p'
  constructor
  · intro h
    obtain ⟨c, hc, hafter, hbefore⟩ := mem_ends_char h
    exact ⟨[c], ⟨c, hc, rfl⟩, hafter, hbefore⟩
  · rintro ⟨_, ⟨c, hc, rfl⟩, hafter, hbefore⟩
    have hp' : p' = ⟨c :: p.before, p'.after⟩ := congrArg (Place.mk · p'.after) hbefore
    rw [ends_char, hafter]
    simp only [List.singleton_append, if_pos hc, List.mem_singleton]
    exact hp'

/-- The words of a sequence are those of its parts, one after the other. -/
theorem Recognises.seq (hr : r.Recognises L) (hs : s.Recognises M) :
    (Pattern.seq r s).Recognises fun w ↦ ∃ a b, L a ∧ M b ∧ w = a ++ b := by
  intro p p'
  rw [mem_ends_seq]
  constructor
  · rintro ⟨p₁, h₁, h₂⟩
    obtain ⟨a, ha, hreads⟩ := (hr p p₁).1 h₁
    obtain ⟨b, hb, hreads'⟩ := (hs p₁ p').1 h₂
    exact ⟨a ++ b, ⟨a, b, ha, hb, rfl⟩, reads_append.2 ⟨p₁, hreads, hreads'⟩⟩
  · rintro ⟨_, ⟨a, b, ha, hb, rfl⟩, h⟩
    obtain ⟨p₁, h₁, h₂⟩ := reads_append.1 h
    exact ⟨p₁, (hr p p₁).2 ⟨a, ha, h₁⟩, (hs p₁ p').2 ⟨b, hb, h₂⟩⟩

theorem mem_stopHere : p' ∈ (if lo = 0 then [p] else []) ↔ lo = 0 ∧ p' = p := by
  by_cases hlo : lo = 0
  · simp [hlo]
  · simp [hlo]

/-- The words that repetitions of a pattern read. -/
theorem Recognises.mem_repeatEnds (hr : r.Recognises L) :
    p' ∈ repeatEnds r.ends lo n p ↔
      ∃ ws : List (List Char), lo ≤ ws.length ∧ ws.length ≤ n ∧ (∀ w ∈ ws, L w) ∧
        Reads ws.flatten p p' := by
  induction n generalizing lo p with
  | zero =>
    show p' ∈ (if lo = 0 then [p] else []) ↔ _
    rw [mem_stopHere]
    constructor
    · rintro ⟨rfl, h⟩
      exact ⟨[], Nat.le_refl 0, Nat.le_refl 0, by simp, reads_nil.2 h⟩
    · rintro ⟨ws, hle, hlen, -, h⟩
      obtain rfl := List.length_eq_zero_iff.1 (Nat.le_zero.1 hlen)
      exact ⟨Nat.le_zero.1 hle, reads_nil.1 h⟩
  | succ n ih =>
    show p' ∈ (r.ends p).flatMap (repeatEnds r.ends (lo - 1) n) ++ (if lo = 0 then [p] else []) ↔ _
    rw [List.mem_append, List.mem_flatMap, mem_stopHere]
    constructor
    -- one more word, or an end here if no word has to follow
    · rintro (⟨p₁, h₁, h⟩ | ⟨rfl, h⟩)
      · obtain ⟨w, hw, hreads⟩ := (hr p p₁).1 h₁
        obtain ⟨ws, hle, hlen, hws, hreads'⟩ := ih.1 h
        refine ⟨w :: ws, ?_, ?_, List.forall_mem_cons.2 ⟨hw, hws⟩, ?_⟩
        · rw [List.length_cons]
          omega
        · rw [List.length_cons]
          omega
        · rw [List.flatten_cons]
          exact reads_append.2 ⟨p₁, hreads, hreads'⟩
      · exact ⟨[], Nat.le_refl 0, Nat.zero_le _, by simp, reads_nil.2 h⟩
    · rintro ⟨ws, hle, hlen, hws, hreads⟩
      cases ws with
      | nil => exact Or.inr ⟨Nat.le_zero.1 hle, reads_nil.1 hreads⟩
      | cons w ws =>
        rw [List.length_cons] at hle hlen
        rw [List.flatten_cons] at hreads
        obtain ⟨hw, hws⟩ := List.forall_mem_cons.1 hws
        obtain ⟨p₁, h₁, h₂⟩ := reads_append.1 hreads
        refine Or.inl ⟨p₁, (hr p p₁).2 ⟨w, hw, h₁⟩, ih.2 ?_⟩
        exact ⟨ws, by omega, by omega, hws, h₂⟩

/-- A repetition of one character. -/
theorem recognises_rep_char (test : Char → Bool) (lo hi : ℕ) :
    (Pattern.rep (char test) lo hi).Recognises fun w ↦
      lo ≤ w.length ∧ w.length ≤ hi ∧ ∀ c ∈ w, test c = true := by
  intro p p'
  show p' ∈ repeatEnds (char test).ends lo hi p ↔ _
  rw [(recognises_char test).mem_repeatEnds]
  constructor
  · rintro ⟨ws, hlo, hhi, hws, hreads⟩
    have hlen : ws.flatten.length = ws.length := by
      clear hlo hhi hreads
      induction ws with
      | nil => rfl
      | cons w ws ih =>
        obtain ⟨⟨c, -, rfl⟩, hrest⟩ := List.forall_mem_cons.1 hws
        rw [List.flatten_cons, List.length_append, ih hrest, List.length_cons, Nat.add_comm]
        rfl
    refine ⟨ws.flatten, ⟨hlen ▸ hlo, hlen ▸ hhi, fun c hc ↦ ?_⟩, hreads⟩
    obtain ⟨w, hw, hcw⟩ := List.mem_flatten.1 hc
    obtain ⟨c', hc', rfl⟩ := hws w hw
    rwa [List.mem_singleton.1 hcw]
  · rintro ⟨w, ⟨hlo, hhi, hw⟩, hreads⟩
    refine ⟨w.map fun c ↦ [c], by rwa [List.length_map], by rwa [List.length_map], ?_, ?_⟩
    · intro w' hw'
      obtain ⟨c, hc, rfl⟩ := List.mem_map.1 hw'
      exact ⟨c, hw c hc, rfl⟩
    · rwa [← List.flatMap_def, List.flatMap_singleton']

/-- `r+`, for a pattern that reads no empty word. -/
theorem Recognises.plus (hr : r.Recognises L) (hne : ∀ w, L w → w ≠ []) :
    (Pattern.plus r).Recognises fun w ↦ ∃ ws : List (List Char),
      ws ≠ [] ∧ (∀ w ∈ ws, L w) ∧ w = ws.flatten := by
  intro p p'
  show p' ∈ repeatEnds r.ends 1 p.after.length p ↔ _
  rw [hr.mem_repeatEnds]
  constructor
  · rintro ⟨ws, hle, -, hws, hreads⟩
    exact ⟨_, ⟨ws, List.length_pos_iff.1 hle, hws, rfl⟩, hreads⟩
  · rintro ⟨_, ⟨ws, hws₀, hws, rfl⟩, hreads⟩
    -- each repetition reads a character, so there are no more of them than characters
    have hlen : ws.length ≤ ws.flatten.length := by
      clear hws₀ hreads
      induction ws with
      | nil => exact Nat.le_refl 0
      | cons w ws ih =>
        obtain ⟨hw, hrest⟩ := List.forall_mem_cons.1 hws
        have hpos := List.length_pos_iff.2 (hne w hw)
        have hle := ih hrest
        rw [List.flatten_cons, List.length_append, List.length_cons]
        omega
    have hafter : p.after.length = ws.flatten.length + p'.after.length := by
      rw [hreads.1, List.length_append]
    exact ⟨ws, List.length_pos_iff.2 hws₀, by omega, hws, hreads⟩

end Pattern

end Regex
