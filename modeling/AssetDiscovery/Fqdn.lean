import AssetDiscovery.Library.Regex
import AssetDiscovery.Session
import Mathlib.Data.Char
import Mathlib.Data.List.DropRight

/-!
# The FQDN validator

`app/core/fqdn.py`. `str.strip` and `str.lower` depend on the Unicode tables of the Python
interpreter, which are a parameter (`Unicode`); everything after them is computed.
-/

namespace AssetDiscovery

open Regex

/-- The two Unicode-dependent string methods the validator calls. -/
structure Unicode where
  /-- `str.strip()`. -/
  strip : List Char → List Char
  /-- `str.lower()`. -/
  lower : List Char → List Char

/-- On a name of lower-case letters without blanks around it the two methods change nothing. -/
def Unicode.plain : Unicode := ⟨id, id⟩

/-- The character class `[a-z0-9-]`. -/
def labelChar (c : Char) : Bool :=
  ('a' ≤ c && c ≤ 'z') || ('0' ≤ c && c ≤ '9') || c == '-'

/-- `(?!-)[a-z0-9-]{1,63}(?<!-)`. -/
def labelPattern : Pattern :=
  .seq (.notAhead (.char (· == '-')))
    (.seq (.rep (.char labelChar) 1 63) (.notBehind (· == '-')))

/-- `_FQDN_RE`; `.` is any character but a line feed. -/
def fqdnPattern : Pattern :=
  .seq .start
    (.seq (.ahead (.seq (.rep (.char (· != '\n')) 1 253) .stop))
      (.seq labelPattern
        (.seq (.plus (.seq (.char (· == '.')) labelPattern)) .stop)))

/-- `normalize_and_validate_fqdn`. -/
def normalizeAndValidateFqdn (u : Unicode) (raw : String) : Py String :=
  let domain := (u.lower (u.strip raw.toList)).rdropWhile (· == '.')
  if domain.isEmpty || !fqdnPattern.fullmatch domain then
    .raise (.http 400 "Invalid FQDN")
  else
    return String.ofList domain

/-! ### What an accepted name is like -/

/-- The name that the validator looks at. -/
def normalized (u : Unicode) (raw : String) : List Char :=
  (u.lower (u.strip raw.toList)).rdropWhile (· == '.')

/-- The validator accepts the name. -/
def IsFqdn (domain : List Char) : Prop :=
  domain ≠ [] ∧ fqdnPattern.fullmatch domain = true

instance : DecidablePred IsFqdn := fun _ ↦
  inferInstanceAs (Decidable (_ ∧ _))

/-- The function returns the normalized text if the pattern matches it, and raises the 400
otherwise. -/
theorem normalizeAndValidateFqdn_eq (u : Unicode) (raw : String) :
    normalizeAndValidateFqdn u raw = if IsFqdn (normalized u raw) then
      pure (String.ofList (normalized u raw)) else .raise (.http 400 "Invalid FQDN") := by
  have h : ((normalized u raw).isEmpty || !fqdnPattern.fullmatch (normalized u raw)) = true ↔
      ¬ IsFqdn (normalized u raw) := by
    simp [IsFqdn, List.isEmpty_iff]
    tauto
  unfold normalizeAndValidateFqdn
  rw [normalized] at h ⊢
  by_cases hname : IsFqdn ((u.lower (u.strip raw.toList)).rdropWhile (· == '.'))
  · rw [if_neg (fun h' ↦ h.1 h' hname), if_pos hname]
  · rw [if_pos (h.2 hname), if_neg hname]

/-! ### Names as lists of labels -/

/-- One part of a name. -/
structure IsLabel (l : List Char) : Prop where
  length_pos : 1 ≤ l.length
  length_le : l.length ≤ 63
  chars : ∀ c ∈ l, labelChar c = true
  not_head : l.head? ≠ some '-'
  not_last : l.getLast? ≠ some '-'

/-- A name is a list of at least two labels, separated by dots, in at most 253 characters. -/
structure IsDomainName (t : List Char) : Prop where
  length_le : t.length ≤ 253
  two_le : 2 ≤ (t.splitOn '.').length
  labels : ∀ l ∈ t.splitOn '.', IsLabel l

/-- A label is not empty. -/
theorem IsLabel.ne_nil {l : List Char} (h : IsLabel l) : l ≠ [] :=
  List.ne_nil_of_length_pos h.length_pos

/-- There is no dot in a label. -/
theorem IsLabel.dot_notMem {l : List Char} (h : IsLabel l) : '.' ∉ l := fun hdot ↦
  absurd (h.chars _ hdot) (by decide)

/-- The pattern of a label reads the labels and nothing else. -/
theorem recognises_labelPattern : labelPattern.Recognises IsLabel := by
  intro p p'
  rw [labelPattern, Pattern.mem_ends_seq]
  constructor
  · rintro ⟨p₁, h₁, h⟩
    obtain ⟨rfl, hahead⟩ := Pattern.mem_ends_notAhead.1 h₁
    obtain ⟨p₂, h₂, h₃⟩ := Pattern.mem_ends_seq.1 h
    obtain ⟨rfl, hbehind⟩ := Pattern.mem_ends_notBehind.1 h₃
    obtain ⟨w, ⟨hpos, hle, hw⟩, hreads⟩ := (Pattern.recognises_rep_char _ _ _ _ _).1 h₂
    refine ⟨w, ⟨hpos, hle, hw, fun hhead ↦ ?_, fun hlast ↦ ?_⟩, hreads⟩
    · obtain ⟨rest, rfl⟩ := List.head?_eq_some_iff.1 hhead
      refine hahead ⟨'-' :: p₁.before, rest ++ p'.after⟩ ?_
      exact (Pattern.recognises_char _ _ _).2 ⟨['-'], ⟨'-', rfl, rfl⟩, hreads.1, rfl⟩
    · obtain ⟨rest, rfl⟩ := List.getLast?_eq_some_iff.1 hlast
      have hhead : p'.before.head? = some '-' := by
        rw [hreads.2]
        simp
      exact absurd (hbehind '-' hhead) (by decide)
  · rintro ⟨w, hw, hreads⟩
    have hne := hw.ne_nil
    refine ⟨p, Pattern.mem_ends_notAhead.2 ⟨rfl, fun p₁ h₁ ↦ ?_⟩,
      Pattern.mem_ends_seq.2 ⟨p', ?_, ?_⟩⟩
    · obtain ⟨_, ⟨c, hc, rfl⟩, hafter, -⟩ := (Pattern.recognises_char _ _ _).1 h₁
      refine hw.not_head ?_
      cases w with
      | nil => exact absurd rfl hne
      | cons c' w =>
        rw [hreads.1] at hafter
        obtain rfl : c' = c := (List.cons.inj hafter).1
        rw [List.head?_cons, beq_iff_eq.1 hc]
    · exact (Pattern.recognises_rep_char _ _ _ _ _).2
        ⟨w, ⟨hw.length_pos, hw.length_le, hw.chars⟩, hreads⟩
    · refine Pattern.mem_ends_notBehind.2 ⟨rfl, fun c hc ↦ ?_⟩
      have hlast : w.getLast? = some c := by
        have hne' : w.reverse ≠ [] := fun h ↦ hne (List.reverse_eq_nil_iff.1 h)
        rw [hreads.2, List.head?_append_of_ne_nil _ hne'] at hc
        rw [← List.head?_reverse]
        exact hc
      exact beq_eq_false_iff_ne.2 fun hdash ↦ hw.not_last (hdash ▸ hlast)

theorem intercalate_dot (l : List Char) (ls : List (List Char)) :
    ['.'].intercalate (l :: ls) = l ++ (ls.map ('.' :: ·)).flatten := by
  induction ls generalizing l with
  | nil => simp
  | cons l' ls ih => rw [List.intercalate_cons_cons, ih, List.map_cons, List.flatten_cons]; simp

/-- A label, and then further ones, each after a dot. -/
def IsDotted (t : List Char) : Prop :=
  ∃ l ls, IsLabel l ∧ ls ≠ [] ∧ (∀ l' ∈ ls, IsLabel l') ∧ t = l ++ (ls.map ('.' :: ·)).flatten

/-- Splitting at the dots gives the labels back. -/
theorem isDotted_iff {t : List Char} :
    IsDotted t ↔ 2 ≤ (t.splitOn '.').length ∧ ∀ l ∈ t.splitOn '.', IsLabel l := by
  constructor
  · rintro ⟨l, ls, hl, hne, hls, rfl⟩
    have hlabels : ∀ l' ∈ l :: ls, IsLabel l' := List.forall_mem_cons.2 ⟨hl, hls⟩
    have hsplit : (l ++ (ls.map ('.' :: ·)).flatten).splitOn '.' = l :: ls := by
      rw [← intercalate_dot]
      exact List.splitOn_intercalate '.' (fun l' hl' ↦ (hlabels l' hl').dot_notMem) (by simp)
    have hpos := List.length_pos_iff.2 hne
    rw [hsplit]
    exact ⟨Nat.succ_le_succ hpos, hlabels⟩
  · rintro ⟨htwo, hlabels⟩
    have ht : ['.'].intercalate (t.splitOn '.') = t := List.intercalate_splitOn '.'
    revert htwo hlabels ht
    cases t.splitOn '.' with
    | nil => exact fun htwo ↦ absurd htwo (by simp)
    | cons l ls =>
      intro htwo hlabels ht
      obtain ⟨hl, hls⟩ := List.forall_mem_cons.1 hlabels
      refine ⟨l, ls, hl, ?_, hls, ?_⟩
      · rintro rfl
        exact absurd htwo (by simp)
      · rw [← ht, intercalate_dot]

/-- The pattern of the later labels reads one or more of them, each after its dot. -/
theorem recognises_dottedLabels :
    (Pattern.plus (.seq (.char (· == '.')) labelPattern)).Recognises fun w ↦
      ∃ ls : List (List Char), ls ≠ [] ∧ (∀ l ∈ ls, IsLabel l) ∧
        w = (ls.map ('.' :: ·)).flatten := by
  have hplus := Pattern.Recognises.plus
    ((Pattern.recognises_char (· == '.')).seq recognises_labelPattern) (by
      rintro _ ⟨_, b, ⟨c, -, rfl⟩, -, rfl⟩
      simp)
  intro p p'
  rw [hplus p p']
  constructor
  · rintro ⟨_, ⟨ws, hne, hws, rfl⟩, hreads⟩
    refine ⟨_, ⟨ws.map List.tail, by simpa using hne, ?_, ?_⟩, hreads⟩
    · intro l hl
      obtain ⟨w, hw, rfl⟩ := List.mem_map.1 hl
      obtain ⟨_, l, ⟨c, -, rfl⟩, hlabel, rfl⟩ := hws w hw
      exact hlabel
    · rw [List.map_map]
      refine congrArg List.flatten ((List.map_id _).symm.trans (List.map_congr_left fun w hw ↦ ?_))
      obtain ⟨_, l, ⟨c, hc, rfl⟩, -, rfl⟩ := hws w hw
      rw [beq_iff_eq.1 hc]
      rfl
  · rintro ⟨_, ⟨ls, hne, hls, rfl⟩, hreads⟩
    refine ⟨_, ⟨ls.map ('.' :: ·), by simpa using hne, fun w hw ↦ ?_, rfl⟩, hreads⟩
    obtain ⟨l, hl, rfl⟩ := List.mem_map.1 hw
    exact ⟨['.'], l, ⟨'.', rfl, rfl⟩, hls l hl, rfl⟩

/-- Labels and dots have no other characters. -/
theorem IsDotted.chars {t : List Char} (h : IsDotted t) :
    ∀ c ∈ t, labelChar c = true ∨ c = '.' := by
  obtain ⟨l, ls, hl, -, hls, rfl⟩ := h
  intro c hc
  rcases List.mem_append.1 hc with hc | hc
  · exact Or.inl (hl.chars c hc)
  · obtain ⟨w, hw, hc⟩ := List.mem_flatten.1 hc
    obtain ⟨l', hl', rfl⟩ := List.mem_map.1 hw
    rcases List.mem_cons.1 hc with rfl | hc
    · exact Or.inr rfl
    · exact Or.inl ((hls l' hl').chars c hc)

/-- A domain name is made of labels and dots. -/
theorem IsDomainName.isDotted {t : List Char} (h : IsDomainName t) : IsDotted t :=
  isDotted_iff.2 ⟨h.two_le, h.labels⟩

/-- The regular expression accepts the names, and nothing else. The lookahead alone would let a
final line feed pass, but no label contains one. -/
theorem isFqdn_iff {t : List Char} : IsFqdn t ↔ IsDomainName t := by
  -- a match that ends at the end of the text has read all of it
  have hplace : ∀ {w : List Char} {p' : Place}, Pattern.Reads w ⟨[], t⟩ p' → p'.after = [] →
      t = w := by
    intro w p' h hend
    have hafter : t = w ++ p'.after := h.1
    rwa [hend, List.append_nil] at hafter
  constructor
  · rintro ⟨-, hmatch⟩
    obtain ⟨p', hp', hend⟩ := List.any_eq_true.1 hmatch
    obtain ⟨p₀, h₀, h₁⟩ := Pattern.mem_ends_seq.1 hp'
    obtain ⟨rfl, -⟩ := Pattern.mem_ends_start.1 h₀
    obtain ⟨p₁, hahead, h₂⟩ := Pattern.mem_ends_seq.1 h₁
    obtain ⟨rfl, p₄, h₄⟩ := Pattern.mem_ends_ahead.1 hahead
    obtain ⟨p₂, hlabel, h₃⟩ := Pattern.mem_ends_seq.1 h₂
    obtain ⟨p₃, hlabels, hstop⟩ := Pattern.mem_ends_seq.1 h₃
    obtain ⟨rfl, -⟩ := Pattern.mem_ends_stop.1 hstop
    obtain ⟨l, hl, hreads⟩ := (recognises_labelPattern _ _).1 hlabel
    obtain ⟨_, ⟨ls, hne, hls, rfl⟩, hreads'⟩ := (recognises_dottedLabels _ _).1 hlabels
    have ht := hplace (Pattern.reads_append.2 ⟨p₂, hreads, hreads'⟩) (List.isEmpty_iff.1 hend)
    have hdotted : IsDotted t := ⟨l, ls, hl, hne, hls, ht⟩
    obtain ⟨htwo, hsplit⟩ := isDotted_iff.1 hdotted
    refine ⟨?_, htwo, hsplit⟩
    obtain ⟨p₅, h₅, h₆⟩ := Pattern.mem_ends_seq.1 h₄
    obtain ⟨w, ⟨-, hle, -⟩, hreads₅⟩ := (Pattern.recognises_rep_char _ _ _ _ _).1 h₅
    have hafter : t = w ++ p₅.after := hreads₅.1
    -- the lookahead counts the characters, up to a final line feed that no label contains
    rcases (Pattern.mem_ends_stop.1 h₆).2 with hnil | hfeed
    · rw [hnil, List.append_nil] at hafter
      rwa [hafter]
    · rw [hfeed] at hafter
      rcases hdotted.chars '\n' (by rw [hafter]; simp) with hchar | hchar
      · exact absurd hchar (by decide)
      · exact absurd hchar (by decide)
  · intro h
    obtain ⟨l, ls, hl, hne, hls, ht⟩ := h.isDotted
    have hpos : 1 ≤ t.length := by
      rw [ht, List.length_append]
      exact hl.length_pos.trans (Nat.le_add_right _ _)
    refine ⟨List.ne_nil_of_length_pos hpos, List.any_eq_true.2 ⟨⟨t.reverse, []⟩, ?_, rfl⟩⟩
    -- conversely, the labels themselves are the word to read
    refine Pattern.mem_ends_seq.2 ⟨_, Pattern.mem_ends_start.2 ⟨rfl, rfl⟩, ?_⟩
    refine Pattern.mem_ends_seq.2 ⟨_, Pattern.mem_ends_ahead.2 ⟨rfl, ⟨t.reverse, []⟩, ?_⟩, ?_⟩
    · refine Pattern.mem_ends_seq.2 ⟨⟨t.reverse, []⟩, (Pattern.recognises_rep_char _ _ _ _ _).2
        ⟨t, ⟨hpos, h.length_le, fun c hc ↦ ?_⟩, by simp, by simp⟩,
        Pattern.mem_ends_stop.2 ⟨rfl, Or.inl rfl⟩⟩
      rcases h.isDotted.chars c hc with hchar | rfl
      · refine bne_iff_ne.2 fun hfeed ↦ ?_
        rw [hfeed] at hchar
        exact absurd hchar (by decide)
      · decide
    · have hreads : Pattern.Reads (l ++ (ls.map ('.' :: ·)).flatten) ⟨[], t⟩ ⟨t.reverse, []⟩ := by
        rw [← ht]
        exact ⟨by simp, by simp⟩
      obtain ⟨p₂, h₂, h₃⟩ := Pattern.reads_append.1 hreads
      refine Pattern.mem_ends_seq.2 ⟨p₂, (recognises_labelPattern _ _).2 ⟨l, hl, h₂⟩, ?_⟩
      exact Pattern.mem_ends_seq.2 ⟨_, (recognises_dottedLabels _ _).2 ⟨_, ⟨ls, hne, hls, rfl⟩, h₃⟩,
        Pattern.mem_ends_stop.2 ⟨rfl, Or.inl rfl⟩⟩

/-- An accepted name fits its column. -/
theorem IsFqdn.length_le {domain : List Char} (h : IsFqdn domain) : domain.length ≤ 253 :=
  (isFqdn_iff.1 h).length_le

/-! ### Names in their normal form -/

/-- What the two methods do to ASCII texts. -/
structure Unicode.OnAscii (u : Unicode) : Prop where
  /-- A text of visible characters has no blanks around it. -/
  strip_visible : ∀ t : List Char, (∀ c ∈ t, '!' ≤ c ∧ c ≤ '~') → u.strip t = t
  lower_ascii : ∀ t : List Char, (∀ c ∈ t, c ≤ '~') → u.lower t = t.map Char.toLower

/-- `str.isspace()` of an ASCII character. -/
def isBlank (c : Char) : Bool :=
  c == ' ' || ('\t' ≤ c && c ≤ '\r') || ('\x1c' ≤ c && c ≤ '\x1f')

/-- The two methods, for ASCII texts. -/
def Unicode.ascii : Unicode where
  strip t := (t.dropWhile isBlank).rdropWhile isBlank
  lower t := t.map Char.toLower

/-- A visible character is not blank. -/
theorem isBlank_of_visible {c : Char} (h : '!' ≤ c) : isBlank c = false := by
  have hle : ∀ c' : Char, c' < '!' → ¬ c ≤ c' := fun c' hc' hle ↦ not_lt_of_ge (h.trans hle) hc'
  have hne : c ≠ ' ' := fun hc ↦ hle ' ' (by decide) hc.le
  simp [isBlank, hne, hle '\r' (by decide), hle '\x1f' (by decide)]

/-- The functions that only know ASCII do on ASCII what Python's do. -/
theorem Unicode.onAscii_ascii : Unicode.ascii.OnAscii where
  strip_visible t ht := by
    have hsolid : ∀ c ∈ t, isBlank c = false := fun c hc ↦ isBlank_of_visible (ht c hc).1
    have hdrop : t.dropWhile isBlank = t := by
      cases t with
      | nil => rfl
      | cons c t => simp [hsolid c List.mem_cons_self]
    show (t.dropWhile isBlank).rdropWhile isBlank = t
    rw [hdrop, List.rdropWhile_eq_self_iff]
    intro hne
    simp [hsolid _ (List.getLast_mem hne)]
  lower_ascii _ _ := rfl

theorem toLower_eq_self {c : Char} (h : c < 'A' ∨ 'Z' < c) : c.toLower = c := by
  refine dif_neg ?_
  rintro ⟨hA, hZ⟩
  exact h.elim (fun h ↦ not_lt_of_ge hA h) fun h ↦ not_lt_of_ge hZ h

/-- The characters of a name are visible, and none of them is a capital letter. -/
theorem visible_of_labelChar {c : Char} (h : labelChar c = true ∨ c = '.') :
    '!' ≤ c ∧ c ≤ '~' ∧ c.toLower = c := by
  simp only [labelChar, Bool.or_eq_true, Bool.and_eq_true, decide_eq_true_eq, beq_iff_eq] at h
  rcases h with ((⟨ha, hz⟩ | ⟨h0, h9⟩) | rfl) | rfl
  · exact ⟨le_trans (by decide) ha, hz.trans (by decide),
      toLower_eq_self (Or.inr (lt_of_lt_of_le (by decide) ha))⟩
  · exact ⟨le_trans (by decide) h0, h9.trans (by decide),
      toLower_eq_self (Or.inl (lt_of_le_of_lt h9 (by decide)))⟩
  · decide
  · decide

/-- A name does not end in a dot. -/
theorem IsDomainName.getLast?_ne {t : List Char} (h : IsDomainName t) : t.getLast? ≠ some '.' := by
  intro hlast
  obtain ⟨s, rfl⟩ := List.getLast?_eq_some_iff.1 hlast
  refine (h.labels [] ?_).ne_nil rfl
  rw [List.splitOn_append_cons_self]
  simp

/-- A domain name does not end in a dot. -/
theorem IsDomainName.rdropWhile_dot {t : List Char} (h : IsDomainName t) :
    t.rdropWhile (· == '.') = t := by
  refine List.rdropWhile_eq_self_iff.2 fun hne hdot ↦ h.getLast?_ne ?_
  rw [List.getLast?_eq_some_getLast hne, beq_iff_eq.1 hdot]

/-- A name is its own normal form. -/
theorem IsDomainName.normalized {u : Unicode} (hu : u.OnAscii) {t : List Char}
    (h : IsDomainName t) : normalized u (String.ofList t) = t := by
  have hchars := fun c hc ↦ visible_of_labelChar (h.isDotted.chars c hc)
  have hlower : t.map Char.toLower = t :=
    (List.map_congr_left fun c hc ↦ (hchars c hc).2.2).trans (List.map_id t)
  rw [AssetDiscovery.normalized, String.toList_ofList,
    hu.strip_visible t fun c hc ↦ ⟨(hchars c hc).1, (hchars c hc).2.1⟩,
    hu.lower_ascii t fun c hc ↦ (hchars c hc).2.1, hlower, h.rdropWhile_dot]

/-- **The validator accepts exactly the names with at least two labels in at most 253 characters**,
of the stripped and lowered text without its trailing dots, and what it returns is its own normal
form. -/
theorem normalizeAndValidateFqdn_accepts {u : Unicode} (hu : u.OnAscii) (raw : String) :
    (normalizeAndValidateFqdn u raw = pure (String.ofList (normalized u raw)) ↔
      IsDomainName (normalized u raw)) ∧
    (¬ IsDomainName (normalized u raw) →
      normalizeAndValidateFqdn u raw = .raise (.http 400 "Invalid FQDN")) ∧
    (IsDomainName (normalized u raw) →
      normalized u (String.ofList (normalized u raw)) = normalized u raw ∧
      normalizeAndValidateFqdn u (String.ofList (normalized u raw)) =
        pure (String.ofList (normalized u raw))) := by
  have hraise : (.raise (.http 400 "Invalid FQDN") : Py String) ≠
      pure (String.ofList (normalized u raw)) := by
    intro h
    have hnew := congrFun h .new
    simp [Py.raise, pure, Py.pure] at hnew
  rw [← isFqdn_iff, normalizeAndValidateFqdn_eq]
  refine ⟨⟨fun h ↦ ?_, fun h ↦ if_pos h⟩, fun h ↦ if_neg h, fun h ↦ ?_⟩
  · by_contra hname
    rw [if_neg hname] at h
    exact hraise h
  · have hself := (isFqdn_iff.1 h).normalized hu
    refine ⟨hself, ?_⟩
    rw [normalizeAndValidateFqdn_eq, hself, if_pos h]

/-- `normalizeAndValidateFqdn_accepts` for the name of a test, in another spelling. -/
theorem normalizeAndValidateFqdn_accepts_capitals :
    IsDomainName (normalized .ascii " Example.COM. ") ∧
      normalizeAndValidateFqdn .ascii " Example.COM. " = pure "example.com" := by
  have hname : IsDomainName (normalized .ascii " Example.COM. ") := isFqdn_iff.1 (by decide)
  exact ⟨hname, (normalizeAndValidateFqdn_accepts Unicode.onAscii_ascii _).1.2 hname⟩

end AssetDiscovery
