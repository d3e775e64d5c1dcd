import AssetDiscovery.Alone.Runs

/-!
# Spellings of a name

A domain is created from what a client sends, which passes two validators: `DomainCreateRequest`
bounds the raw text, and `normalize_and_validate_fqdn` the normalised one. A name may be spelt with
capital letters and with the dot of the root behind it. Every spelling that the first validator lets
pass registers the same name (`registers_iff`), and it stops the dot behind a name that already has
all 253 characters.
-/

set_option autoImplicit false

namespace AssetDiscovery

open Py

/-- `DomainCreateRequest`. -/
structure DomainCreateRequest where
  domain : String
  min_length : 1 ≤ domain.length
  max_length : domain.length ≤ 253

/-- The request that a text is parsed to; `none` is a validation error. -/
def DomainCreateRequest.parse (domain : String) : Option DomainCreateRequest :=
  if h : 1 ≤ domain.length ∧ domain.length ≤ 253 then some ⟨domain, h.1, h.2⟩ else none

/-- `t` is the name `d` in any case, perhaps with the dot of the root. -/
def IsSpelling (d t : List Char) : Prop :=
  ∃ v : List Char, v.map Char.toLower = d ∧ (t = v ∨ t = v ++ ['.'])

/-- The text passes the schema, and `create_domain`, run alone to its end, stores exactly the name
`d` and returns it. -/
def Registers (u : Unicode) (user : Id) (s : Store) (d t : List Char) : Prop :=
  ∃ payload, DomainCreateRequest.parse (String.ofList t) = some payload ∧
    ∀ (lookups : AssetType → Lookup) (ω : ℕ → Env), ∃ x id ω' s',
      s.serveTo true lookups ((Request.create payload.domain user).code u) ω =
        some (.ok (.domain id (String.ofList d) .pending), ω', s') ∧
      Registered s.db x id (String.ofList d) s'.db

variable {u : Unicode} {d t : List Char}

theorem DomainCreateRequest.domain_of_parse {domain : String} {payload : DomainCreateRequest}
    (h : parse domain = some payload) : payload.domain = domain := by
  rw [parse] at h
  split at h
  · rw [← Option.some.inj h]
  · exact absurd h (by simp)

/-- Lowering the case of an ASCII letter gives an ASCII letter, and no other character is lowered to
one. -/
theorem visible_of_toLower {c : Char} (h : '!' ≤ c.toLower ∧ c.toLower ≤ '~') :
    '!' ≤ c ∧ c ≤ '~' := by
  by_cases hupper : 'A' ≤ c ∧ c ≤ 'Z'
  · exact ⟨le_trans (by decide) hupper.1, hupper.2.trans (by decide)⟩
  · rw [not_and_or, not_le, not_le] at hupper
    rwa [toLower_eq_self hupper] at h

/-- Every spelling of a name has the name as its normal form. -/
theorem IsSpelling.normalized (hu : u.OnAscii) (hd : IsDomainName d) (h : IsSpelling d t) :
    normalized u (String.ofList t) = d := by
  obtain ⟨v, hv, ht⟩ := h
  have hvisible : ∀ c ∈ v, '!' ≤ c ∧ c ≤ '~' := by
    intro c hc
    have hlabel := visible_of_labelChar (hd.isDotted.chars c.toLower (hv ▸ List.mem_map_of_mem hc))
    exact visible_of_toLower ⟨hlabel.1, hlabel.2.1⟩
  have hvisible' : ∀ c ∈ t, '!' ≤ c ∧ c ≤ '~' := by
    intro c hc
    rcases ht with rfl | rfl
    · exact hvisible c hc
    · rcases List.mem_append.1 hc with hc | hc
      · exact hvisible c hc
      · rw [List.mem_singleton.1 hc]
        decide
  rw [AssetDiscovery.normalized, String.toList_ofList, hu.strip_visible t hvisible',
    hu.lower_ascii t fun c hc ↦ (hvisible' c hc).2]
  rcases ht with rfl | rfl
  · rw [hv, hd.rdropWhile_dot]
  · rw [List.map_append, hv]
    show (d ++ ['.']).rdropWhile (· == '.') = d
    rw [List.rdropWhile_concat_pos _ _ _ rfl, hd.rdropWhile_dot]

theorem IsSpelling.length_pos (hd : IsDomainName d) (h : IsSpelling d t) : 1 ≤ t.length := by
  obtain ⟨v, rfl, ht⟩ := h
  have hv : 1 ≤ v.length := by
    rcases Nat.eq_zero_or_pos v.length with hzero | hpos
    · rw [List.length_eq_zero_iff.1 hzero] at hd
      exact absurd hd.two_le (by decide)
    · exact hpos
  rcases ht with rfl | rfl
  · exact hv
  · rw [List.length_append]
    exact hv.trans (Nat.le_add_right _ _)

/-- `create_domain`, for a payload whose normal form is a new name. -/
theorem Created.registered {payload : String} {db db' : Database} {q q' : List Message}
    {a : Except Exn Response} (h : Created u true payload db q a db' q') (hd : IsDomainName d)
    (hpayload : AssetDiscovery.normalized u payload = d)
    (hnew : db.domainByName (String.ofList d) = none) :
    ∃ x id, a = .ok (.domain id (String.ofList d) .pending) ∧
      Registered db x id (String.ofList d) db' := by
  subst hpayload
  cases h with
  | invalid hinvalid => exact absurd (isFqdn_iff.2 hd) hinvalid
  | taken htaken =>
    rw [hnew] at htaken
    exact absurd htaken (by simp)
  | unannounced hup => exact absurd hup (by simp)
  | created _ _ _ hname hstored =>
    subst hname
    exact ⟨_, _, rfl, hstored⟩

/-- **Every spelling that the schema lets pass registers the name**, as the name itself does. -/
theorem registers_iff (hu : u.OnAscii) (user : Id) {s : Store} (hs : s.Free) (hd : IsDomainName d)
    (hnew : s.db.domainByName (String.ofList d) = none) (h : IsSpelling d t) :
    Registers u user s d d ∧ (Registers u user s d t ↔ t.length ≤ 253) := by
  have hregisters : ∀ {t : List Char}, IsSpelling d t → t.length ≤ 253 →
      Registers u user s d t := by
    intro t ht hlen
    have hlengths : 1 ≤ (String.ofList t).length ∧ (String.ofList t).length ≤ 253 := by
      rw [String.length_ofList]
      exact ⟨ht.length_pos hd, hlen⟩
    refine ⟨_, dif_pos hlengths, fun lookups ω ↦ ?_⟩
    obtain ⟨a, ω', s', σ, q, hrun, -, -, -, hcreated⟩ :=
      (alone_create (c := { lookups := some lookups }) fun _ ↦ trivial).serveTo hs trivial ω
    obtain ⟨x, id, rfl, hstored⟩ := hcreated.registered hd (ht.normalized hu hd) hnew
    exact ⟨x, id, ω', s', hrun, hstored⟩
  refine ⟨hregisters ⟨d, ?_, Or.inl rfl⟩ hd.length_le, fun hreg ↦ ?_, hregisters h⟩
  · exact (List.map_congr_left fun c hc ↦
      (visible_of_labelChar (hd.isDotted.chars c hc)).2.2).trans (List.map_id d)
  · obtain ⟨payload, hparse, -⟩ := hreg
    have hmax := payload.max_length
    rwa [DomainCreateRequest.domain_of_parse hparse, String.length_ofList] at hmax

/-- `registers_iff` for the name of a test. -/
theorem registers_iff_capitals :
    Registers .ascii 7 .empty "example.com".toList "Example.COM.".toList := by
  have hd : IsDomainName "example.com".toList := isFqdn_iff.1 (by decide)
  exact (registers_iff Unicode.onAscii_ascii 7 Store.free_empty hd rfl
    ⟨"Example.COM".toList, by decide, Or.inr rfl⟩).2.2 (by decide)

/-- A name of 253 characters. -/
def longestName : List Char :=
  ['.'].intercalate [.replicate 63 'a', .replicate 63 'b', .replicate 63 'c', .replicate 61 'd']

/-- With the dot of the root it is too long for the schema. -/
theorem not_registers : ¬ ∀ (u : Unicode) (user : Id) (s : Store) (d t : List Char),
    u.OnAscii → s.Free → IsDomainName d → s.db.domainByName (String.ofList d) = none →
    IsSpelling d t → Registers u user s d t := by
  intro h
  have hd : IsDomainName longestName := isFqdn_iff.1 (by decide +kernel)
  obtain ⟨payload, hparse, -⟩ := h .ascii 7 .empty longestName (longestName ++ ['.'])
    Unicode.onAscii_ascii Store.free_empty hd rfl ⟨longestName, by decide +kernel, Or.inr rfl⟩
  have hmax := payload.max_length
  rw [DomainCreateRequest.domain_of_parse hparse, String.length_ofList] at hmax
  exact absurd hmax (by decide +kernel)

end AssetDiscovery
