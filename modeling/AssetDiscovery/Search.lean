import AssetDiscovery.Library.Like
import AssetDiscovery.Listing

/-!
# Searching for domains

`list_domains` puts the text that is searched for between two `%` and leaves the rest to `ILIKE`. In
a pattern three characters have a meaning of their own, and none of them occurs in a name: a text
with one of them is contained in no name, but as a pattern it may match some. `searches_iff` says
when this makes a difference.

`ILIKE` is `LIKE` after both sides have been converted to lower case by the database
(`CaseFolding`).
-/

set_option autoImplicit false

namespace AssetDiscovery

open Like

/-- How the database converts characters to lower case, with what it has in common with `str.lower`:
it does not change the result of that, and neither the characters of names nor the wildcard. -/
structure CaseFolding (u : Unicode) where
  fold : Char → Char
  fold_lower : ∀ t : List Char, ∀ c ∈ u.strip (u.lower t), fold c = c
  fold_name : ∀ c, labelChar c = true ∨ c = '.' → fold c = c
  fold_wildcard : fold '%' = '%'

/-- `name ILIKE pattern`. -/
def CaseFolding.ilike {u : Unicode} (k : CaseFolding u) (name pattern : String) : Bool :=
  like (name.toList.map k.fold) (pattern.toList.map k.fold)

/-- The text that is searched for, in lower case and without blanks around it. -/
def searchText (u : Unicode) (search : String) : List Char :=
  u.strip (u.lower search.toList)

/-- The domain has the status, if one is given, and its name contains the text. -/
def Domain.Contains (status : Option DomainStatus) (text : List Char) (d : Domain) : Prop :=
  (∀ st ∈ status, d.status = st) ∧ text <:+: d.name.toList

instance (status : Option DomainStatus) (text : List Char) :
    DecidablePred (Domain.Contains status text) := fun _ ↦
  inferInstanceAs (Decidable (_ ∧ _))

section Search

variable {u : Unicode} (k : CaseFolding u) (db : Database) (status : Option DomainStatus)
  (search : String)

/-- The listing counts, and pages over, the domains whose names contain the text. -/
def Searches : Prop :=
  ∀ maxPageSize order page limit,
    DomainService.listDomains maxPageSize u k.ilike db order page limit status (some search) =
      listResponse maxPageSize (listRows order db.domains.rows
          (fun d ↦ d.Contains status (searchText u search))
          (fun d ↦ d.Contains status (searchText u search)))
        (fun d ↦ ⟨d.id, d.name, d.status⟩) page limit

/-- The filter of the code. -/
def sent (d : Domain) : Bool :=
  status.all (d.status == ·) && k.ilike d.name ("%" ++ String.ofList (searchText u search) ++ "%")

/-- The text, read as a pattern, matches the name of no domain with the status. -/
def MatchesNone : Prop :=
  ∀ d ∈ db.domains, (∀ st ∈ status, d.status = st) →
    ¬ k.ilike d.name ("%" ++ String.ofList (searchText u search) ++ "%")

variable {k db status search}

/-- A listing depends only on which of the rows match. -/
theorem listRows_congr {Row : Type} {createdAt : Row → Time} {rows : List Row}
    {stmt stmt' : Row → Bool} (h : ∀ row ∈ rows, stmt row = stmt' row) (order : OrderBy createdAt) :
    listRows order rows stmt stmt = listRows order rows stmt' stmt' := by
  funext page limit
  have hcount : rows.countP stmt = rows.countP stmt' := by
    rw [List.countP_eq_length_filter, List.countP_eq_length_filter, List.filter_congr h]
  rw [listRows, listRows, List.filter_congr h, hcount]

/-- What the code does for a text that is not empty. -/
theorem listDomains_eq (hsearch : search ≠ "") (maxPageSize : ℤ)
    (order : OrderBy Domain.createdAt) (page limit : ℤ) :
    DomainService.listDomains maxPageSize u k.ilike db order page limit status (some search) =
      listResponse maxPageSize (listRows order db.domains.rows (sent k status search)
        (sent k status search)) (fun d ↦ ⟨d.id, d.name, d.status⟩) page limit := by
  have hfilter : (some search).filter (· ≠ "") = some search := by simp [Option.filter, hsearch]
  simp only [DomainService.listDomains, DomainRepo.listDomains, hfilter, Option.all_some]
  rfl

/-- Neither side of the comparison is changed by the database. -/
theorem ilike_eq {name : String} (hname : IsDomainName name.toList) :
    k.ilike name ("%" ++ String.ofList (searchText u search) ++ "%") =
      like name.toList ('%' :: (searchText u search ++ ['%'])) := by
  have hfold : name.toList.map k.fold = name.toList :=
    (List.map_congr_left fun c hc ↦ k.fold_name c (hname.isDotted.chars c hc)).trans
      (List.map_id _)
  have hlower : (searchText u search).map k.fold = searchText u search :=
    (List.map_congr_left fun c hc ↦ k.fold_lower _ c hc).trans (List.map_id _)
  simp [CaseFolding.ilike, hfold, hlower, k.fold_wildcard]

/-- A text that is not literal is contained in no name. -/
theorem not_infix_name {name : String} (hname : IsDomainName name.toList) {t : List Char}
    (ht : ¬ Literal t) : ¬ t <:+: name.toList := by
  intro h
  refine ht fun c hc ↦ ?_
  have hlabel := hname.isDotted.chars c (h.subset hc)
  refine ⟨?_, ?_, ?_⟩
  all_goals
    rintro rfl
    exact absurd hlabel (by decide)

theorem sent_iff {d : Domain} : sent k status search d ↔ (∀ st ∈ status, d.status = st) ∧
    k.ilike d.name ("%" ++ String.ofList (searchText u search) ++ "%") := by
  cases status with
  | none => simp [sent]
  | some st => simp [sent]

/-- **Searching for domains is searching for a text in their names**, unless the text contains a
character with a meaning of its own and matches a name as a pattern. -/
theorem searches_iff (k : CaseFolding u) (db : Database)
    (hnames : ∀ d ∈ db.domains, IsDomainName d.name.toList) (status : Option DomainStatus)
    (search : String) (hsearch : search ≠ "") :
    Searches k db status search ↔
      Literal (searchText u search) ∨ MatchesNone k db status search := by
  constructor
  · intro h
    by_cases hliteral : Literal (searchText u search)
    · exact Or.inl hliteral
    · refine Or.inr fun d hd hstatus hmatch ↦ ?_
      have hfirst := h 1 (.stable _ id fun _ ↦ .refl _) ((0 : ℕ) + 1) 1
      rw [listDomains_eq hsearch, listResponse_eq _ le_rfl le_rfl, listResponse_eq _ le_rfl le_rfl]
        at hfirst
      have htotal := congrArg ListResponse.total (Except.ok.inj hfirst)
      have hnone : db.domains.rows.filter (fun d ↦ d.Contains status (searchText u search)) = [] :=
        List.filter_eq_nil_iff.2 fun d hd hcontains ↦
          not_infix_name (hnames d hd) hliteral (of_decide_eq_true hcontains).2
      have hsome : d ∈ db.domains.rows.filter (sent k status search) :=
        List.mem_filter.2 ⟨hd, sent_iff.2 ⟨hstatus, hmatch⟩⟩
      rw [hnone] at htotal
      exact List.ne_nil_of_mem hsome (List.eq_nil_of_length_eq_zero htotal)
  · intro h maxPageSize order page limit
    have hsame : ∀ d ∈ db.domains.rows,
        sent k status search d = decide (d.Contains status (searchText u search)) := by
      intro d hd
      rw [Bool.eq_iff_iff, sent_iff, decide_eq_true_iff, Domain.Contains, ilike_eq (hnames d hd)]
      refine and_congr_right fun hstatus ↦ ?_
      by_cases hliteral : Literal (searchText u search)
      · exact like_contains hliteral _
      · refine iff_of_false ?_ (not_infix_name (hnames d hd) hliteral)
        rw [← ilike_eq (hnames d hd)]
        exact h.resolve_left hliteral d hd hstatus
    rw [listDomains_eq hsearch, listRows_congr hsame]

end Search

/-! ### ASCII texts -/

theorem toLower_toLower (c : Char) : c.toLower.toLower = c.toLower := by
  by_cases h : 'A' ≤ c ∧ c ≤ 'Z'
  · refine toLower_eq_self (Or.inr ?_)
    have hrange : 65 ≤ c.toNat ∧ c.toNat ≤ 90 := h
    have hlower : c.toLower.val = c.val + 32 := congrArg Char.val (dif_pos h)
    have hsum : (c.val + 32).toNat = c.toNat + 32 := by
      rw [UInt32.toNat_add]
      exact Nat.mod_eq_of_lt (show c.toNat + 32 < 2 ^ 32 by omega)
    show 90 < c.toLower.val.toNat
    rw [hlower, hsum]
    omega
  · rw [not_and_or, not_le, not_le] at h
    rw [toLower_eq_self h, toLower_eq_self h]

/-- The conversion of ASCII characters. -/
def asciiFolding : CaseFolding .ascii where
  fold := Char.toLower
  fold_lower t c hc := by
    have hmem : c ∈ t.map Char.toLower :=
      (List.dropWhile_sublist _).subset ((List.rdropWhile_prefix _ _).subset hc)
    obtain ⟨c', -, rfl⟩ := List.mem_map.1 hmem
    exact toLower_toLower c'
  fold_name c hc := (visible_of_labelChar hc).2.2
  fold_wildcard := by decide

theorem isDomainName_oneDomain : ∀ d ∈ Store.oneDomain.db.domains, IsDomainName d.name.toList := by
  intro d hd
  obtain rfl : d = ⟨0, "a.b", .completed, 7, 0⟩ := List.mem_singleton.1 hd
  exact isFqdn_iff.1 (by decide)

/-- `searches_iff` for a text in capitals. -/
theorem searches_capital : Searches asciiFolding Store.oneDomain.db (some .completed) " A.B " :=
  (searches_iff asciiFolding Store.oneDomain.db isDomainName_oneDomain (some .completed) " A.B "
    (by decide)).2 (Or.inl (by decide))

/-- An underscore is found in every name, though it is in none. -/
theorem not_searches : ¬ ∀ (u : Unicode) (k : CaseFolding u) (db : Database)
    (status : Option DomainStatus) (search : String),
    (∀ d ∈ db.domains, IsDomainName d.name.toList) → search ≠ "" →
      Searches k db status search := by
  intro h
  have hsearches :=
    h .ascii asciiFolding Store.oneDomain.db none "_" isDomainName_oneDomain (by decide)
  rcases (searches_iff asciiFolding Store.oneDomain.db isDomainName_oneDomain none "_"
    (by decide)).1 hsearches with hliteral | hnone
  · exact absurd hliteral (by decide)
  · exact hnone _ (List.mem_singleton_self _) (by simp) (by decide)

end AssetDiscovery
