import AssetDiscovery.Collection
import AssetDiscovery.Library.DnsName

/-!
# The values of assets

What `resolve_domain_records` stores of a record is text that comes from a zone of somebody else:
the address of an A or AAAA record as dnspython prints it, or the name in an NS or MX record,
without the dots at its end. `values_storable_iff` says when all values of an answer are meaningful
and fit the column `assets.value`: the name of the root leaves nothing, and a name of four labels
with 250 octets can take more than 1000 characters.
-/

set_option autoImplicit false

namespace AssetDiscovery

open Effect

/-- An IPv4 or IPv6 address in print. -/
def IsAddressText (text : String) : Prop :=
  text.length ≤ 45 ∧ ∃ c ∈ text.toList.getLast?, c ≠ '.'

/-- A record of a type. -/
inductive Record : AssetType → Type where
  | a (address : {text : String // IsAddressText text}) : Record .a
  | aaaa (address : {text : String // IsAddressText text}) : Record .aaaa
  | ns (target : Dns.Name) : Record .ns
  | mx (preference : ℕ) (exchange : Dns.Name) : Record .mx

/-- What dnspython hands over for a record. -/
def Record.rdata (P : Dns.Printer) {type : AssetType} : Record type → Rdata
  | .a address | .aaaa address => { toText := address }
  | .ns target =>
    { toText := String.ofList (P.name target), target := String.ofList (P.name target) }
  | .mx preference exchange =>
    { toText := toString preference ++ " " ++ String.ofList (P.name exchange)
      exchange := String.ofList (P.name exchange) }

/-- The outcome of a lookup that returns these records, or none. -/
def Lookup.Shows (P : Dns.Printer) {type : AssetType} (records : List (Record type)) :
    Lookup → Prop
  | .answer rdatas => rdatas = records.map (·.rdata P)
  | .nxdomain | .noAnswer | .noNameservers => records = []
  | .timeout .. | .dnsError .. | .otherError .. => False

/-- The value of an asset says something, and fits its column. -/
def Meaningful (value : String) : Prop :=
  value ≠ "" ∧ value.length ≤ valueWidth

/-- The name is not the root, and printed without the dots at its end it takes at most 1000
characters. -/
def NameFits (P : Dns.Printer) (n : Dns.Name) : Prop :=
  n.labels ≠ [] ∧ P.width n ≤ valueWidth + (if n.lastOctet = some 46 then 2 else 1)

instance (P : Dns.Printer) (n : Dns.Name) : Decidable (NameFits P n) :=
  inferInstanceAs (Decidable (_ ∧ _))

/-- The names in a record fit. -/
def Record.Fits (P : Dns.Printer) {type : AssetType} : Record type → Prop
  | .a _ | .aaaa _ => True
  | .ns target => NameFits P target
  | .mx _ exchange => NameFits P exchange

section Values

variable {P : Dns.Printer}

/-- The value of an address is meaningful. -/
theorem meaningful_address {text : String} (h : IsAddressText text) :
    Meaningful (rstripDot text) := by
  obtain ⟨hlen, c, hlast, hc⟩ := h
  have hself : text = rstripDot text := by
    refine stripped_iff.1 ⟨⟨0, (List.append_nil _).symm⟩, fun hdot ↦ hc ?_⟩
    rw [hlast] at hdot
    exact Option.some.inj hdot
  rw [← hself]
  refine ⟨?_, hlen.trans (by decide)⟩
  rintro rfl
  exact absurd hlast (by simp)

/-- The value of a name is meaningful if and only if the name fits. -/
theorem meaningful_name_iff {n : Dns.Name} :
    Meaningful (rstripDot (String.ofList (P.name n))) ↔ NameFits P n := by
  rw [rstripDot, String.toList_ofList, Meaningful, NameFits, String.length_ofList]
  by_cases hroot : n.labels = []
  · rw [Dns.Printer.name, if_pos hroot]
    simp [hroot]
  · obtain ⟨hne, hlen⟩ := P.length_stripped hroot
    have hne' : String.ofList ((P.name n).rdropWhile (· == '.')) ≠ "" := by
      intro h
      have hlist := congrArg String.toList h
      rw [String.toList_ofList] at hlist
      exact hne hlist
    refine and_congr (iff_of_true hne' hroot) ?_
    rw [← hlen]
    exact (Nat.add_le_add_iff_right).symm

/-- A name fits unless it is the root, or has four labels that hold 250 octets. -/
theorem nameFits_of_narrow {n : Dns.Name} (hroot : n.labels ≠ [])
    (hnarrow : ¬ (n.labels.length = 4 ∧ (n.labels.map List.length).sum = 250)) : NameFits P n := by
  have hwidth : P.width n ≤ valueWidth + 1 :=
    Nat.le_of_not_lt fun hwide ↦ hnarrow (Dns.Name.of_wide hwide)
  refine ⟨hroot, hwidth.trans (Nat.add_le_add_left ?_ _)⟩
  split <;> decide

/-- **The value of a record is meaningful exactly if the names in it fit.** -/
theorem Record.meaningful_iff {type : AssetType} (r : Record type) :
    Meaningful (rdataValue type (r.rdata P)) ↔ r.Fits P := by
  cases r with
  | a address => exact iff_of_true (meaningful_address address.2) trivial
  | aaaa address => exact iff_of_true (meaningful_address address.2) trivial
  | ns target => exact meaningful_name_iff
  | mx preference exchange => exact meaningful_name_iff

theorem Lookup.Shows.records {type : AssetType} {records : List (Record type)} {l : Lookup}
    (h : l.Shows P records) : l.raised = none ∧
      l.records type = records.map fun r ↦ (type, rdataValue type (r.rdata P)) := by
  cases l with
  | answer rdatas =>
    have hrdatas : rdatas = records.map (·.rdata P) := h
    refine ⟨rfl, ?_⟩
    rw [Lookup.records, hrdatas, List.map_map]
    rfl
  | nxdomain | noAnswer | noNameservers =>
    have hnil : records = [] := h
    exact ⟨rfl, by rw [hnil]; rfl⟩
  | timeout | dnsError | otherError => exact absurd h id

end Values

section Run

variable {up : Bool} {lookups : AssetType → Lookup}

theorem run_lookup {β : Type} (name : String) (type : AssetType) (f : Lookup → Py β) (σ : Session)
    (ω : ℕ → Env) (s : Store) :
    ((Py.call (.lookup name type) >>= f) σ).run (serveAlone up lookups) ω s =
      (f (lookups type) σ).run (serveAlone up lookups) (fun n ↦ ω (n + 1))
        { s with clock := s.clock + (ω 0).tick } :=
  rfl

/-- The loop, run alone, ends as `answersFrom` says. -/
theorem run_resolveTypes (name : String) (types : List AssetType)
    (results : List (AssetType × String)) (σ : Session) (ω : ℕ → Env) (s : Store) :
    ∃ ω' s', (resolveTypes name types results σ).run (serveAlone up lookups) ω s =
      some ((answersFrom lookups types results, σ), ω', s') := by
  induction types generalizing results ω s with
  | nil => exact ⟨ω, s, rfl⟩
  | cons type types ih =>
    rw [resolveTypes, run_lookup]
    unfold answersFrom
    cases lookups type with
    | answer | nxdomain | noAnswer | noNameservers => exact ih _ _ _
    | timeout | dnsError | otherError => exact ⟨_, _, rfl⟩

/-- **Every value is meaningful exactly if every name fits**, in whatever `resolve_domain_records`
returns. -/
theorem values_storable_iff (P : Dns.Printer) {zone : (type : AssetType) → List (Record type)}
    (hlookups : ∀ type, (lookups type).Shows P (zone type)) (name : String) (σ : Session)
    (ω : ℕ → Env) (s : Store) :
    ∃ records ω' s', (resolveDomainRecords name σ).run (serveAlone up lookups) ω s =
        some ((.ok records, σ), ω', s') ∧
      ((∀ r ∈ records, Meaningful r.2) ↔ ∀ type, ∀ r ∈ zone type, r.Fits P) := by
  obtain ⟨ω', s', hrun⟩ := @run_resolveTypes up lookups name recordTypes [] σ ω s
  have hnone : firstRaised lookups = none :=
    List.findSome?_eq_none_iff.2 fun type _ ↦ (hlookups type).records.1
  have hanswers : answersFrom lookups recordTypes [] = .ok (collected lookups) := by
    show answers lookups = _
    rw [answers_eq, hnone]
  rw [hanswers] at hrun
  refine ⟨_, ω', s', hrun, ?_⟩
  have hmem : ∀ r, r ∈ collected lookups ↔
      ∃ type, ∃ record ∈ zone type, r = (type, rdataValue type (record.rdata P)) := by
    intro r
    rw [collected, List.mem_flatMap]
    constructor
    · rintro ⟨type, -, hr⟩
      rw [(hlookups type).records.2] at hr
      obtain ⟨record, hrecord, rfl⟩ := List.mem_map.1 hr
      exact ⟨type, record, hrecord, rfl⟩
    · rintro ⟨type, record, hrecord, rfl⟩
      refine ⟨type, by cases type <;> decide, ?_⟩
      rw [(hlookups type).records.2]
      exact List.mem_map_of_mem hrecord
  constructor
  · intro h type record hrecord
    exact record.meaningful_iff.1 (h _ ((hmem _).2 ⟨type, record, hrecord, rfl⟩))
  · intro h r hr
    obtain ⟨type, record, hrecord, rfl⟩ := (hmem r).1 hr
    exact record.meaningful_iff.2 (h type record hrecord)

end Run

/-! ### Null MX and wide names -/

/-- dnspython puts a backslash before the characters that mean something in master files. -/
def dnspython : Dns.Printer where
  quoted b := b ∈ [34, 36, 40, 41, 46, 59, 64, 92]
  quoted_dot := by decide

/-- `mail.a.b`. -/
def mailName : Dns.Name where
  labels := [[109, 97, 105, 108], [97], [98]]
  label_ne_nil := by decide
  label_le := by decide
  wire_le := by decide

/-- An address and a mail server. -/
def mailZone : (type : AssetType) → List (Record type)
  | .a => [.a ⟨"192.0.2.1", by decide, '1', by decide, by decide⟩]
  | .aaaa => []
  | .ns => []
  | .mx => [.mx 10 mailName]

/-- `values_storable_iff` for an address and a mail server. -/
theorem values_storable_mailZone :
    let lookups : AssetType → Lookup
      | .a => .answer ((mailZone .a).map (·.rdata dnspython))
      | .aaaa => .noAnswer
      | .ns => .noNameservers
      | .mx => .answer ((mailZone .mx).map (·.rdata dnspython))
    ∃ records ω' s', (resolveDomainRecords "a.b" .new).run (serveAlone true lookups) (fun _ ↦ {})
        .awaiting = some ((.ok records, .new), ω', s') ∧ ∀ r ∈ records, Meaningful r.2 := by
  intro lookups
  have hlookups : ∀ type, (lookups type).Shows dnspython (mailZone type) := by
    intro type
    cases type <;> rfl
  obtain ⟨records, ω', s', hrun, hiff⟩ :=
    @values_storable_iff true lookups dnspython mailZone hlookups "a.b" .new (fun _ ↦ {}) .awaiting
  refine ⟨records, ω', s', hrun, hiff.2 fun type r hr ↦ ?_⟩
  cases type with
  | a =>
    rw [List.mem_singleton.1 hr]
    trivial
  | aaaa => exact absurd hr List.not_mem_nil
  | ns => exact absurd hr List.not_mem_nil
  | mx =>
    rw [List.mem_singleton.1 hr]
    show NameFits dnspython mailName
    decide +kernel

/-- A name of four labels with 250 octets, none of which is printable. -/
def wideName : Dns.Name where
  labels := [.replicate 63 0, .replicate 63 0, .replicate 63 0, .replicate 61 0]
  label_ne_nil := by decide
  label_le := by decide
  wire_le := by decide

example : ¬ NameFits dnspython wideName := by decide +kernel

/-- A domain without mail servers may say so by an MX record with the name of the root, of which the
value is empty. -/
theorem not_values_storable : ¬ ∀ (P : Dns.Printer) (zone : (type : AssetType) → List (Record type))
    (lookups : AssetType → Lookup) (name : String) (ω ω' : ℕ → Env) (s s' : Store)
    (records : List (AssetType × String)), (∀ type, (lookups type).Shows P (zone type)) →
    (resolveDomainRecords name .new).run (serveAlone true lookups) ω s =
      some ((.ok records, .new), ω', s') → ∀ r ∈ records, Meaningful r.2 := by
  intro h
  let zone : (type : AssetType) → List (Record type)
    | .mx => [.mx 0 .root]
    | .a => []
    | .aaaa => []
    | .ns => []
  let lookups : AssetType → Lookup
    | .mx => .answer ((zone .mx).map (·.rdata dnspython))
    | .a => .noAnswer
    | .aaaa => .noAnswer
    | .ns => .noAnswer
  have hlookups : ∀ type, (lookups type).Shows dnspython (zone type) := by
    intro type
    cases type <;> rfl
  obtain ⟨ω', s', hrun⟩ := @run_resolveTypes true lookups "a.b" recordTypes [] .new
    (fun _ ↦ {}) .awaiting
  have hempty := h dnspython zone lookups "a.b" _ ω' .awaiting s' [(.mx, "")] hlookups hrun
    (.mx, "") (by simp)
  exact hempty.1 rfl

end AssetDiscovery
