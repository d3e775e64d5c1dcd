import AssetDiscovery.Alone.Runs

/-!
# Collecting records

`resolve_domain_records` looks up four types of records one after another and gathers the answers in
one list, which `create_assets` stores in one commit. The first lookup that raises anything but the
three exceptions for absence discards what has been gathered so far.

What is to be stored is described without the code's own functions: the value of a record is its
address, target or exchange without the dots at its end (`Rdata.text`, `Stripped`), and `Collects`
lists the records of the four answers. `collectRecords_ends` says what the two functions store
together: nothing, or one asset for each record of each answer.
-/

set_option autoImplicit false

namespace AssetDiscovery

/-! ### What is to be stored -/

/-- The text in a record of a type that says where it leads: an address as it is printed, the target
of a name server, the exchange of a mail server. -/
def Rdata.text : AssetType → Rdata → String
  | .a, rdata => rdata.toText
  | .aaaa, rdata => rdata.toText
  | .ns, rdata => rdata.target
  | .mx, rdata => rdata.exchange

/-- `value` is `text` without the dots at its end: `text` is `value` followed by dots, and `value`
does not end in one. -/
structure Stripped (text value : String) : Prop where
  dots : ∃ n, text.toList = value.toList ++ List.replicate n '.'
  last : value.toList.getLast? ≠ some '.'

namespace Lookup

/-- What a lookup of a type contributes: of an answer one record for each `rdata`, with the type and
the value without dots at its end; nothing otherwise. -/
def Records (type : AssetType) : Lookup → List (AssetType × String) → Prop
  | .answer rdatas, records => List.Forall₂
      (fun rdata record ↦ record.1 = type ∧ Stripped (rdata.text type) record.2) rdatas records
  | _, records => records = []

/-- The exception of a lookup that `resolve_domain_records` does not pass over. -/
def raised : Lookup → Option Exn
  | .timeout className text | .dnsError className text => some (.dns className text)
  | .otherError className text => some (.other className text)
  | .answer _ | .nxdomain | .noAnswer | .noNameservers => none

/-- The records of an answer, as the code computes them. -/
def records (type : AssetType) : Lookup → List (AssetType × String)
  | .answer rdatas => rdatas.map fun rdata ↦ (type, rdataValue type rdata)
  | _ => []

end Lookup

/-- The records that the four lookups contribute, in the order of the types and of the answers. -/
def Collects (lookups : AssetType → Lookup) (records : List (AssetType × String)) : Prop :=
  ∃ as aaaas nss mxs, (lookups .a).Records .a as ∧ (lookups .aaaa).Records .aaaa aaaas ∧
    (lookups .ns).Records .ns nss ∧ (lookups .mx).Records .mx mxs ∧
    records = as ++ aaaas ++ nss ++ mxs

/-- The first exception among the lookups, in the order of the types. -/
def firstRaised (lookups : AssetType → Lookup) : Option Exn :=
  [.a, .aaaa, .ns, .mx].findSome? fun type ↦ (lookups type).raised

/-- The records of all answers, as the code computes them. -/
def collected (lookups : AssetType → Lookup) : List (AssetType × String) :=
  recordTypes.flatMap fun type ↦ (lookups type).records type

/-- `resolve_domain_records` followed by `create_assets`. -/
def collectRecords (name : String) (x d : Id) : Py Response := do
  let records ← resolveDomainRecords name
  AssetRepo.createAssets x d records
  return .done

/-! ### The code computes it -/

/-- Dots at the end make no difference to what is left without them. -/
theorem rdropWhile_append_dots (cs : List Char) (n : ℕ) :
    (cs ++ List.replicate n '.').rdropWhile (· == '.') = cs.rdropWhile (· == '.') := by
  induction n with
  | zero => rw [List.replicate_zero, List.append_nil]
  | succ n ih =>
    rw [List.replicate_succ', ← List.append_assoc, List.rdropWhile_concat_pos (· == '.') _ '.' rfl]
    exact ih

/-- `rstrip(".")` leaves the text without the dots at its end, and nothing else is that. -/
theorem stripped_iff {text value : String} : Stripped text value ↔ value = rstripDot text := by
  constructor
  · rintro ⟨⟨n, hdots⟩, hlast⟩
    have hself : value.toList.rdropWhile (· == '.') = value.toList := by
      refine List.rdropWhile_eq_self_iff.2 fun hne hdot ↦ hlast ?_
      rw [List.getLast?_eq_some_getLast hne, beq_iff_eq.1 hdot]
    rw [rstripDot, hdots, rdropWhile_append_dots, hself, String.ofList_toList]
  · rintro rfl
    have hrest : text.toList.rtakeWhile (· == '.') =
        List.replicate (text.toList.rtakeWhile (· == '.')).length '.' :=
      List.eq_replicate_of_mem fun c hc ↦
        beq_iff_eq.1 (List.mem_rtakeWhile_imp (p := (· == '.')) hc)
    refine ⟨⟨(text.toList.rtakeWhile (· == '.')).length, ?_⟩, fun hlast ↦ ?_⟩
    · rw [rstripDot, String.toList_ofList, ← hrest, List.rdropWhile_append_rtakeWhile]
    · rw [rstripDot, String.toList_ofList] at hlast
      have hne : text.toList.rdropWhile (· == '.') ≠ [] := by
        intro hnil
        rw [hnil] at hlast
        exact absurd hlast (by simp)
      rw [List.getLast?_eq_some_getLast hne] at hlast
      exact List.rdropWhile_last_not _ _ hne (by rw [Option.some.inj hlast]; rfl)

/-- The value that the code computes of a record is its text without the dots at its end. -/
theorem stripped_rdataValue {type : AssetType} {rdata : Rdata} {value : String} :
    Stripped (rdata.text type) value ↔ value = rdataValue type rdata := by
  rw [stripped_iff]
  cases type <;> rfl

/-- What a lookup contributes is what the code takes from it. -/
theorem Lookup.records_iff {type : AssetType} {l : Lookup} {rs : List (AssetType × String)} :
    l.Records type rs ↔ rs = l.records type := by
  cases l with
  | answer rdatas =>
    have hrecord : ∀ (rdata : Rdata) (record : AssetType × String),
        (record.1 = type ∧ Stripped (rdata.text type) record.2) ↔
          (type, rdataValue type rdata) = record := by
      rintro rdata ⟨type', value⟩
      rw [stripped_rdataValue, Prod.mk.injEq, eq_comm (a := type), eq_comm (b := value)]
    simp only [Lookup.Records, Lookup.records, hrecord]
    rw [← List.forall₂_map_left_iff (f := fun rdata ↦ (type, rdataValue type rdata)),
      List.forall₂_eq_eq_eq, eq_comm]
  | _ => rfl

/-- What the four lookups contribute is what the code collects. -/
theorem collects_iff {lookups : AssetType → Lookup} {records : List (AssetType × String)} :
    Collects lookups records ↔ records = collected lookups := by
  have hcollected : collected lookups = (lookups .a).records .a ++ (lookups .aaaa).records .aaaa ++
      (lookups .ns).records .ns ++ (lookups .mx).records .mx := by
    simp [collected, recordTypes]
  rw [hcollected]
  constructor
  · rintro ⟨as, aaaas, nss, mxs, ha, haaaa, hns, hmx, rfl⟩
    rw [Lookup.records_iff.1 ha, Lookup.records_iff.1 haaaa, Lookup.records_iff.1 hns,
      Lookup.records_iff.1 hmx]
  · rintro rfl
    exact ⟨_, _, _, _, Lookup.records_iff.2 rfl, Lookup.records_iff.2 rfl,
      Lookup.records_iff.2 rfl, Lookup.records_iff.2 rfl, rfl⟩

variable {lookups : AssetType → Lookup}

/-- The loop returns what it has been given and all that it gathers itself, or raises the first
exception. -/
theorem answersFrom_eq (types : List AssetType) (results : List (AssetType × String)) :
    answersFrom lookups types results =
      match types.findSome? fun type ↦ (lookups type).raised with
      | some e => .error e
      | none => .ok (results ++ types.flatMap fun type ↦ (lookups type).records type) := by
  induction types generalizing results with
  | nil => rw [answersFrom, List.findSome?_nil, List.flatMap_nil, List.append_nil]
  | cons type types ih =>
    rw [List.findSome?_cons, List.flatMap_cons]
    unfold answersFrom
    cases hlookup : lookups type with
    | answer rdatas =>
      rw [← List.append_assoc]
      exact ih (results ++ rdatas.map fun rdata ↦ (type, rdataValue type rdata))
    | nxdomain | noAnswer | noNameservers => exact ih results
    | timeout | dnsError | otherError => rfl

/-- The whole loop raises the first exception, or returns the records of all answers. -/
theorem answers_eq : answers lookups =
    match firstRaised lookups with
    | some e => .error e
    | none => .ok (collected lookups) := by
  rw [answers, answersFrom_eq, List.nil_append]
  rfl

open Py Session in
/-- **All or nothing, and nothing lost.** If a lookup raises, nothing is stored and the first such
exception is raised. Otherwise the scan gets one asset for each record of each answer, with the type
of its lookup and its address, target or exchange without the dots at the end, in their order, and
nothing else changes. -/
theorem collectRecords_ends {s : Store} {x d : Id} (hs : s.Free) (hx : (s.db.scans.get x).isSome)
    (hd : (s.db.domains.get d).isSome) (hfits : ∀ records, Collects lookups records → Fits records)
    (name : String) (ω : ℕ → Env) :
    ∃ a ω' s', s.serveTo true lookups (collectRecords name x d) ω = some (a, ω', s') ∧
      (∀ e, firstRaised lookups = some e → a = .error e ∧ s'.db = s.db) ∧
      (firstRaised lookups = none → a = .ok .done ∧
        ∃ records, Collects lookups records ∧ Stored s.db x d records s'.db) := by
  have halone : Alone { lookups := some lookups } (fun a _ db' _ ↦
      (∀ e, firstRaised lookups = some e → a = .error e ∧ db' = s.db) ∧
      (firstRaised lookups = none → a = .ok .done ∧
        ∃ records, Collects lookups records ∧ Stored s.db x d records db'))
      (collectRecords name x d) .new s.db s.trail := by
    refine alone_bind (alone_resolveTypes rfl recordTypes [] fun q _ _ _ _ _ ↦ ?_)
    have hanswers : answersFrom lookups recordTypes [] = _ := @answers_eq lookups
    rw [hanswers]
    cases hraised : firstRaised lookups with
    | some e => exact ⟨fun e' he' ↦ ⟨by rw [Option.some.inj he'], rfl⟩, fun h ↦ absurd h (by simp)⟩
    | none =>
      refine alone_bind (alone_createAssets (inStep_new s.db) hx hd (fun _ _ _ ↦ trivial)
        (fun _ db' drawn hstored ↦ ?_) fun hnot ↦ absurd (hfits _ (collects_iff.2 rfl)) hnot)
      exact alone_pure ⟨fun e he ↦ absurd he (by simp),
        fun _ ↦ ⟨rfl, _, collects_iff.2 rfl, hstored⟩⟩
  obtain ⟨a, ω', s', -, -, hrun, -, -, -, h⟩ := halone.serveTo hs trivial ω
  exact ⟨a, ω', s', hrun, h⟩

/-- `collectRecords_ends` for an address, no other address, one nameserver and no mail server. -/
theorem collectRecords_ends_oneAddress :
    let lookups : AssetType → Lookup
      | .a => .answer [⟨"192.0.2.1", "", ""⟩]
      | .aaaa => .noAnswer
      | .ns => .answer [⟨"ns.a.b.", "ns.a.b.", ""⟩]
      | .mx => .noNameservers
    ∃ a ω' s', Store.awaiting.serveTo true lookups (collectRecords "a.b" 1 0) (fun _ ↦ {}) =
        some (a, ω', s') ∧ a = .ok .done ∧
      Stored Store.awaiting.db 1 0 [(.a, "192.0.2.1"), (.ns, "ns.a.b")] s'.db := by
  intro lookups
  obtain ⟨a, ω', s', hrun, -, hstored⟩ := @collectRecords_ends lookups _ 1 0
    Store.free_awaiting (by decide) (by decide)
    (fun records hrecords ↦ by rw [collects_iff.1 hrecords]; decide) "a.b" fun _ ↦ {}
  obtain ⟨hdone, records, hrecords, hstored⟩ := hstored (by decide)
  rw [collects_iff.1 hrecords] at hstored
  exact ⟨a, ω', s', hrun, hdone, hstored⟩

end AssetDiscovery
