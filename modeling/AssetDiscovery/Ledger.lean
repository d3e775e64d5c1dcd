import AssetDiscovery.Board

/-!
# The ledger

What the board leaves out and what single operations can be judged by: the status of every domain,
which of its scans was created last, and the records that are stored for each scan. The board and
the ledger of a database together are all that the sequential results speak about.

Every statement has one lemma here that says what it does to the ledger; its lemma in
`AssetDiscovery.Board` says what it does to the board.
-/

set_option autoImplicit false

namespace AssetDiscovery

/-- The denormalised status and the latest scan of every domain, and the stored records of every
scan. -/
@[ext]
structure Ledger where
  domains : Id → Option DomainStatus
  latest : Id → Option Id
  records : Id → List (AssetType × String)

namespace Ledger

variable (l : Ledger)

/-- A new domain. -/
def addDomain (d : Id) (st : DomainStatus) : Ledger :=
  { l with domains := fun d' ↦ if d' = d then some st else l.domains d' }

/-- A new scan. -/
def addScan (x d : Id) : Ledger :=
  { l with latest := fun d' ↦ if d' = d then some x else l.latest d' }

/-- Domain `d` gets a status, if it is stored. -/
def setDomain (d : Id) (st : DomainStatus) : Ledger :=
  { l with domains := fun d' ↦ if d' = d then (l.domains d').map fun _ ↦ st else l.domains d' }

/-- More records are stored for scan `x`. -/
def addRecords (x : Id) (rs : List (AssetType × String)) : Ledger :=
  { l with records := fun y ↦ if y = x then l.records y ++ rs else l.records y }

@[simp] theorem addDomain_latest (d : Id) (st : DomainStatus) :
    (l.addDomain d st).latest = l.latest := rfl

@[simp] theorem addDomain_records (d : Id) (st : DomainStatus) :
    (l.addDomain d st).records = l.records := rfl

@[simp] theorem addScan_domains (x d : Id) : (l.addScan x d).domains = l.domains := rfl

@[simp] theorem addScan_records (x d : Id) : (l.addScan x d).records = l.records := rfl

@[simp] theorem setDomain_latest (d : Id) (st : DomainStatus) :
    (l.setDomain d st).latest = l.latest := rfl

@[simp] theorem setDomain_records (d : Id) (st : DomainStatus) :
    (l.setDomain d st).records = l.records := rfl

@[simp] theorem addRecords_domains (x : Id) (rs : List (AssetType × String)) :
    (l.addRecords x rs).domains = l.domains := rfl

@[simp] theorem addRecords_latest (x : Id) (rs : List (AssetType × String)) :
    (l.addRecords x rs).latest = l.latest := rfl

theorem addRecords_records_self (x : Id) (rs : List (AssetType × String)) :
    (l.addRecords x rs).records x = l.records x ++ rs :=
  if_pos rfl

theorem addRecords_nil (x : Id) : l.addRecords x [] = l := by
  ext1
  · rfl
  · rfl
  · funext y
    simp [addRecords]

end Ledger

namespace Database

variable (db : Database)

/-- The record of an asset row. -/
def recordOf (a : Asset) : AssetType × String :=
  (a.type, a.value)

/-- The ledger of a database. -/
def ledger : Ledger where
  domains d := (db.domains.get d).map Domain.status
  latest d := (db.scansOf d).getLast?.map Scan.id
  records x := (db.assetsOf x).map recordOf

variable {db} {db' : Database} {now : Time}

theorem ledger_domains_of_get {d : Id} {row : Domain} (h : db.domains.get d = some row) :
    db.ledger.domains d = some row.status := by
  simp [ledger, h]

/-! ### Statements on the ledger -/

/-- A new domain has the status that it is inserted with. -/
theorem ledger_insertDomain {d user : Id} {name : String} {st : DomainStatus}
    (h : db.write now (.insertDomain d name st user) = .ok db') :
    db'.ledger = db.ledger.addDomain d st := by
  simp only [write] at h
  split at h
  · exact absurd h (by simp)
  · split at h
    · rw [← Except.ok.inj h]
      ext1
      · funext d'
        simp only [ledger, Ledger.addDomain, insertDomain, Table.get_insert]
        by_cases hd : d = d'
        · simp [hd]
        · simp [hd, Ne.symm hd]
      · rfl
      · rfl
    · exact absurd h (by simp)

/-- A new scan becomes the latest of its domain. -/
theorem ledger_insertScan {x d : Id} {st : ScanStatus} {user : Option Id}
    (h : db.write now (.insertScan x d st user) = .ok db') :
    db'.ledger = db.ledger.addScan x d := by
  simp only [write] at h
  split at h
  · rw [← Except.ok.inj h]
    ext1
    · rfl
    · funext d'
      simp only [ledger, scansOf, insertScan, Table.insert, List.filter_append, Ledger.addScan]
      by_cases hd : d = d'
      · simp [hd]
      · simp [hd, Ne.symm hd]
    · rfl
  · exact absurd h (by simp)

/-- Setting columns of a scan changes nothing here. -/
theorem ledger_updateScan {x : Id} {p : ScanPatch}
    (h : db.write now (.updateScan x p) = .ok db') : db'.ledger = db.ledger := by
  simp only [write] at h
  split at h
  · rw [← Except.ok.inj h]
    ext1
    · rfl
    · funext d
      have hfilter : (db.updateScan x p).scansOf d =
          (db.scansOf d).map fun s ↦ if s.id = x then p.apply s else s := by
        show List.filter _ (List.map _ db.scans.rows) = _
        rw [List.filter_map]
        congr 1
        refine List.filter_congr fun s _ ↦ ?_
        by_cases hs : s.id = x <;> simp [hs]
      have hid : (Scan.id ∘ fun s ↦ if s.id = x then p.apply s else s) = Scan.id := by
        funext s
        by_cases hs : s.id = x <;> simp [hs]
      simp only [ledger, hfilter, List.getLast?_map, Option.map_map, hid]
    · rfl
  · exact absurd h (by simp)

/-- Setting the status of a domain changes it. -/
theorem ledger_updateDomain {d : Id} {st : DomainStatus}
    (h : db.write now (.updateDomain d st) = .ok db') :
    db'.ledger = db.ledger.setDomain d st := by
  simp only [write] at h
  split at h
  · rw [← Except.ok.inj h]
    ext1
    · funext d'
      simp only [ledger, updateDomain, Table.get_modify, Ledger.setDomain]
      split
      · simp [Option.map_map, Function.comp_def]
      · rfl
    · rfl
    · rfl
  · exact absurd h (by simp)

/-- Of a domain that is deleted nothing is left, and the others keep their status and their latest
scan. -/
theorem ledger_deleteDomain {d : Id} (h : db.write now (.deleteDomain d) = .ok db') :
    (∀ d', db'.ledger.domains d' = if d' = d then none else db.ledger.domains d') ∧
      ∀ d', db'.ledger.latest d' = if d' = d then none else db.ledger.latest d' := by
  rw [← Except.ok.inj h]
  refine ⟨fun d' ↦ ?_, fun d' ↦ ?_⟩
  · simp only [ledger, deleteDomain, Table.get_filter]
    cases hrow : db.domains.get d' with
    | none => simp
    | some row =>
      have hid := Table.key_of_get hrow
      by_cases hd : d' = d <;> simp [Option.filter, hid, hd]
  · simp only [ledger, scansOf, deleteDomain, Table.filter, List.filter_filter]
    by_cases hd : d' = d
    · subst hd
      have hnone : (db.scans.rows.filter fun s ↦
          decide (s.domainId = d') && decide (s.domainId ≠ d')) = [] := by
        simp
      rw [if_pos rfl, hnone]
      rfl
    · rw [if_neg hd]
      congr 2
      refine List.filter_congr fun s _ ↦ ?_
      by_cases hs : s.domainId = d' <;> simp [hs, hd]

end Database

end AssetDiscovery
