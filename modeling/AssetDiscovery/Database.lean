import AssetDiscovery.Library.Table
import AssetDiscovery.Models
import Mathlib.Order.Defs.LinearOrder

/-!
# The database

A `Database` is a state of the three tables in which the constraints of the schema hold: primary
keys and domain names are unique, and no row refers to a missing parent. The constraints are
fields, so a statement either produces a database in which they hold again or fails
(`Database.write`), as PostgreSQL does.

The queries of `app/repositories` are functions of a `Database`. `LIMIT 1` without an order is only
ever tested for `None`, so any row may stand for its answer; `ORDER BY created_at ASC LIMIT 1`
returns one of the oldest rows, and which one among equals is left to the caller
(`nextPending`).
-/

namespace AssetDiscovery

/-- Why a statement fails. -/
inductive DbError where
  /-- `IntegrityError`: a primary key, unique or foreign key constraint. -/
  | integrity
  /-- `DataError`: a value does not fit its column. -/
  | data
  /-- `StaleDataError`: an ORM `UPDATE` matched no row. -/
  | stale
  /-- `OperationalError`: the statement did not get through. -/
  | operational
  deriving DecidableEq, Repr

/-- The columns an `UPDATE scans` sets; `none` leaves a column out of the statement. -/
structure ScanPatch where
  status : Option ScanStatus := none
  startedAt : Option (Option Time) := none
  completedAt : Option (Option Time) := none
  errorMessage : Option (Option String) := none
  deriving DecidableEq, Repr

namespace ScanPatch

/-- The row after the `UPDATE`. -/
def apply (p : ScanPatch) (s : Scan) : Scan :=
  { s with
    status := p.status.getD s.status
    startedAt := p.startedAt.getD s.startedAt
    completedAt := p.completedAt.getD s.completedAt
    errorMessage := p.errorMessage.getD s.errorMessage }

@[simp] theorem apply_id (p : ScanPatch) (s : Scan) : (p.apply s).id = s.id := rfl

@[simp] theorem apply_domainId (p : ScanPatch) (s : Scan) : (p.apply s).domainId = s.domainId := rfl

@[simp] theorem apply_createdAt (p : ScanPatch) (s : Scan) :
    (p.apply s).createdAt = s.createdAt := rfl

@[simp] theorem apply_status (p : ScanPatch) (s : Scan) :
    (p.apply s).status = p.status.getD s.status := rfl

/-- The columns whose new value differs from a loaded row: SQLAlchemy leaves the others out of the
`UPDATE`. -/
def diff (p : ScanPatch) (s : Scan) : ScanPatch where
  status := p.status.filter (· ≠ s.status)
  startedAt := p.startedAt.filter (· ≠ s.startedAt)
  completedAt := p.completedAt.filter (· ≠ s.completedAt)
  errorMessage := p.errorMessage.filter (· ≠ s.errorMessage)

/-- On the row it was compared with, the shortened `UPDATE` does what the full one does. -/
theorem diff_apply (p : ScanPatch) (s : Scan) : (p.diff s).apply s = p.apply s := by
  have h : ∀ {α : Type} [DecidableEq α] (o : Option α) (a : α),
      (o.filter (· ≠ a)).getD a = o.getD a := by
    intro α _ o a
    cases o with
    | none => rfl
    | some b => by_cases hb : b = a <;> simp [Option.filter, hb]
  simp only [apply, diff, h]

end ScanPatch

/-- A statement that changes rows. -/
inductive Write where
  /-- `INSERT INTO domains`; `created_at` is filled in by the database. -/
  | insertDomain (id : Id) (name : String) (status : DomainStatus) (createdBy : Id)
  /-- `INSERT INTO scans`. -/
  | insertScan (id domainId : Id) (status : ScanStatus) (triggeredBy : Option Id)
  /-- `INSERT INTO assets`. -/
  | insertAsset (id scanId domainId : Id) (type : AssetType) (value : String)
  /-- `UPDATE scans ... WHERE id`. -/
  | updateScan (id : Id) (patch : ScanPatch)
  /-- `UPDATE domains SET status ... WHERE id`. -/
  | updateDomain (id : Id) (status : DomainStatus)
  /-- `DELETE FROM domains WHERE id`, which cascades to scans and assets. -/
  | deleteDomain (id : Id)
  deriving DecidableEq, Repr

/-- The width of `domains.name`. -/
def nameWidth : ℕ := 253

/-- The width of `assets.value`. -/
def valueWidth : ℕ := 1000

/-- A state of the tables that satisfies the schema. -/
structure Database where
  domains : Table Domain.id
  scans : Table Scan.id
  assets : Table Asset.id
  /-- `ix_domains_name` is unique. -/
  name_unique : ∀ d ∈ domains, ∀ d' ∈ domains, d.name = d'.name → d = d'
  /-- `scans.domain_id` references `domains`. -/
  scan_domain : ∀ s ∈ scans, (domains.get s.domainId).isSome
  /-- `assets.scan_id` references `scans`. -/
  asset_scan : ∀ a ∈ assets, (scans.get a.scanId).isSome
  /-- `assets.domain_id` references `domains`. -/
  asset_domain : ∀ a ∈ assets, (domains.get a.domainId).isSome

namespace Database

/-- A database is its three tables. -/
@[ext]
theorem ext {db db' : Database} (hd : db.domains = db'.domains) (hs : db.scans = db'.scans)
    (ha : db.assets = db'.assets) : db = db' := by
  cases db; cases db'; cases hd; cases hs; cases ha; rfl

/-- The database after the migrations. -/
def empty : Database where
  domains := .empty
  scans := .empty
  assets := .empty
  name_unique := by simp
  scan_domain := by simp
  asset_scan := by simp
  asset_domain := by simp

variable (db : Database)

/-! ### Queries -/

/-- `SELECT ... FROM domains WHERE name = :name`. -/
def domainByName (name : String) : Option Domain :=
  db.domains.rows.find? fun d ↦ d.name = name

/-- The scans of a domain. -/
def scansOf (d : Id) : List Scan :=
  db.scans.rows.filter fun s ↦ s.domainId = d

/-- The assets of a scan. -/
def assetsOf (x : Id) : List Asset :=
  db.assets.rows.filter fun a ↦ a.scanId = x

/-- `SELECT id ... WHERE domain_id = :d AND status = 'RUNNING' LIMIT 1`. -/
def runningScan (d : Id) : Option Id :=
  ((db.scansOf d).find? fun s ↦ s.status = .running).map Scan.id

/-- `SELECT id ... WHERE domain_id = :d AND status IN ('PENDING', 'RUNNING') LIMIT 1`. -/
def activeScan (d : Id) : Option Id :=
  ((db.scansOf d).find? fun s ↦ s.status.IsActive).map Scan.id

/-- The PENDING scans of a domain that no other PENDING scan of the domain is older than. -/
def oldestPending (d : Id) : List Scan :=
  let pending := (db.scansOf d).filter fun s ↦ s.status = .pending
  pending.filter fun s ↦ ∀ s' ∈ pending, s.createdAt ≤ s'.createdAt

/-- `SELECT id ... WHERE domain_id = :d AND status = 'PENDING' ORDER BY created_at ASC LIMIT 1`;
`pick` chooses among equally old rows. -/
def nextPending (d : Id) (pick : ℕ) : Option Id :=
  let oldest := db.oldestPending d
  oldest[pick % oldest.length]?.map Scan.id

/-- `SELECT ... FROM scans WHERE status = 'RUNNING'`. -/
def runningScans : List Scan :=
  db.scans.rows.filter fun s ↦ s.status = .running

/-- `SELECT id FROM scans WHERE status IN ('PENDING', 'RUNNING')`. -/
def recoverableIds : List Id :=
  (db.scans.rows.filter fun s ↦ s.status.IsActive).map Scan.id

/-- A number above every stored id. -/
def idBound : ℕ :=
  ((db.domains.rows.map Domain.id ++ db.scans.rows.map Scan.id ++
    db.assets.rows.map Asset.id).map (· + 1)).foldr max 0

/-! ### Statements that change rows -/

/-- Insert a domain with a new id and a new name. -/
def insertDomain (row : Domain) (hid : db.domains.get row.id = none)
    (hname : ∀ d ∈ db.domains, d.name ≠ row.name) : Database where
  domains := db.domains.insert row hid
  scans := db.scans
  assets := db.assets
  name_unique := by
    intro d hd d' hd' h
    -- old and old, new and old, or the new row twice
    rcases Table.mem_insert.1 hd with hm | rfl <;> rcases Table.mem_insert.1 hd' with hm' | rfl
    · exact db.name_unique d hm d' hm' h
    · exact absurd h (hname d hm)
    · exact absurd h.symm (hname d' hm')
    · rfl
  scan_domain := by
    intro s hs
    rw [Table.get_insert]
    split
    · rfl
    · exact db.scan_domain s hs
  asset_scan := db.asset_scan
  asset_domain := by
    intro a ha
    rw [Table.get_insert]
    split
    · rfl
    · exact db.asset_domain a ha

/-- Insert a scan of a stored domain. -/
def insertScan (row : Scan) (hid : db.scans.get row.id = none)
    (hd : (db.domains.get row.domainId).isSome) : Database where
  domains := db.domains
  scans := db.scans.insert row hid
  assets := db.assets
  name_unique := db.name_unique
  scan_domain := by
    intro s hs
    rcases Table.mem_insert.1 hs with hs | rfl
    · exact db.scan_domain s hs
    · exact hd
  asset_scan := by
    intro a ha
    rw [Table.get_insert]
    split
    · rfl
    · exact db.asset_scan a ha
  asset_domain := db.asset_domain

/-- Insert an asset of a stored scan and a stored domain. -/
def insertAsset (row : Asset) (hid : db.assets.get row.id = none)
    (hx : (db.scans.get row.scanId).isSome) (hd : (db.domains.get row.domainId).isSome) :
    Database where
  domains := db.domains
  scans := db.scans
  assets := db.assets.insert row hid
  name_unique := db.name_unique
  scan_domain := db.scan_domain
  asset_scan := by
    intro a ha
    rcases Table.mem_insert.1 ha with ha | rfl
    · exact db.asset_scan a ha
    · exact hx
  asset_domain := by
    intro a ha
    rcases Table.mem_insert.1 ha with ha | rfl
    · exact db.asset_domain a ha
    · exact hd

/-- Update the row of a scan, if there is one. -/
def updateScan (x : Id) (p : ScanPatch) : Database where
  domains := db.domains
  scans := db.scans.modify x p.apply p.apply_id
  assets := db.assets
  name_unique := db.name_unique
  scan_domain := by
    intro s hs
    obtain ⟨s₀, hs₀, rfl⟩ := Table.mem_modify.1 hs
    split
    · exact db.scan_domain s₀ hs₀
    · exact db.scan_domain s₀ hs₀
  asset_scan := by
    intro a ha
    rw [Table.get_modify_isSome]
    exact db.asset_scan a ha
  asset_domain := db.asset_domain

/-- Set the status of a domain, if it is stored. -/
def updateDomain (d : Id) (st : DomainStatus) : Database where
  domains := db.domains.modify d (fun row ↦ { row with status := st }) fun _ ↦ rfl
  scans := db.scans
  assets := db.assets
  name_unique := by
    intro r hr r' hr' h
    obtain ⟨r₀, hr₀, rfl⟩ := Table.mem_modify.1 hr
    obtain ⟨r₁, hr₁, rfl⟩ := Table.mem_modify.1 hr'
    have hname : ∀ q : Domain, (if q.id = d then { q with status := st } else q).name = q.name := by
      intro q
      split <;> rfl
    rw [hname, hname] at h
    rw [db.name_unique r₀ hr₀ r₁ hr₁ h]
  scan_domain := by
    intro s hs
    rw [Table.get_modify_isSome]
    exact db.scan_domain s hs
  asset_scan := db.asset_scan
  asset_domain := by
    intro a ha
    rw [Table.get_modify_isSome]
    exact db.asset_domain a ha

/-- Delete a domain with its scans and with the assets of either. -/
def deleteDomain (d : Id) : Database where
  domains := db.domains.filter fun row ↦ row.id ≠ d
  scans := db.scans.filter fun s ↦ s.domainId ≠ d
  assets := db.assets.filter fun a ↦
    -- an asset goes with its domain, and with its scan if that one goes
    a.domainId ≠ d ∧ ((db.scans.get a.scanId).filter fun s ↦ s.domainId ≠ d).isSome
  name_unique := by
    intro r hr r' hr'
    exact db.name_unique r (Table.mem_filter.1 hr).1 r' (Table.mem_filter.1 hr').1
  scan_domain := by
    intro s hs
    obtain ⟨hs, hne⟩ := Table.mem_filter.1 hs
    obtain ⟨row, hrow⟩ := Option.isSome_iff_exists.1 (db.scan_domain s hs)
    rw [Table.get_filter, hrow, Option.filter_some_pos]
    · rfl
    · simpa [Table.key_of_get hrow] using hne
  asset_scan := by
    intro a ha
    obtain ⟨-, hne⟩ := Table.mem_filter.1 ha
    rw [Table.get_filter]
    simp only [decide_eq_true_eq] at hne
    exact hne.2
  asset_domain := by
    intro a ha
    obtain ⟨ha, hne⟩ := Table.mem_filter.1 ha
    obtain ⟨row, hrow⟩ := Option.isSome_iff_exists.1 (db.asset_domain a ha)
    simp only [decide_eq_true_eq] at hne
    rw [Table.get_filter, hrow, Option.filter_some_pos]
    · rfl
    · simpa [Table.key_of_get hrow] using hne.1

/-- Carry out one statement; rows that it inserts are created at `now`. -/
def write (now : Time) : Write → Except DbError Database
  | .insertDomain id name st by' =>
    if name.length > nameWidth then .error .data
    else if h : db.domains.get id = none ∧ ∀ d ∈ db.domains.rows, d.name ≠ name then
      .ok (db.insertDomain ⟨id, name, st, by', now⟩ h.1 h.2)
    else .error .integrity
  | .insertScan id d st by' =>
    if h : db.scans.get id = none ∧ (db.domains.get d).isSome then
      .ok (db.insertScan ⟨id, d, st, by', none, none, none, now⟩ h.1 h.2)
    else .error .integrity
  | .insertAsset id x d type value =>
    if value.length > valueWidth then .error .data
    else if h : db.assets.get id = none ∧ (db.scans.get x).isSome ∧ (db.domains.get d).isSome then
      .ok (db.insertAsset ⟨id, x, d, type, value, now⟩ h.1 h.2.1 h.2.2)
    else .error .integrity
  | .updateScan x p =>
    if (db.scans.get x).isSome then .ok (db.updateScan x p) else .error .stale
  | .updateDomain d st =>
    if (db.domains.get d).isSome then .ok (db.updateDomain d st) else .error .stale
  | .deleteDomain d => .ok (db.deleteDomain d)

/-- Carry out the statements of a transaction in order; the first that fails undoes them all. -/
def writeAll (now : Time) : List Write → Database → Except DbError Database
  | [], db => .ok db
  | w :: ws, db =>
    match db.write now w with
    | .ok db' => writeAll now ws db'
    | .error e => .error e

end Database

end AssetDiscovery
