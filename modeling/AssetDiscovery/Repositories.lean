import AssetDiscovery.Session

/-!
# Repositories

`app/repositories/domain.py`, `scan.py` and `asset.py`: every function reads or changes rows through
the session and is written as the source has it, one statement, flush, commit or refresh after the
other.
-/

namespace AssetDiscovery

open Py

namespace DomainRepo

/-- `get_domain_by_id`. -/
def getDomainById (d : Id) : Py (Option Domain) :=
  getDomain d

/-- `get_domain_by_id_for_update`. -/
def getDomainByIdForUpdate (d : Id) : Py (Option Domain) := do
  match ← select (.domainForUpdate d) with
  | some row => do
    modify (·.loadDomain row)
    return some row
  | none => return none

/-- `get_domain_by_name`. -/
def getDomainByName (name : String) : Py (Option Domain) :=
  select (.domainByName name)

/-- `create_domain`. The id is drawn when the new instance is flushed. -/
def createDomain (name : String) (createdBy : Id) (status : DomainStatus) : Py Domain := do
  let id ← call .uuid4
  add (.insertDomain id name status createdBy)
  commit (.createDomain id)
  refreshDomain id

/-- `delete_domain`: `db.delete` first loads the scans of the domain and the assets of each, through
which the deletion cascades. -/
def deleteDomain (d : Id) : Py Unit := do
  let scans ← select (.scansOf d)
  scans.forM fun s ↦ do
    let _ ← select (.assetsOf s.id)
  add (.deleteDomain d)
  commit (.deleteDomain d)

end DomainRepo

namespace ScanRepo

/-- `get_scan_by_id`. -/
def getScanById (x : Id) : Py (Option Scan) :=
  getScan x

/-- `domain_has_running_scan`. -/
def domainHasRunningScan (d : Id) : Py Bool := do
  let scanId ← select (.runningScan d)
  return scanId.isSome

/-- `domain_has_active_scan`: a scan is already queued or in progress. -/
def domainHasActiveScan (d : Id) : Py Bool := do
  let scanId ← select (.activeScan d)
  return scanId.isSome

/-- `create_scan(..., commit=False)`. -/
def createScanUncommitted (d : Id) (triggeredBy : Option Id) : Py Id := do
  let id ← call .uuid4
  add (.insertScan id d .pending triggeredBy)
  flush
  return id

/-- `create_scan(..., commit=True)`. -/
def createScan (d : Id) (triggeredBy : Option Id) : Py Id := do
  let id ← call .uuid4
  add (.insertScan id d .pending triggeredBy)
  commit (.createScan d id)
  let _ ← refreshScan id
  return id

/-- What the three `mark_scan_*` functions do: assign attributes, commit and refresh. -/
def markScan (site : Site) (x : Id) (patch : Time → ScanPatch) : Py Scan := do
  let now ← call .now
  assignScan x (patch now)
  commit site
  refreshScan x

/-- `mark_scan_running`. -/
def markScanRunning (x : Id) : Py Scan :=
  markScan (.markScanRunning x) x fun now ↦
    { status := some .running, startedAt := some (some now), errorMessage := some none }

/-- `mark_scan_completed`. -/
def markScanCompleted (x : Id) : Py Scan :=
  markScan (.markScanCompleted x) x fun now ↦
    { status := some .completed, completedAt := some (some now), errorMessage := some none }

/-- `mark_scan_failed`. -/
def markScanFailed (x : Id) (errorMessage : String) : Py Scan :=
  markScan (.markScanFailed x) x fun now ↦
    { status := some .failed, completedAt := some (some now)
      errorMessage := some (some errorMessage) }

/-- `set_domain_status`. -/
def setDomainStatus (d : Id) (status : DomainStatus) : Py Domain := do
  assignDomain d status
  commit (.setDomainStatus d)
  refreshDomain d

/-- `list_recoverable_scan_ids`. -/
def listRecoverableScanIds : Py (List Id) :=
  select .recoverableIds

/-- What `reset_interrupted_scans` assigns to each RUNNING scan. -/
def interruptedPatch : ScanPatch where
  status := some .pending
  startedAt := some none
  errorMessage := some (some "Interrupted by process restart; re-queued")

/-- `reset_interrupted_scans`: all leftover RUNNING scans go back to PENDING in one commit. -/
def resetInterruptedScans : Py (List Id) := do
  let scans ← select .runningScans
  scans.forM fun row ↦ do
    modify (·.loadScan row)
    assignScan row.id interruptedPatch
  if scans.isEmpty then
    return []
  else do
    commit .resetInterruptedScans
    return scans.map Scan.id

end ScanRepo

namespace AssetRepo

/-- `db.add_all(assets)`, one new instance for each record. -/
def addAssets (scanId domainId : Id) : List (AssetType × String) → Py (List Id)
  | [] => return []
  | (type, value) :: records => do
    let id ← call .uuid4
    add (.insertAsset id scanId domainId type value)
    let ids ← addAssets scanId domainId records
    return id :: ids

/-- `db.refresh(asset)`. -/
def refreshAsset (id : Id) : Py Unit := do
  match ← select (.asset id) with
  | some _ => return ()
  | none => raise .invalidRequest

/-- `create_assets`. -/
def createAssets (scanId domainId : Id) (records : List (AssetType × String)) : Py Unit := do
  let ids ← addAssets scanId domainId records
  commit (.createAssets scanId)
  ids.forM refreshAsset

end AssetRepo

end AssetDiscovery
