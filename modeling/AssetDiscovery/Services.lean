import AssetDiscovery.Fqdn
import AssetDiscovery.Discovery

/-!
# Services

`app/services/domain.py` and `app/services/scan.py`, run as a request: the session of a request is
closed when the request is answered, however it ends (`get_db`).

After a commit the code reads `current_user.id` from an expired row of `users`; no request changes
such an id, and the statement is left out.
-/

namespace AssetDiscovery

open Py

/-- What a request answers. -/
inductive Response where
  /-- `DomainResponse`, 201. -/
  | domain (id : Id) (name : String) (status : DomainStatus)
  /-- `ScanTriggerResponse`, 202. -/
  | trigger (scanId : Id) (status : ScanStatus)
  /-- 204, or the end of a background job. -/
  | done
  deriving DecidableEq, Repr

namespace ScanService

/-- `trigger_manual_scan`. -/
def triggerManualScan (d : Id) (currentUser : Id) : Py Response := do
  match ← DomainRepo.getDomainByIdForUpdate d with
  | none => raise (.http 404 "Domain not found")
  | some _ => do
    -- PENDING counts as in flight too
    let active ← ScanRepo.domainHasActiveScan d
    if active then do
      rollback
      raise (.http 409 "A scan is already running for this domain")
    else do
      let scan ← ScanRepo.createScanUncommitted d (some currentUser)
      let domain ← readDomain d
      (if domain.status ≠ .running then assignDomain d .pending else pure ())
      commit (.triggerManualScan d scan)
      let row ← refreshScan scan
      enqueueScan row.id
      return .trigger row.id row.status

/-- `enqueue_initial_scan`. -/
def enqueueInitialScan (d : Id) (triggeredBy : Option Id) : Py Unit := do
  let scan ← ScanRepo.createScan d triggeredBy
  match ← DomainRepo.getDomainById d with
  | some domain =>
    if domain.status ≠ .running then do
      let _ ← ScanRepo.setDomainStatus d .pending
      let row ← readScan scan
      enqueueScan row.id
    else do
      let row ← readScan scan
      enqueueScan row.id
  | none => do
    let row ← readScan scan
    enqueueScan row.id

end ScanService

namespace DomainService

/-- `create_domain`. -/
def createDomain (u : Unicode) (payload : String) (currentUser : Id) : Py Response := do
  let name ← normalizeAndValidateFqdn u payload
  match ← DomainRepo.getDomainByName name with
  | some _ => raise (.http 409 "Domain already exists")
  | none => do
    let domain ← DomainRepo.createDomain name currentUser .pending
    ScanService.enqueueInitialScan domain.id (some currentUser)
    let row ← readDomain domain.id
    return .domain row.id row.name row.status

/-- `delete_domain`. -/
def deleteDomain (d : Id) : Py Response := do
  match ← DomainRepo.getDomainById d with
  | none => raise (.http 404 "Domain not found")
  | some _ => do
    DomainRepo.deleteDomain d
    return .done

end DomainService

/-- What arrives at an API process: a request, or its own start. -/
inductive Request where
  | create (payload : String) (user : Id)
  | trigger (d user : Id)
  | delete (d : Id)
  /-- The lifespan hook of an API process that starts. -/
  | recover
  deriving DecidableEq, Repr

/-- The code that answers a request, with the session it opens and closes. -/
def Request.code (u : Unicode) : Request → Py Response
  | .create payload user => tryFinally (DomainService.createDomain u payload user) close
  | .trigger d user => tryFinally (ScanService.triggerManualScan d user) close
  | .delete d => tryFinally (DomainService.deleteDomain d) close
  | .recover => do
    recoverPendingJobs
    return .done

/-- A worker's run of `run_discovery_scan` for a message. -/
def runDiscoveryScan (cfg : Settings) (m : Message) : Py Response := do
  processScan cfg m.scan (some m.retries)
  return .done

/-- What runs as a thread: code started in a new session, ending in what it returns or raises. -/
abbrev Process := Effect.Program Op Op.Res (Except Exn Response)

/-- Start code in a new session. -/
def Py.start (m : Py Response) : Process :=
  (m .new).bind fun q ↦ .pure q.1

end AssetDiscovery
