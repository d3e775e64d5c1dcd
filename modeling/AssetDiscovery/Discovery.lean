import AssetDiscovery.Repositories
import Mathlib.Data.List.DropRight

/-!
# Discovery

`app/workers`: the DNS lookups (`dns.py`), the publish (`queue.py`), the worker's task
(`discovery.py` under `tasks.py`) and the recovery that an API process runs when it starts.

Reading `scan.id` for a log line is a statement when a commit has expired the instance, so the log
lines of `_process_scan` that do so are kept, as `readScan`.
-/

namespace AssetDiscovery

open Py

/-- The settings that these functions read. -/
structure Settings where
  scanMaxRetries : ℕ := 3

/-! ### `dns.py` -/

/-- `_RECORD_TYPES`. -/
def recordTypes : List AssetType := [.a, .aaaa, .ns, .mx]

/-- `text.rstrip(".")`. -/
def rstripDot (text : String) : String :=
  String.ofList (text.toList.rdropWhile (· == '.'))

/-- The value stored for one record of a type. -/
def rdataValue (type : AssetType) (rdata : Rdata) : String :=
  if type = .mx then rstripDot rdata.exchange
  else if type = .ns then rstripDot rdata.target
  else rstripDot rdata.toText

/-- The loop of `resolve_domain_records` over the record types that are left. -/
def resolveTypes (name : String) :
    List AssetType → List (AssetType × String) → Py (List (AssetType × String))
  | [], results => return results
  | type :: types, results => do
    match ← call (.lookup name type) with
    | .answer rdatas =>
      resolveTypes name types (results ++ rdatas.map fun r ↦ (type, rdataValue type r))
    | .nxdomain => resolveTypes name types results
    | .noAnswer => resolveTypes name types results
    | .noNameservers => resolveTypes name types results
    | .timeout className text => raise (.dns className text)
    | .dnsError className text => raise (.dns className text)
    | .otherError className text => raise (.other className text)

/-- `resolve_domain_records`. -/
def resolveDomainRecords (name : String) : Py (List (AssetType × String)) :=
  resolveTypes name recordTypes []

/-! ### `queue.py` -/

/-- Publish a message. -/
def publish (m : Message) : Py Unit := do
  match ← call (.publish m) with
  | .ok () => return ()
  | .error text => raise (.broker text)

/-- `enqueue_scan`. -/
def enqueueScan (x : Id) : Py Unit :=
  publish ⟨x, 0⟩

/-! ### `discovery.py` -/

/-- `_enqueue_next_pending_for_domain`. -/
def enqueueNextPendingForDomain (d : Id) : Py Unit := do
  match ← select (.nextPending d) with
  | some x => enqueueScan x
  | none => return ()

/-- What `_fail_scan` and the `try` body of `_process_scan` do after the scan has its final status:
pass it on to the domain, if there is still one, and enqueue the next scan. The body logs `scan.id`
in between, which reads the row as `scan.domain_id` does here. -/
def settleDomain (x : Id) (status : DomainStatus) : Py Unit := do
  let scan ← readScan x
  match ← DomainRepo.getDomainById scan.domainId with
  | some domain => do
    let _ ← ScanRepo.setDomainStatus domain.id status
    let scan ← readScan x
    enqueueNextPendingForDomain scan.domainId
  | none => do
    let scan ← readScan x
    enqueueNextPendingForDomain scan.domainId

/-- `_fail_scan`. -/
def failScan (x : Id) (message : String) : Py Unit := do
  let _ ← ScanRepo.markScanFailed x message
  settleDomain x .failed

/-- The body of the inner `try` of `_process_scan`. -/
def discover (x d : Id) : Py Unit := do
  let domain ← readDomain d
  let records ← resolveDomainRecords domain.name
  let scan ← readScan x
  AssetRepo.createAssets scan.id domain.id records
  let _ ← ScanRepo.markScanCompleted x
  settleDomain x .completed

/-- `raise task.retry(...)`: publish the next attempt, then raise `Retry`; a publish that fails
raises `Reject` instead. -/
def taskRetry (x : Id) (retries : ℕ) : Py Unit := do
  match ← call (.publish ⟨x, retries + 1⟩) with
  | .ok () => raise .retry
  | .error text => raise (.reject text)

/-- The two handlers of the inner `try`. `task` is `request.retries` of the bound task, if there is
one. -/
def handleDiscoveryError (cfg : Settings) (x : Id) (task : Option ℕ) (exc : Exn) : Py Unit := do
  if exc.IsRetryable then do
    let _ ← readScan x
    match task with
    | some retries =>
      if retries < cfg.scanMaxRetries then taskRetry x retries
      else do
        let _ ← readScan x
        failScan x exc.message
    | none => do
      let _ ← readScan x
      failScan x exc.message
  else do
    let _ ← readScan x
    failScan x exc.message

/-- `_process_scan` from the `mark_scan_running` call on. -/
def runDiscovery (cfg : Settings) (x d : Id) (task : Option ℕ) : Py Unit := do
  let _ ← ScanRepo.markScanRunning x
  let _ ← ScanRepo.setDomainStatus d .running
  let _ ← readScan x
  tryExcept (discover x d) (handleDiscoveryError cfg x task)

/-- `_process_scan` inside its outer `try`. -/
def processScanBody (cfg : Settings) (x : Id) (task : Option ℕ) : Py Unit := do
  match ← ScanRepo.getScanById x with
  | none => return ()
  | some scan =>
    if ¬ scan.status.IsActive then return ()
    else do
      match ← DomainRepo.getDomainById scan.domainId with
      | none => do
        let _ ← ScanRepo.markScanFailed x "Domain no longer exists"
      | some domain => do
        let running ← ScanRepo.domainHasRunningScan domain.id
        -- only one RUNNING scan per domain: leave this job PENDING for later
        if running ∧ scan.status ≠ .running then return ()
        else runDiscovery cfg x domain.id task

/-- `_process_scan`. -/
def processScan (cfg : Settings) (x : Id) (task : Option ℕ) : Py Unit :=
  tryFinally (processScanBody cfg x task) close

/-- `recover_pending_jobs`. -/
def recoverPendingJobs : Py Unit :=
  tryFinally
    (do
      let _ ← ScanRepo.resetInterruptedScans
      let pendingIds ← ScanRepo.listRecoverableScanIds
      pendingIds.forM enqueueScan)
    close

end AssetDiscovery
