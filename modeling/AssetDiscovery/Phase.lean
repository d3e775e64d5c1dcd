import AssetDiscovery.Library.Pool
import AssetDiscovery.Services

/-!
# Phases

How far a process has come, as far as other processes can depend on it. A phase is kept by an
observer (`Phase.observe`) that sees each operation of a process with its answer; it is a summary of
what has happened and takes no part in it.

`Phase.Allowed` says which operations a process asks for in each phase, with the statements of its
commits. That the code of the service keeps to it is proved in `AssetDiscovery.Conformance`; here
the two are only stated.
-/

namespace AssetDiscovery

/-- How far a process has come. `snap` is the status that the session of a worker has loaded for its
scan, if it is not expired. -/
inductive Phase where
  /-- `create_domain`, before the domain is committed. -/
  | creating
  /-- `create_domain`: the domain is committed, its initial scan is not. -/
  | created (d : Id)
  /-- `trigger_manual_scan`, before it has the row lock. -/
  | triggering (d : Id)
  /-- It holds the row lock and has not checked for an active scan. -/
  | locked (d : Id)
  /-- It holds the row lock and has found no active scan. -/
  | cleared (d : Id)
  /-- It gives up, and may still hold the row lock. -/
  | refused (d : Id)
  /-- A request that has committed scan `x` and has not published it. -/
  | announcing (d x : Id)
  /-- A request that has committed scan `x` and is past publishing it. -/
  | announced (d x : Id)
  | deleting (d : Id)
  /-- `recover_pending_jobs`, before it loads the RUNNING scans. -/
  | recovering
  /-- It has loaded the RUNNING scans and has not committed their reset. -/
  | resetting (xs : List Id)
  /-- It has not yet read the ids to publish. -/
  | listing
  /-- It has still to publish these. -/
  | republishing (xs : List Id)
  /-- A worker that has taken a message and has not read its scan. -/
  | taken (x : Id) (retries : ℕ)
  /-- It has read its scan as active, and has not passed the one-RUNNING guard. -/
  | loaded (x : Id) (retries : ℕ) (d : Id) (st : ScanStatus)
  /-- It has found its scan active but the domain gone. -/
  | orphaned (x : Id) (st : ScanStatus)
  /-- It has passed the guard and has not committed `mark_scan_running`. -/
  | claiming (x : Id) (retries : ℕ) (d : Id) (st : ScanStatus)
  /-- It is past `mark_scan_running` and before the final status commit of its scan. -/
  | running (x : Id) (retries : ℕ) (d : Id) (snap : Option ScanStatus)
  /-- It has committed COMPLETED, or FAILED in a handler, and has not looked for the next scan. -/
  | finished (x d : Id) (snap : Option ScanStatus) (handler : Bool)
  /-- It has found `y` to be the next scan and has not published it. -/
  | handing (x d : Id) (snap : Option ScanStatus) (handler : Bool) (y : Id)
  /-- The publish after COMPLETED failed and the handler takes over. -/
  | faulted (x d : Id) (snap : Option ScanStatus)
  /-- A row of the process has disappeared under it. -/
  | lost (x d : Id)
  /-- Nothing is left to do that others could depend on. -/
  | idle
  deriving DecidableEq, Repr

namespace Phase

/-! ### The observer -/

/-- After a statement that failed. -/
def fault : Phase → Phase
  | announcing d x => announced d x
  | announced d x => announced d x
  | locked d => refused d
  | cleared d => refused d
  | _ => idle

/-- After reading the row of a scan. -/
def readScan : Phase → Option Scan → Phase
  | announcing d x, none => announced d x
  | taken _ _, none => idle
  | taken x r, some row => if row.status.IsActive then loaded x r row.domainId row.status else idle
  | running x _ d _, none => lost x d
  | running x r d _, some row => running x r d (some row.status)
  | finished x d _ _, none => lost x d
  | finished x _ _ h, some row => finished x row.domainId (some row.status) h
  | lost x _, some row => lost x row.domainId
  | v, _ => v

/-- After reading the row of a domain. -/
def readDomain : Phase → Option Domain → Phase
  | created _, none => idle
  | announcing d x, none => lost x d
  | deleting _, none => idle
  | loaded x _ _ st, none => orphaned x st
  | running x _ d _, none => lost x d
  | finished x d _ _, none => lost x d
  | v, _ => v

/-- After a query. -/
def read (v : Phase) : (q : Query) → q.Row → Phase
  | .scan _, row => v.readScan row
  | .domain _, row => v.readDomain row
  | .domainByName _, row => match v with
    | creating => if row.isSome then idle else creating
    | _ => v
  | .domainForUpdate _, row => match v with
    | triggering d => if row.isSome then locked d else idle
    | _ => v
  | .runningScan _, found => match v with
    | loaded x r d st => if found.isSome ∧ st ≠ .running then idle else claiming x r d st
    | _ => v
  | .activeScan _, found => match v with
    | locked d => if found.isSome then refused d else cleared d
    | _ => v
  | .nextPending _, found => match v, found with
    | finished _ _ _ _, none => idle
    | finished x d snap h, some y => handing x d snap h y
    | _, _ => v
  | .runningScans, rows => match v with
    | recovering => if rows.isEmpty then listing else resetting (rows.map Scan.id)
    | _ => v
  | .recoverableIds, xs => match v with
    | listing => republishing xs
    | _ => v
  -- refreshes and the rows a cascade walks through: their answer decides nothing
  | .asset _, _ => v
  | .scansOf _, _ => v
  | .assetsOf _, _ => v

/-- After a commit. -/
def committed : Phase → Site → Phase
  | creating, .createDomain d => created d
  | created d, .createScan _ x => announcing d x
  | cleared d, .triggerManualScan _ x => announcing d x
  | deleting _, .deleteDomain _ => idle
  | resetting _, .resetInterruptedScans => listing
  | orphaned _ _, .markScanFailed _ => idle
  | claiming x r d _, .markScanRunning _ => running x r d none
  | running x _ d _, .markScanCompleted _ => finished x d none false
  | running x _ d _, .markScanFailed _ => finished x d none true
  | running x r d _, _ => running x r d none
  | faulted x d _, .markScanFailed _ => finished x d none true
  | finished x d _ h, .setDomainStatus _ => finished x d none h
  | v, _ => v

/-- After a publish, which may have failed. -/
def published : Phase → Bool → Phase
  | announcing d x, _ => announced d x
  | republishing (_ :: xs), true => republishing xs
  | handing x d snap false _, false => faulted x d snap
  | lost x d, _ => lost x d
  | _, _ => idle

/-- After `db.close()`. -/
def closed : Phase → Phase
  | announced d x => announced d x
  | _ => idle

/-- The phase after an operation and its answer. -/
def observe (v : Phase) : (o : Op) → o.Res → Phase
  | .query q, .ok row => v.read q row
  | .query _, .error _ => v.fault
  | .flush _, .ok _ => v
  | .flush _, .error _ => v.fault
  | .commit site _, .ok _ => v.committed site
  | .commit _ _, .error _ => v.fault
  | .publish _, .ok _ => v.published true
  | .publish _, .error _ => v.published false
  | .close, _ => v.closed
  | .rollback, _ => match v with
    | refused _ => idle
    | _ => v
  | .lookup _ _, _ => v
  | .now, _ => v
  | .uuid4, _ => v

/-! ### The discipline -/

/-- The statements of a commit change at most the row of scan `x`, and set its status to `st`, or
leave it as it is. -/
def SetsScan (x : Id) (st : Option ScanStatus) (ws : List Write) : Prop :=
  (ws = [] ∧ st = none) ∨ ∃ p : ScanPatch, ws = [.updateScan x p] ∧ p.status = st

/-- The status that assigning `new` writes when the loaded status is `old`. -/
def change (old new : ScanStatus) : Option ScanStatus :=
  if new = old then none else some new

@[simp]
theorem change_self (st : ScanStatus) : change st st = none :=
  if_pos rfl

/-- Assigning another status writes it. -/
theorem change_of_ne {old new : ScanStatus} (h : old ≠ new) : change old new = some new :=
  if_neg h.symm

/-- The queries of a process in each phase. -/
inductive Reads : Phase → Query → Prop
  | creating {name} : Reads creating (.domainByName name)
  | created {d} : Reads (created d) (.domain d)
  | triggering {d} : Reads (triggering d) (.domainForUpdate d)
  | locked {d} : Reads (locked d) (.activeScan d)
  | announcingScan {d x} : Reads (announcing d x) (.scan x)
  | announcingDomain {d x} : Reads (announcing d x) (.domain d)
  | announced {d x d'} : Reads (announced d x) (.domain d')
  | deletingDomain {d} : Reads (deleting d) (.domain d)
  | deletingScans {d} : Reads (deleting d) (.scansOf d)
  | deletingAssets {d x} : Reads (deleting d) (.assetsOf x)
  | recovering : Reads recovering .runningScans
  | listing : Reads listing .recoverableIds
  | taken {x r} : Reads (taken x r) (.scan x)
  | loadedDomain {x r d st} : Reads (loaded x r d st) (.domain d)
  | loadedGuard {x r d st} : Reads (loaded x r d st) (.runningScan d)
  | runningScan {x r d snap} : Reads (running x r d snap) (.scan x)
  | runningDomain {x r d snap} : Reads (running x r d snap) (.domain d)
  | runningAsset {x r d snap a} : Reads (running x r d snap) (.asset a)
  -- the handlers read their rows again after the final commit
  | finishedScan {x d snap h} : Reads (finished x d snap h) (.scan x)
  | finishedDomain {x d snap h} : Reads (finished x d snap h) (.domain d)
  | finishedNext {x d snap h} : Reads (finished x d snap h) (.nextPending d)
  | lostScan {x d} : Reads (lost x d) (.scan x)
  | lostDomain {x d} : Reads (lost x d) (.domain d)
  | lostNext {x d} : Reads (lost x d) (.nextPending d)
  | idle {x} : Reads idle (.scan x)

/-- The commits of a process in each phase, with their statements. -/
inductive Commits : Phase → Site → List Write → Prop
  | createDomain {d name st user} :
    Commits creating (.createDomain d) [.insertDomain d name st user]
  | createScan {d x user} : Commits (created d) (.createScan d x) [.insertScan x d .pending user]
  | triggerManualScan {d x user ws} (h : ws = [] ∨ ws = [.updateDomain d .pending]) :
    Commits (cleared d) (.triggerManualScan d x) (.insertScan x d .pending user :: ws)
  | announcing {d x st ws} (h : ws = [] ∨ ws = [.updateDomain d st]) :
    Commits (announcing d x) (.setDomainStatus d) ws
  | deleteDomain {d} : Commits (deleting d) (.deleteDomain d) [.deleteDomain d]
  | reset {xs ws}
      (h : List.Forall₂ (fun x w ↦ ∃ p : ScanPatch, w = .updateScan x p ∧
        p.status = some .pending) xs ws) :
    Commits (resetting xs) .resetInterruptedScans ws
  -- the domain of the scan is gone, and `process_scan` gives the scan up
  | orphaned {x st ws} (h : SetsScan x (change st .failed) ws) :
    Commits (orphaned x st) (.markScanFailed x) ws
  | markScanRunning {x r d st ws} (h : SetsScan x (change st .running) ws) :
    Commits (claiming x r d st) (.markScanRunning x) ws
  | runningDomain {x r d snap st ws} (h : ws = [] ∨ ws = [.updateDomain d st]) :
    Commits (running x r d snap) (.setDomainStatus d) ws
  | createAssets {x r d snap ws}
      (h : ∀ w ∈ ws, ∃ id type value, w = .insertAsset id x d type value) :
    Commits (running x r d snap) (.createAssets x) ws
  | markScanCompleted {x r d ws} (h : SetsScan x (some .completed) ws) :
    Commits (running x r d none) (.markScanCompleted x) ws
  | markScanFailed {x r d st ws} (h : SetsScan x (change st .failed) ws) :
    Commits (running x r d (some st)) (.markScanFailed x) ws
  | finishedDomain {x d snap h st ws} (hws : ws = [] ∨ ws = [.updateDomain d st]) :
    Commits (finished x d snap h) (.setDomainStatus d) ws
  -- the publish after COMPLETED raises inside the same `try` as the work
  | faulted {x d st ws} (h : SetsScan x (change st .failed) ws) :
    Commits (faulted x d (some st)) (.markScanFailed x) ws
  | lostScan {x d st ws} (h : SetsScan x st ws) (hst : st = none ∨ st = some .failed) :
    Commits (lost x d) (.markScanFailed x) ws
  | lostDomain {x d st ws} (h : ws = [] ∨ ws = [.updateDomain d st]) :
    Commits (lost x d) (.setDomainStatus d) ws

/-- The messages a process publishes in each phase. -/
inductive Publishes : Phase → Message → Prop
  | announcing {d x} : Publishes (announcing d x) ⟨x, 0⟩
  | republishing {x xs} : Publishes (republishing (x :: xs)) ⟨x, 0⟩
  | retry {x r d snap} : Publishes (running x r d snap) ⟨x, r + 1⟩
  | handing {x d snap h y} : Publishes (handing x d snap h y) ⟨y, 0⟩
  | lost {x d y} : Publishes (lost x d) ⟨y, 0⟩

/-- A process in this phase may close its session, after which it is idle. -/
inductive Closes : Phase → Prop
  | creating : Closes creating
  | refused {d} : Closes (refused d)
  | idle : Closes idle
  | republishing : Closes (republishing [])
  | lost {x d} : Closes (lost x d)

/-- The operations of a process in each phase. -/
inductive Allowed : Phase → Op → Prop
  | query {v q} (h : Reads v q) : Allowed v (.query q)
  | flush {d x user} : Allowed (cleared d) (.flush [.insertScan x d .pending user])
  | commit {v site ws} (h : Commits v site ws) : Allowed v (.commit site ws)
  | publish {v m} (h : Publishes v m) : Allowed v (.publish m)
  | rollback {d} : Allowed (refused d) .rollback
  | close {v} (h : Closes v) : Allowed v .close
  | closeAnnounced {d x} : Allowed (announced d x) .close
  | lookup {v name type} : Allowed v (.lookup name type)
  | now {v} : Allowed v .now
  | uuid4 {v} : Allowed v .uuid4

/-- The phases in which a process ends, with what it returns or raises: a trigger that is accepted
has committed the scan it answers with, and an HTTP error is raised before any commit. -/
inductive Ends : Except Exn Response → Phase → Prop
  | accepted {d x st} : Ends (.ok (.trigger x st)) (announced d x)
  | announced {a d x} (h : ∀ y st, a ≠ .ok (.trigger y st))
      (h' : ∀ code detail, a ≠ .error (.http code detail)) : Ends a (announced d x)
  | idle {a} (h : ∀ y st, a ≠ .ok (.trigger y st)) : Ends a idle

/-- What is known of every answer: a row that is looked up by its key has that key, and the rows
that are selected by their status have it. -/
def Possible : (o : Op) → o.Res → Prop
  | .query (.scan x), .ok (some row) => row.id = x
  | .query (.domain d), .ok (some row) => row.id = d
  | .query (.domainForUpdate d), .ok (some row) => row.id = d
  | .query .runningScans, .ok rows => ∀ row ∈ rows, row.status = .running
  | _, _ => True

theorem Ends.idle_error {e : Exn} : Ends (.error e) Phase.idle :=
  .idle (by simp)

/-- Whoever may close its session has nothing left to do. -/
theorem Closes.closed {v : Phase} (h : v.Closes) : v.closed = .idle := by
  cases h <;> rfl

/-- The discipline of the service's processes. -/
def discipline : Effect.Discipline Op Op.Res Phase where
  Allowed := Allowed
  Possible := Possible
  observe := observe

end Phase

/-- The phase in which a request starts. -/
def Request.phase : Request → Phase
  | .create _ _ => .creating
  | .trigger d _ => .triggering d
  | .delete d => .deleting d
  | .recover => .recovering

/-- The phase in which the worker starts that has taken a message. -/
def Message.phase (m : Message) : Phase :=
  .taken m.scan m.retries

end AssetDiscovery
