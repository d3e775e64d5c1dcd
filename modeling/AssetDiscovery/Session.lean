import AssetDiscovery.Runtime

/-!
# Code that works in a database session

`Py α` is code that runs with a SQLAlchemy session and either returns an `α` or raises. The session
outlives an exception, so a handler works in the session as the raising statement left it.

An ORM instance is named by its primary key; the attribute values that the session has loaded for it
live in the session, and an instance without loaded values is *expired*. What matters for the
concurrent behaviour is modelled as SQLAlchemy does it (`expire_on_commit`, `autoflush=False`):

* every commit expires every instance, and reading an attribute of an expired instance emits a
  `SELECT`, which raises if the row is gone;
* assigning an attribute records a change against the *loaded* value: an assignment that does not
  change it is left out of the `UPDATE`, whatever the row holds by then;
* a flush that fails, on its own or inside a commit, expires every instance, and after any failed
  statement the session refuses each later statement and commit until `rollback()`.

A statement fails when the database server refuses it or the connection is lost, so a failed
`SELECT` blocks the session too, as it does on PostgreSQL. That no connection can be checked out of
the pool, which would leave the session usable, is not modelled.
-/

namespace AssetDiscovery

open Effect

/-- The exceptions that the code raises, catches or lets through. -/
inductive Exn where
  /-- `fastapi.HTTPException`. -/
  | http (status : ℕ) (detail : String)
  /-- `dns.exception.DNSException`, which `Timeout` is a subclass of. -/
  | dns (className text : String)
  | database (e : DbError)
  /-- `PendingRollbackError`: the session refuses until `rollback()`. -/
  | pendingRollback
  /-- `ObjectDeletedError`: an expired instance whose row is gone. -/
  | objectDeleted
  /-- `InvalidRequestError`: `refresh()` of an instance whose row is gone. -/
  | invalidRequest
  /-- The publish did not reach the broker. -/
  | broker (text : String)
  /-- `celery.exceptions.Retry`. -/
  | retry
  /-- `celery.exceptions.Reject`. -/
  | reject (text : String)
  | other (className text : String)
  deriving DecidableEq, Repr

namespace Exn

/-- `exc.__class__.__name__`. -/
def className : Exn → String
  | http .. => "HTTPException"
  | dns c _ => c
  | database .integrity => "IntegrityError"
  | database .data => "DataError"
  | database .stale => "StaleDataError"
  | database .operational => "OperationalError"
  | pendingRollback => "PendingRollbackError"
  | objectDeleted => "ObjectDeletedError"
  | invalidRequest => "InvalidRequestError"
  | broker _ => "OperationalError"
  | retry => "Retry"
  | reject _ => "Reject"
  | other c _ => c

/-- `str(exc)`, as far as the code depends on it: the texts of SQLAlchemy errors are not
modelled. -/
def text : Exn → String
  | http _ detail => detail
  | dns _ t => t
  | broker t => t
  | reject t => t
  | other _ t => t
  | _ => ""

/-- `str(exc) or exc.__class__.__name__`. -/
def message (e : Exn) : String :=
  if e.text = "" then e.className else e.text

/-- The exception is an instance of one of `_RETRYABLE`. -/
def IsRetryable : Exn → Prop
  | dns .. => True
  | _ => False

instance : DecidablePred IsRetryable := fun e ↦ by
  cases e <;> (unfold IsRetryable; infer_instance)

end Exn

/-- What a session holds: the loaded values of its instances, the statements of the open
transaction, and whether it refuses to go on. -/
structure Session where
  scans : Id → Option Scan := fun _ ↦ none
  domains : Id → Option Domain := fun _ ↦ none
  /-- Statements already carried out in the open transaction. -/
  flushed : List Write := []
  /-- Statements of the next flush. -/
  work : List Write := []
  /-- A statement failed and `rollback()` has not been called. -/
  failed : Bool := false

namespace Session

/-- The session that `SessionLocal()` returns. -/
def new : Session := {}

/-- Forget all loaded values and close the unit of work. -/
def expire (σ : Session) : Session :=
  { σ with scans := fun _ ↦ none, domains := fun _ ↦ none, flushed := [], work := [] }

/-- Remember the loaded values of a scan. -/
def loadScan (σ : Session) (row : Scan) : Session :=
  { σ with scans := fun x ↦ if x = row.id then some row else σ.scans x }

/-- Remember the loaded values of a domain. -/
def loadDomain (σ : Session) (row : Domain) : Session :=
  { σ with domains := fun d ↦ if d = row.id then some row else σ.domains d }

/-- Add a statement to the next flush. -/
def addWork (σ : Session) (w : Write) : Session :=
  { σ with work := σ.work ++ [w] }

/-- Assign attributes of a scan: the changes against the loaded values go into the next flush. -/
def assignScan (σ : Session) (x : Id) (patch : ScanPatch) : Session :=
  match σ.scans x with
  | none => σ.addWork (.updateScan x patch)
  | some row =>
    if patch.diff row = {} then σ
    else (σ.loadScan (patch.apply row)).addWork (.updateScan x (patch.diff row))

/-- Assign the status of a domain; as for `assignScan`. -/
def assignDomain (σ : Session) (d : Id) (st : DomainStatus) : Session :=
  match σ.domains d with
  | none => σ.addWork (.updateDomain d st)
  | some row =>
    if row.status = st then σ
    else (σ.loadDomain { row with status := st }).addWork (.updateDomain d st)

end Session

/-- Code with a session. -/
def Py (α : Type) : Type :=
  Session → Program Op Op.Res (Except Exn α × Session)

namespace Py

variable {α β : Type}

/-- `return`. -/
protected def pure (a : α) : Py α := fun σ ↦ .pure (.ok a, σ)

/-- Sequencing; an exception skips the rest. -/
protected def bind (m : Py α) (f : α → Py β) : Py β := fun σ ↦
  (m σ).bind fun q ↦
    match q with
    | (.ok a, σ') => f a σ'
    | (.error e, σ') => .pure (.error e, σ')

instance : Monad Py where
  pure := Py.pure
  bind := Py.bind

/-- `raise`. -/
def raise (e : Exn) : Py α := fun σ ↦ .pure (.error e, σ)

/-- `try: m` / `except ... as exc: handler(exc)`. -/
def tryExcept (m : Py α) (handler : Exn → Py α) : Py α := fun σ ↦
  (m σ).bind fun q ↦
    match q with
    | (.ok a, σ') => .pure (.ok a, σ')
    | (.error e, σ') => handler e σ'

/-- `try: m` / `finally: final`. -/
def tryFinally (m : Py α) (final : Py Unit) : Py α := fun σ ↦
  (m σ).bind fun q ↦
    (final q.2).bind fun q' ↦
      match q' with
      | (.ok (), σ') => .pure (q.1, σ')
      | (.error e, σ') => .pure (.error e, σ')

/-- An operation that involves no session. -/
def call (o : Op) : Py o.Res := fun σ ↦ .perform o fun r ↦ .pure (.ok r, σ)

/-- Read the session. -/
def session : Py Session := fun σ ↦ .pure (.ok σ, σ)

/-- Change the session without a statement. -/
def modify (f : Session → Session) : Py Unit := fun σ ↦ .pure (.ok (), f σ)

/-! ### Statements -/

/-- Emit a `SELECT`. -/
def select (q : Query) : Py q.Row := fun σ ↦
  if σ.failed then .pure (.error .pendingRollback, σ)
  else .perform (.query q) fun r ↦
    match r with
    | .ok row => .pure (.ok row, σ)
    | .error e => .pure (.error (.database e), { σ with failed := true })

/-- `db.flush()`. -/
def flush : Py Unit := fun σ ↦
  if σ.failed then .pure (.error .pendingRollback, σ)
  else .perform (.flush (σ.flushed ++ σ.work)) fun r ↦
    match r with
    | .ok () => .pure (.ok (), { σ with flushed := σ.flushed ++ σ.work, work := [] })
    | .error e => .pure (.error (.database e), { σ.expire with failed := true })

/-- `db.commit()`, called in `site`. -/
def commit (site : Site) : Py Unit := fun σ ↦
  if σ.failed then .pure (.error .pendingRollback, σ)
  else .perform (.commit site (σ.flushed ++ σ.work)) fun r ↦
    match r with
    | .ok () => .pure (.ok (), σ.expire)
    | .error e => .pure (.error (.database e), { σ.expire with failed := true })

/-- `db.rollback()`. -/
def rollback : Py Unit := fun σ ↦
  .perform .rollback fun _ ↦ .pure (.ok (), { σ.expire with failed := false })

/-- `db.close()`. -/
def close : Py Unit := fun σ ↦ .perform .close fun _ ↦ .pure (.ok (), σ)

/-- `db.add` of a new instance. -/
def add (w : Write) : Py Unit := modify (·.addWork w)

/-! ### Instances -/

/-- Emit the `SELECT` of a scan by its primary key and load what it returns. -/
def fetchScan (x : Id) : Py (Option Scan) := do
  match ← select (.scan x) with
  | some row => do
    modify (·.loadScan row)
    return some row
  | none => return none

/-- `db.get(Scan, x)`: loaded values are returned without a statement. -/
def getScan (x : Id) : Py (Option Scan) := do
  match (← session).scans x with
  | some row => return some row
  | none => fetchScan x

/-- Read the attributes of an instance that the code holds. -/
def readScan (x : Id) : Py Scan := do
  match ← getScan x with
  | some row => return row
  | none => raise .objectDeleted

/-- `db.refresh(scan)`. -/
def refreshScan (x : Id) : Py Scan := do
  match ← fetchScan x with
  | some row => return row
  | none => raise .invalidRequest

/-- Assign attributes of a scan. -/
def assignScan (x : Id) (patch : ScanPatch) : Py Unit :=
  modify (·.assignScan x patch)

/-- Emit the `SELECT` of a domain by its primary key and load what it returns. -/
def fetchDomain (d : Id) : Py (Option Domain) := do
  match ← select (.domain d) with
  | some row => do
    modify (·.loadDomain row)
    return some row
  | none => return none

/-- `db.get(Domain, d)`. -/
def getDomain (d : Id) : Py (Option Domain) := do
  match (← session).domains d with
  | some row => return some row
  | none => fetchDomain d

/-- Read the attributes of an instance that the code holds. -/
def readDomain (d : Id) : Py Domain := do
  match ← getDomain d with
  | some row => return row
  | none => raise .objectDeleted

/-- `db.refresh(domain)`. -/
def refreshDomain (d : Id) : Py Domain := do
  match ← fetchDomain d with
  | some row => return row
  | none => raise .invalidRequest

/-- Assign the status of a domain. -/
def assignDomain (d : Id) (st : DomainStatus) : Py Unit :=
  modify (·.assignDomain d st)

end Py

end AssetDiscovery
