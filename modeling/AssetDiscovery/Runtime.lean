import AssetDiscovery.Library.Program
import AssetDiscovery.Database

/-!
# What the service runs on

PostgreSQL, the Celery broker, the resolver, the clock and the UUID generator, as a handler for the
operations that the code asks of them. One operation is one query, one commit or one publish, so
interleaving programs operation by operation interleaves them at that granularity.

* A query sees every commit made before it (`READ COMMITTED`, one snapshot for each statement).
* A transaction becomes visible as a whole, at its commit. A statement that was flushed earlier is
  carried along in the session and takes effect with the commit.
* `SELECT ... FOR UPDATE` takes the row lock of a domain and keeps it until the transaction ends;
  it waits while another transaction holds the lock. So does an `UPDATE` of that row, its deletion,
  and the insertion of a row that references it, whose foreign key check locks the parent row.
* An operation whose input says that it fails has no effect, and ends the transaction of a commit.
* Publishing appends a message to the queue; taking messages off it is not an operation of the code
  but a step of the broker.
-/

namespace AssetDiscovery

/-- One record of an answer, by the three ways in which the code prints it. -/
structure Rdata where
  /-- `rdata.to_text()`. -/
  toText : String
  /-- `str(rdata.target)`, where the record has a target. -/
  target : String := ""
  /-- `str(rdata.exchange)`, where the record has an exchange. -/
  exchange : String := ""
  deriving DecidableEq, Repr

/-- The outcome of `resolver.resolve(name, type)`: an answer or the exception it raises. -/
inductive Lookup where
  | answer (rdatas : List Rdata)
  | nxdomain
  | noAnswer
  | noNameservers
  /-- `dns.exception.Timeout` and its subclasses. -/
  | timeout (className text : String)
  /-- Any other `dns.exception.DNSException`. -/
  | dnsError (className text : String)
  /-- An exception that is not a `DNSException`. -/
  | otherError (className text : String)
  deriving DecidableEq, Repr

/-- A queued `run_discovery_scan` job: its argument and `request.retries`. -/
structure Message where
  scan : Id
  retries : ℕ
  deriving DecidableEq, Repr

/-- Statements that only read. -/
inductive Query where
  | scan (x : Id)
  | domain (d : Id)
  | domainByName (name : String)
  | domainForUpdate (d : Id)
  | runningScan (d : Id)
  | activeScan (d : Id)
  | nextPending (d : Id)
  | runningScans
  | recoverableIds
  | asset (a : Id)
  | scansOf (d : Id)
  | assetsOf (x : Id)
  deriving DecidableEq, Repr

/-- What a query returns. -/
abbrev Query.Row : Query → Type
  | .scan _ => Option Scan
  | .domain _ => Option Domain
  | .domainByName _ => Option Domain
  | .domainForUpdate _ => Option Domain
  | .runningScan _ => Option Id
  | .activeScan _ => Option Id
  | .nextPending _ => Option Id
  | .runningScans => List Scan
  | .recoverableIds => List Id
  | .asset _ => Option Asset
  | .scansOf _ => List Scan
  | .assetsOf _ => List Asset

/-- The call whose `db.commit()` a commit is. It has no effect; it names the program point. -/
inductive Site where
  | createDomain (d : Id)
  | createScan (d x : Id)
  | triggerManualScan (d x : Id)
  | deleteDomain (d : Id)
  | markScanRunning (x : Id)
  | markScanCompleted (x : Id)
  | markScanFailed (x : Id)
  | setDomainStatus (d : Id)
  | createAssets (x : Id)
  | resetInterruptedScans
  deriving DecidableEq, Repr

/-- The operations of the code. -/
inductive Op where
  | query (q : Query)
  /-- `db.flush()`: carry the statements out inside the open transaction. -/
  | flush (ws : List Write)
  /-- `db.commit()`: the statements of the transaction take effect. -/
  | commit (site : Site) (ws : List Write)
  | rollback
  /-- `db.close()`. -/
  | close
  /-- `run_discovery_scan.delay` or the publish inside `task.retry`. -/
  | publish (m : Message)
  /-- `resolver.resolve`. -/
  | lookup (name : String) (type : AssetType)
  /-- `datetime.now(UTC)`. -/
  | now
  /-- `uuid4()`. -/
  | uuid4
  deriving DecidableEq, Repr

/-- What an operation answers. -/
abbrev Op.Res : Op → Type
  | .query q => Except DbError q.Row
  | .flush _ => Except DbError Unit
  | .commit _ _ => Except DbError Unit
  | .rollback => Unit
  | .close => Unit
  | .publish _ => Except String Unit
  | .lookup _ _ => Lookup
  | .now => Time
  | .uuid4 => Id

/-- The answer of an operation that failed: a statement or a publish. -/
def Op.Failed : (o : Op) → o.Res → Prop
  | .query _, r => r.toOption = none
  | .flush _, r => r.toOption = none
  | .commit _ _, r => r.toOption = none
  | .publish _, r => r.toOption = none
  | .rollback, _ => False
  | .close, _ => False
  | .lookup _ _, _ => False
  | .now, _ => False
  | .uuid4, _ => False

instance (o : Op) (r : o.Res) : Decidable (o.Failed r) := by
  cases o <;> (unfold Op.Failed; infer_instance)

/-- What the environment decides about one operation. -/
structure Env where
  /-- How far the clock has moved since the last operation. -/
  tick : ℕ := 0
  /-- How long ago the current transaction began, which is what `now()` goes back to. -/
  age : ℕ := 0
  /-- Whether the statement or the publish fails. -/
  fails : Bool := false
  /-- The text of the failure. -/
  text : String := ""
  /-- Which of several equally old rows an ordered query with a limit returns. -/
  pick : ℕ := 0
  /-- What the resolver answers. -/
  lookups : AssetType → Lookup := fun _ ↦ .answer []

/-- The state that all processes share. -/
structure Store where
  db : Database
  /-- The queued messages. -/
  queue : List Message
  /-- Which process holds the row lock of a domain. -/
  locks : Id → Option ℕ
  clock : Time
  /-- Every id drawn so far is below this number. -/
  uuids : ℕ

namespace Store

/-- A new deployment. -/
def empty : Store where
  db := .empty
  queue := []
  locks := fun _ ↦ none
  clock := 0
  uuids := 0

/-- A deployment with one domain and no scan. -/
def oneDomain : Store :=
  { empty with
    db := Database.empty.insertDomain ⟨0, "a.b", .completed, 7, 0⟩ rfl
      fun _ h ↦ absurd h (Table.not_mem_empty _) }

/-- A deployment with one domain and its PENDING scan. -/
def awaiting : Store :=
  { oneDomain with
    db := oneDomain.db.insertScan ⟨1, 0, .pending, some 7, none, none, none, 0⟩ rfl rfl }

variable (s : Store)

/-- Another process holds the row lock of `d`. -/
def LockedFor (tid : ℕ) (d : Id) : Prop :=
  ∃ t ∈ s.locks d, t ≠ tid

instance (tid : ℕ) (d : Id) : Decidable (s.LockedFor tid d) :=
  inferInstanceAs (Decidable (∃ t ∈ s.locks d, t ≠ tid))

/-- Give back every lock of a process. -/
def release (tid : ℕ) : Store :=
  { s with locks := fun d ↦ (s.locks d).filter (· ≠ tid) }

@[simp] theorem release_db (tid : ℕ) : (s.release tid).db = s.db := rfl

@[simp] theorem release_queue (tid : ℕ) : (s.release tid).queue = s.queue := rfl

@[simp] theorem release_clock (tid : ℕ) : (s.release tid).clock = s.clock := rfl

@[simp] theorem release_uuids (tid : ℕ) : (s.release tid).uuids = s.uuids := rfl

end Store

/-- The domain rows a statement has to lock. -/
def Write.domains : Write → List Id
  | .insertDomain .. => []
  | .insertScan _ d _ _ => [d]
  | .insertAsset _ _ d _ _ => [d]
  | .updateScan .. => []
  | .updateDomain d _ => [d]
  | .deleteDomain d => [d]

/-- A statement of the transaction waits for a row lock of another process. -/
def Store.Waits (s : Store) (tid : ℕ) (ws : List Write) : Prop :=
  ∃ w ∈ ws, ∃ d ∈ w.domains, s.LockedFor tid d

instance (s : Store) (tid : ℕ) (ws : List Write) : Decidable (s.Waits tid ws) :=
  inferInstanceAs (Decidable (∃ w ∈ ws, ∃ d ∈ w.domains, s.LockedFor tid d))

/-- The answer of a query that takes no lock. -/
def Database.answer (db : Database) (pick : ℕ) : (q : Query) → q.Row
  | .scan x => db.scans.get x
  | .domain d => db.domains.get d
  | .domainByName name => db.domainByName name
  | .domainForUpdate d => db.domains.get d
  | .runningScan d => db.runningScan d
  | .activeScan d => db.activeScan d
  | .nextPending d => db.nextPending d pick
  | .runningScans => db.runningScans
  | .recoverableIds => db.recoverableIds
  | .asset a => db.assets.get a
  | .scansOf d => db.scansOf d
  | .assetsOf x => db.assetsOf x

/-- Carry out one operation of process `tid`. -/
def serve (tid : ℕ) : Effect.Handler Op Op.Res Env Store
  | .query q, e, s =>
    let s := { s with clock := s.clock + e.tick }
    if e.fails then some (.error .operational, s)
    else
      match q with
      -- `with_for_update` waits while another process holds the row, and takes the lock
      | .domainForUpdate d =>
        if s.LockedFor tid d then none
        else
          match s.db.domains.get d with
          | none => some (.ok none, s)
          | some row =>
            some (.ok (some row),
              { s with locks := fun d' ↦ if d' = d then some tid else s.locks d' })
      | q => some (.ok (s.db.answer e.pick q), s)
  -- nobody sees the rows of a flush before the commit, so only its errors count
  | .flush ws, e, s =>
    let s := { s with clock := s.clock + e.tick }
    if e.fails then some (.error .operational, s.release tid)
    else if s.Waits tid ws then none
    else
      match s.db.writeAll (s.clock - e.age) ws with
      | .ok _ => some (.ok (), s)
      | .error err => some (.error err, s.release tid)
  | .commit _ ws, e, s =>
    let s := { s with clock := s.clock + e.tick }
    if e.fails then some (.error .operational, s.release tid)
    else if s.Waits tid ws then none
    else
      -- the columns with `server_default=func.now()` read the start of the transaction
      match s.db.writeAll (s.clock - e.age) ws with
      | .ok db => some (.ok (), { s.release tid with db := db })
      | .error err => some (.error err, s.release tid)
  | .rollback, e, s => some ((), { s.release tid with clock := s.clock + e.tick })
  | .close, e, s => some ((), { s.release tid with clock := s.clock + e.tick })
  -- a broker that fails keeps nothing of the message
  | .publish m, e, s =>
    let s := { s with clock := s.clock + e.tick }
    if e.fails then some (.error e.text, s)
    else some (.ok (), { s with queue := s.queue ++ [m] })
  | .lookup _ type, e, s => some (e.lookups type, { s with clock := s.clock + e.tick })
  | .now, e, s =>
    let s := { s with clock := s.clock + e.tick }
    some (s.clock, s)
  -- an id that no row has and no process has drawn before
  | .uuid4, e, s =>
    let id := max s.uuids s.db.idBound
    some (id, { s with clock := s.clock + e.tick, uuids := id + 1 })

end AssetDiscovery
