import Mathlib.Data.Nat.Notation

/-!
# Tables of the service

The enumerations and rows of `app/models`. An id is a version-4 UUID in the source and is only ever
compared, so it is a natural number here; a time is the number of clock units since some epoch.

Columns that no function reads or writes (`domains.updated_at`) are left out, as is the `users`
table: the requests modelled here receive the acting user's id.
-/

namespace AssetDiscovery

/-- A primary key: `str(uuid4())`. -/
abbrev Id := ℕ

/-- A timestamp with time zone. -/
abbrev Time := ℕ

/-- `DomainStatus`. -/
inductive DomainStatus where
  | pending
  | running
  | completed
  | failed
  deriving DecidableEq, Repr

/-- `ScanStatus`. -/
inductive ScanStatus where
  | pending
  | running
  | completed
  | failed
  deriving DecidableEq, Repr

/-- `AssetType`: the record types discovery looks up. -/
inductive AssetType where
  | a
  | aaaa
  | ns
  | mx
  deriving DecidableEq, Repr

/-- A row of `domains`. -/
structure Domain where
  id : Id
  name : String
  status : DomainStatus
  createdBy : Id
  createdAt : Time
  deriving DecidableEq, Repr

/-- A row of `scans`. -/
structure Scan where
  id : Id
  domainId : Id
  status : ScanStatus
  triggeredBy : Option Id
  startedAt : Option Time
  completedAt : Option Time
  errorMessage : Option String
  createdAt : Time
  deriving DecidableEq, Repr

/-- A row of `assets`. -/
structure Asset where
  id : Id
  scanId : Id
  domainId : Id
  type : AssetType
  value : String
  createdAt : Time
  deriving DecidableEq, Repr

namespace ScanStatus

/-- Queued or in progress: what the source tests with `in_([PENDING, RUNNING])`. -/
def IsActive : ScanStatus → Prop
  | pending => True
  | running => True
  | completed => False
  | failed => False

instance : DecidablePred IsActive := fun st ↦ by
  cases st <;> (unfold IsActive; infer_instance)

@[simp] theorem isActive_pending : IsActive pending := trivial

@[simp] theorem isActive_running : IsActive running := trivial

@[simp] theorem not_isActive_completed : ¬ IsActive completed := id

@[simp] theorem not_isActive_failed : ¬ IsActive failed := id

/-- The two states in which a scan is still to be worked on. -/
theorem isActive_iff {st : ScanStatus} : st.IsActive ↔ st = pending ∨ st = running := by
  cases st <;> simp

/-- The domain status that mirrors a scan status. -/
def toDomainStatus : ScanStatus → DomainStatus
  | pending => .pending
  | running => .running
  | completed => .completed
  | failed => .failed

end ScanStatus

end AssetDiscovery
