import AssetDiscovery.Conformance.Rules

/-!
# Workers and the recovery keep to the discipline
-/

namespace AssetDiscovery

open Effect Py

namespace Session

/-- The session refuses nothing and has no open unit of work. -/
structure Clean (σ : Session) : Prop where
  failed : σ.failed = false
  flushed : σ.flushed = []
  work : σ.work = []

theorem clean_new : Clean new := ⟨rfl, rfl, rfl⟩

variable {σ : Session}

/-- Loading a row leaves the transaction empty. -/
theorem Clean.loadScan (h : σ.Clean) (row : Scan) : (σ.loadScan row).Clean :=
  ⟨h.failed, h.flushed, h.work⟩

/-- So does loading that of a domain. -/
theorem Clean.loadDomain (h : σ.Clean) (row : Domain) : (σ.loadDomain row).Clean :=
  ⟨h.failed, h.flushed, h.work⟩

@[simp]
theorem loadScan_scans_self (row : Scan) : (σ.loadScan row).scans row.id = some row := by
  simp [Session.loadScan]

@[simp]
theorem loadScan_domains (row : Scan) : (σ.loadScan row).domains = σ.domains := rfl

@[simp]
theorem loadDomain_domains_self (row : Domain) :
    (σ.loadDomain row).domains row.id = some row := by
  simp [Session.loadDomain]

@[simp]
theorem loadDomain_scans (row : Domain) : (σ.loadDomain row).scans = σ.scans := rfl

/-- The status column of the `UPDATE` that assigning `st` leads to. -/
def statusChange (σ : Session) (x : Id) (st : ScanStatus) : Option ScanStatus :=
  match σ.scans x with
  | none => some st
  | some row => Phase.change row.status st

/-- An assignment to an expired scan is written in any case. -/
theorem statusChange_expired {x : Id} {st : ScanStatus} (h : σ.scans x = none) :
    σ.statusChange x st = some st := by
  rw [statusChange, h]

/-- An assignment to a loaded scan is written if it changes the loaded status. -/
theorem statusChange_loaded {x : Id} {st : ScanStatus} {row : Scan}
    (h : σ.scans x = some row) : σ.statusChange x st = Phase.change row.status st := by
  rw [statusChange, h]

@[simp]
theorem assignScan_failed (x : Id) (p : ScanPatch) : (σ.assignScan x p).failed = σ.failed := by
  unfold assignScan
  split
  · rfl
  · split <;> rfl

@[simp]
theorem assignScan_flushed (x : Id) (p : ScanPatch) :
    (σ.assignScan x p).flushed = σ.flushed := by
  unfold assignScan
  split
  · rfl
  · split <;> rfl

@[simp]
theorem assignDomain_failed (d : Id) (st : DomainStatus) :
    (σ.assignDomain d st).failed = σ.failed := by
  unfold assignDomain
  split
  · rfl
  · split <;> rfl

@[simp]
theorem assignDomain_flushed (d : Id) (st : DomainStatus) :
    (σ.assignDomain d st).flushed = σ.flushed := by
  unfold assignDomain
  split
  · rfl
  · split <;> rfl

/-- A session that has not failed is new after a commit. -/
theorem expire_eq_of_failed (h : σ.failed = false) : σ.expire = new := by
  rw [expire, h]
  rfl

/-- The statements that assigning attributes of one scan adds to a clean session. -/
theorem Clean.setsScan_assignScan (h : σ.Clean) {x : Id} {p : ScanPatch} {st : ScanStatus}
    (hp : p.status = some st) : Phase.SetsScan x (σ.statusChange x st) (σ.assignScan x p).work := by
  unfold assignScan
  split
  · next hx => exact Or.inr ⟨p, by simp [addWork, h.work], by rw [hp, statusChange_expired hx]⟩
  · next row hx =>
    have hstatus : (p.diff row).status = Phase.change row.status st := by
      by_cases hst : st = row.status <;> simp [ScanPatch.diff, Phase.change, hp, hst]
    rw [statusChange_loaded hx]
    split
    · next hdiff => exact Or.inl ⟨h.work, by rw [← hstatus, hdiff]⟩
    · exact Or.inr ⟨p.diff row, by simp [addWork, Session.loadScan, h.work], hstatus⟩

/-- The statement that assigning a domain's status adds to the next flush. -/
theorem assignDomain_work (h : σ.work = []) (d : Id) (st : DomainStatus) :
    (σ.assignDomain d st).work = [] ∨ (σ.assignDomain d st).work = [.updateDomain d st] := by
  unfold assignDomain
  split
  · exact Or.inr (by simp [addWork, h])
  · split
    · exact Or.inl h
    · exact Or.inr (by simp [addWork, Session.loadDomain, h])

end Session

namespace Py

open Session

variable {α : Type} {E : Exn → Session → Phase → Prop} {σ : Session} {v : Phase}

/-- `mark_scan_*` from a clean session: the commit is the one the phase allows, and the row is read
again in the phase after it. -/
theorem follows_markScan {P : Scan → Session → Phase → Prop} {site : Site} {x : Id}
    {patch : Time → ScanPatch} {st : ScanStatus} (hst : ∀ t, (patch t).status = some st)
    (hσ : σ.Clean)
    (hcommit : ∀ ws, Phase.SetsScan x (σ.statusChange x st) ws → v.Commits site ws)
    (hread : (v.committed site).Reads (.scan x))
    (hP : ∀ row, row.id = x → P row (new.loadScan row) ((v.committed site).readScan (some row)))
    (hgone : E .invalidRequest new ((v.committed site).readScan none))
    (hfault : ∀ err σ, σ.failed = true → E (.database err) σ v.fault)
    (hfault' : ∀ err σ, σ.failed = true → E (.database err) σ (v.committed site).fault) :
    Follows P E (ScanRepo.markScan site x patch) σ v := by
  rw [ScanRepo.markScan, follows_bind, follows_call]
  refine ⟨.now, fun now _ ↦ ?_⟩
  rw [assignScan, follows_bind, follows_modify, follows_bind, follows_commit, assignScan_failed,
    hσ.failed, if_neg (by decide), expire_eq_of_failed (by rw [assignScan_failed, hσ.failed]),
    assignScan_flushed, hσ.flushed, follows_refreshScan rfl]
  refine ⟨.commit (hcommit _ (hσ.setsScan_assignScan (hst now))), ?_, fun err ↦ hfault err _ rfl⟩
  exact ⟨.query hread, hgone, hP, fun err ↦ hfault' err _ rfl⟩

/-- `set_domain_status` from a clean session. -/
theorem follows_setDomainStatus {P : Domain → Session → Phase → Prop} {d : Id}
    {st : DomainStatus} (hσ : σ.Clean)
    (hcommit : ∀ ws, ws = [] ∨ ws = [.updateDomain d st] → v.Commits (.setDomainStatus d) ws)
    (hread : (v.committed (.setDomainStatus d)).Reads (.domain d))
    (hP : ∀ row, row.id = d →
      P row (new.loadDomain row) ((v.committed (.setDomainStatus d)).readDomain (some row)))
    (hgone : E .invalidRequest new ((v.committed (.setDomainStatus d)).readDomain none))
    (hfault : ∀ err σ, σ.failed = true → E (.database err) σ v.fault)
    (hfault' : ∀ err σ, σ.failed = true →
      E (.database err) σ (v.committed (.setDomainStatus d)).fault) :
    Follows P E (ScanRepo.setDomainStatus d st) σ v := by
  rw [ScanRepo.setDomainStatus, assignDomain, follows_bind, follows_modify, follows_bind,
    follows_commit, assignDomain_failed, hσ.failed, if_neg (by decide),
    expire_eq_of_failed (by rw [assignDomain_failed, hσ.failed]), assignDomain_flushed,
    hσ.flushed, follows_refreshDomain rfl]
  refine ⟨.commit (hcommit _ (assignDomain_work hσ.work d st)), ?_, fun err ↦ hfault err _ rfl⟩
  exact ⟨.query hread, hgone, hP, fun err ↦ hfault' err _ rfl⟩

/-! ### The tail of a job -/

/-- What the tail of a job leaves when it raises; `h` says that it runs in a handler. Only the
broker error of the body finds the session in order and the rows in place. -/
inductive Leaves (x : Id) : Bool → Session → Phase → Prop
  | refused {h : Bool} {σ : Session} (hσ : σ.failed = true) : Leaves x h σ .idle
  | lost {h : Bool} {σ : Session} {d : Id} (hσ : σ.Clean)
      (hd : ∀ row, σ.scans x = some row → row.domainId = d) : Leaves x h σ (.lost x d)
  | unpublished {σ : Session} {row : Scan} (hσ : σ.Clean) (hx : σ.scans x = some row) :
    Leaves x false σ (.faulted x row.domainId (some row.status))
  | ended {σ : Session} : Leaves x true σ .idle

theorem Leaves.closes {x : Id} (h : Leaves x true σ v) : v.Closes := by
  rcases h with - | - | - | -
  · exact .idle
  · exact .lost
  · exact .idle

/-- `enqueue_scan` of the next scan, when the job has given its scan a final status. -/
theorem follows_enqueueNext_finished {x : Id} {row : Scan} {h : Bool} (hσ : σ.Clean)
    (hx : σ.scans x = some row) :
    Follows (fun _ _ v ↦ v.Closes) (fun e σ v ↦ ¬ e.IsRetryable ∧ Leaves x h σ v)
      (enqueueNextPendingForDomain row.domainId) σ
      (.finished x row.domainId (some row.status) h) := by
  rw [enqueueNextPendingForDomain, follows_bind, follows_select, hσ.failed, if_neg (by decide)]
  refine ⟨.query .finishedNext, fun next _ ↦ ?_, fun err ↦ ⟨id, .refused rfl⟩⟩
  cases next with
  | none => exact .idle
  | some y =>
    show Follows _ _ (enqueueScan y) _ _
    rw [enqueueScan, publish, follows_bind, follows_call]
    refine ⟨.publish .handing, fun r _ ↦ ?_⟩
    rcases r with text | -
    · cases h with
      | false => exact ⟨id, .unpublished hσ hx⟩
      | true => exact ⟨id, .ended⟩
    · cases h <;> exact .idle

/-- `enqueue_scan` of the next scan, when a row of the job is gone. -/
theorem follows_enqueueNext_lost {x : Id} {row : Scan} {h : Bool} (hσ : σ.Clean)
    (hx : σ.scans x = some row) :
    Follows (fun _ _ v ↦ v.Closes) (fun e σ v ↦ ¬ e.IsRetryable ∧ Leaves x h σ v)
      (enqueueNextPendingForDomain row.domainId) σ (.lost x row.domainId) := by
  have hslot : ∀ row', σ.scans x = some row' → row'.domainId = row.domainId := by
    intro row' hrow'
    rw [hx] at hrow'
    rw [Option.some.inj hrow']
  rw [enqueueNextPendingForDomain, follows_bind, follows_select, hσ.failed, if_neg (by decide)]
  refine ⟨.query .lostNext, fun next _ ↦ ?_, fun err ↦ ⟨id, .refused rfl⟩⟩
  cases next with
  | none => exact .lost
  | some y =>
    show Follows _ _ (enqueueScan y) _ _
    rw [enqueueScan, publish, follows_bind, follows_call]
    refine ⟨.publish .lost, fun r _ ↦ ?_⟩
    rcases r with text | -
    · exact ⟨id, .lost hσ hslot⟩
    · exact .lost

/-- The tail of a job whose scan has just been read again after its last status commit. -/
theorem follows_settleDomain {x : Id} {row : Scan} {h : Bool} {st : DomainStatus}
    (hrow : row.id = x)
    (hv : v = .finished x row.domainId (some row.status) h ∨ v = .lost x row.domainId) :
    Follows (fun _ _ v ↦ v.Closes) (fun e σ v ↦ ¬ e.IsRetryable ∧ Leaves x h σ v)
      (settleDomain x st) (new.loadScan row) v := by
  subst hrow
  have hx : (new.loadScan row).scans row.id = some row := loadScan_scans_self row
  have hσ : (new.loadScan row).Clean := clean_new.loadScan row
  rw [settleDomain, follows_bind, follows_readScan_loaded hx, DomainRepo.getDomainById,
    follows_bind, follows_getDomain_expired rfl, follows_fetchDomain rfl]
  rcases hv with rfl | rfl
  · refine ⟨.query .finishedDomain, ?_, fun domain hdomain ↦ ?_, fun err ↦ ⟨id, .refused rfl⟩⟩
    · show Follows _ _ _ _ (.lost row.id row.domainId)
      rw [follows_bind, follows_readScan_loaded hx]
      exact follows_enqueueNext_lost hσ hx
    · rw [follows_bind, hdomain]
      refine follows_setDomainStatus (hσ.loadDomain domain) (fun ws ↦ .finishedDomain)
        .finishedDomain (fun domain' _ ↦ ?_) ⟨id, .lost clean_new nofun⟩
        (fun err σ hσ ↦ ⟨id, .refused hσ⟩) (fun err σ hσ ↦ ⟨id, .refused hσ⟩)
      rw [follows_bind, follows_readScan_expired rfl rfl]
      refine ⟨.query .finishedScan, ⟨id, .lost (clean_new.loadDomain _) nofun⟩,
        fun row' hrow' ↦ ?_, fun err ↦ ⟨id, .refused rfl⟩⟩
      have hx' := loadScan_scans_self (σ := new.loadDomain domain') row'
      rw [hrow'] at hx'
      exact follows_enqueueNext_finished ((clean_new.loadDomain _).loadScan _) hx'
  -- the same code without the scan: nothing it writes matters any more
  · refine ⟨.query .lostDomain, ?_, fun domain hdomain ↦ ?_, fun err ↦ ⟨id, .refused rfl⟩⟩
    · show Follows _ _ _ _ (.lost row.id row.domainId)
      rw [follows_bind, follows_readScan_loaded hx]
      exact follows_enqueueNext_lost hσ hx
    · rw [follows_bind, hdomain]
      refine follows_setDomainStatus (hσ.loadDomain domain) (fun ws ↦ .lostDomain)
        .lostDomain (fun domain' _ ↦ ?_) ⟨id, .lost clean_new nofun⟩
        (fun err σ hσ ↦ ⟨id, .refused hσ⟩) (fun err σ hσ ↦ ⟨id, .refused hσ⟩)
      rw [follows_bind, follows_readScan_expired rfl rfl]
      refine ⟨.query .lostScan, ⟨id, .lost (clean_new.loadDomain _) nofun⟩,
        fun row' hrow' ↦ ?_, fun err ↦ ⟨id, .refused rfl⟩⟩
      have hx' := loadScan_scans_self (σ := new.loadDomain domain') row'
      rw [hrow'] at hx'
      exact follows_enqueueNext_lost ((clean_new.loadDomain _).loadScan _) hx'

/-- `_fail_scan`, from a phase in which the scan is loaded and may be failed. -/
theorem follows_failScan {x d : Id} {message : String} (hσ : σ.Clean)
    (hcommit : ∀ ws, Phase.SetsScan x (σ.statusChange x .failed) ws →
      v.Commits (.markScanFailed x) ws)
    (hv : v.committed (.markScanFailed x) = .finished x d none true ∨
      v.committed (.markScanFailed x) = .lost x d)
    (hfault : v.fault = .idle) :
    Follows (fun _ _ v ↦ v.Closes) (fun _ _ v ↦ v.Closes) (failScan x message) σ v := by
  rw [failScan, follows_bind]
  refine follows_markScan (fun _ ↦ rfl) hσ hcommit ?_ (fun row hrow ↦ ?_) ?_
    (fun err σ _ ↦ by rw [hfault]; exact .idle) (fun err σ _ ↦ ?_)
  · rcases hv with hv | hv <;> rw [hv]
    · exact .finishedScan
    · exact .lostScan
  · refine (follows_settleDomain (h := true) hrow ?_).mono (fun _ _ _ h ↦ h)
      fun _ _ _ h ↦ h.2.closes
    rcases hv with hv | hv <;> rw [hv]
    · exact Or.inl rfl
    · exact Or.inr rfl
  · rcases hv with hv | hv <;> rw [hv] <;> exact .lost
  · rcases hv with hv | hv <;> rw [hv] <;> exact .idle

/-! ### The handlers -/

/-- In a session that refuses every statement, `_fail_scan` does nothing that others could see. -/
theorem follows_failScan_refused {x : Id} {message : String} (hσ : σ.failed = true) :
    Follows (fun _ _ v ↦ v.Closes) (fun _ _ v ↦ v.Closes) (failScan x message) σ .idle := by
  rw [failScan, ScanRepo.markScanFailed, ScanRepo.markScan, follows_bind, follows_bind,
    follows_call]
  refine ⟨.now, fun now _ ↦ ?_⟩
  rw [assignScan, follows_bind, follows_modify, follows_bind, follows_commit, assignScan_failed,
    hσ, if_pos rfl]
  exact .idle

/-- A read that a session refuses, or answers from what it has loaded. -/
theorem follows_readScan_refused {x : Id} {P : Scan → Session → Phase → Prop}
    (hσ : σ.failed = true) (hP : ∀ row, P row σ v) (hE : E .pendingRollback σ v) :
    Follows P E (readScan x) σ v := by
  cases hx : σ.scans x with
  | some row =>
    rw [follows_readScan_loaded hx]
    exact hP row
  | none =>
    rw [readScan, follows_bind, follows_getScan_expired hx, fetchScan, follows_bind,
      follows_select, hσ, if_pos rfl]
    exact hE

/-- What the body of a job leaves to the handlers when it raises: the tail of the job, or the
session in order before the last status commit. -/
inductive Interrupted (x r d : Id) : Exn → Session → Phase → Prop
  | left {e : Exn} {σ : Session} {v : Phase} (he : ¬ e.IsRetryable) (h : Leaves x false σ v) :
    Interrupted x r d e σ v
  | running {e : Exn} {σ : Session} (hσ : σ.Clean) :
    Interrupted x r d e σ (.running x r d ((σ.scans x).map Scan.status))

/-- Reading a scan that the session may have expired, while the job runs. -/
theorem follows_readScan_running {x r d : Id} {P : Scan → Session → Phase → Prop}
    (hσ : σ.Clean)
    (hP : ∀ row σ', σ'.Clean → σ'.scans x = some row → σ'.domains = σ.domains →
      P row σ' (.running x r d (some row.status)))
    (hE : ∀ e σ' v, ¬ e.IsRetryable → (∀ h, Leaves x h σ' v) → E e σ' v) :
    Follows P E (readScan x) σ (.running x r d ((σ.scans x).map Scan.status)) := by
  cases hx : σ.scans x with
  | some row =>
    rw [follows_readScan_loaded hx]
    exact hP row σ hσ hx rfl
  | none =>
    rw [follows_readScan_expired hσ.failed hx]
    refine ⟨.query .runningScan, hE _ _ _ id fun _ ↦ .lost hσ (by rw [hx]; exact nofun),
      fun row hrow ↦ ?_, fun err ↦ hE _ _ _ id fun _ ↦ .refused rfl⟩
    have hx' := loadScan_scans_self (σ := σ) row
    rw [hrow] at hx'
    exact hP row _ (hσ.loadScan row) hx' rfl

/-- `_fail_scan` while the job runs. -/
theorem follows_failScan_running {x r d : Id} {row : Scan} {message : String} (hσ : σ.Clean)
    (hx : σ.scans x = some row) :
    Follows (fun _ _ v ↦ v.Closes) (fun _ _ v ↦ v.Closes) (failScan x message) σ
      (.running x r d (some row.status)) := by
  refine follows_failScan (d := d) hσ (fun ws hws ↦ ?_) (Or.inl rfl) rfl
  rw [statusChange_loaded hx] at hws
  exact .markScanFailed hws

/-- `_fail_scan` when a row of the job is gone. -/
theorem follows_failScan_lost {x d : Id} {message : String} (hσ : σ.Clean) :
    Follows (fun _ _ v ↦ v.Closes) (fun _ _ v ↦ v.Closes) (failScan x message) σ
      (.lost x d) := by
  refine follows_failScan hσ (fun ws hws ↦ .lostScan hws ?_) (Or.inr rfl) rfl
  unfold Session.statusChange Phase.change
  split
  · exact Or.inr rfl
  · split
    · exact Or.inl rfl
    · exact Or.inr rfl

/-- The catch-all handler. -/
theorem follows_failScan_left {x : Id} {message : String} (h : Leaves x false σ v) :
    Follows (fun _ _ v ↦ v.Closes) (fun _ _ v ↦ v.Closes)
      (do let _ ← readScan x; failScan x message) σ v := by
  rw [follows_bind]
  rcases h with hσ | ⟨hσ, -⟩ | ⟨hσ, hx⟩ | -
  · exact follows_readScan_refused hσ (fun _ ↦ follows_failScan_refused hσ) .idle
  · cases hx : σ.scans x with
    | some row =>
      rw [follows_readScan_loaded hx]
      exact follows_failScan_lost hσ
    | none =>
      rw [follows_readScan_expired hσ.failed hx]
      exact ⟨.query .lostScan, .lost, fun row _ ↦ follows_failScan_lost (hσ.loadScan row),
        fun _ ↦ .idle⟩
  · rename_i row
    rw [follows_readScan_loaded hx]
    refine follows_failScan (d := row.domainId) hσ (fun ws hws ↦ ?_) (Or.inl rfl) rfl
    rw [statusChange_loaded hx] at hws
    exact .faulted hws

/-- The two handlers of the body. -/
theorem follows_handleDiscoveryError {cfg : Settings} {x r d : Id} {e : Exn}
    (h : Interrupted x r d e σ v) :
    Follows (fun _ _ v ↦ v.Closes) (fun _ _ v ↦ v.Closes)
      (handleDiscoveryError cfg x (some r) e) σ v := by
  unfold handleDiscoveryError
  rcases h with ⟨he, h⟩ | hσ
  · rw [if_neg he]
    exact follows_failScan_left h
  · have hleft : ∀ (e : Exn) σ v, ¬ e.IsRetryable → (∀ h, Leaves x h σ v) → v.Closes :=
      fun _ _ _ _ h ↦ (h true).closes
    split
    · rw [follows_bind]
      refine follows_readScan_running hσ (fun row σ' hσ' hx' _ ↦ ?_) hleft
      show Follows _ _ (if r < cfg.scanMaxRetries then taskRetry x r else _) _ _
      split
      · rw [taskRetry, follows_bind, follows_call]
        refine ⟨.publish .retry, fun answer _ ↦ ?_⟩
        rcases answer with text | -
        · exact .idle
        · exact .idle
      · rw [follows_bind, follows_readScan_loaded hx']
        exact follows_failScan_running hσ' hx'
    · rw [follows_bind]
      exact follows_readScan_running hσ
        (fun row σ' hσ' hx' _ ↦ follows_failScan_running hσ' hx') hleft

/-! ### The body -/

/-- The lookups take no part in the phase. -/
theorem follows_resolveTypes {P : List (AssetType × String) → Session → Phase → Prop}
    {name : String} (hP : ∀ records, P records σ v) (hE : ∀ e, E e σ v) (types : List AssetType)
    (results : List (AssetType × String)) :
    Follows P E (resolveTypes name types results) σ v := by
  induction types generalizing results with
  | nil => exact hP results
  | cons type types ih =>
    rw [resolveTypes, follows_bind, follows_call]
    refine ⟨.lookup, fun answer _ ↦ ?_⟩
    cases answer with
    | answer rdatas => exact ih _
    | nxdomain => exact ih _
    | noAnswer => exact ih _
    | noNameservers => exact ih _
    | timeout className text => exact hE _
    | dnsError className text => exact hE _
    | otherError className text => exact hE _

/-- `db.add_all` only adds the `INSERT` of each record to the next flush. -/
theorem follows_addAssets {P : List Id → Session → Phase → Prop} {x d : Id}
    (records : List (AssetType × String))
    (hP : ∀ ids σ', σ'.failed = σ.failed → σ'.flushed = σ.flushed →
      (∀ w ∈ σ'.work, w ∈ σ.work ∨ ∃ id type value, w = .insertAsset id x d type value) →
      P ids σ' v) :
    Follows P E (AssetRepo.addAssets x d records) σ v := by
  induction records generalizing P σ with
  | nil => exact hP [] σ rfl rfl fun w hw ↦ Or.inl hw
  | cons record records ih =>
    obtain ⟨type, value⟩ := record
    rw [AssetRepo.addAssets, follows_bind, follows_call]
    refine ⟨.uuid4, fun id _ ↦ ?_⟩
    rw [add, follows_bind, follows_modify, follows_bind]
    refine ih fun ids σ' hfailed hflushed hwork ↦ ?_
    refine hP (id :: ids) σ' hfailed hflushed fun w hw ↦ ?_
    rcases hwork w hw with hw | hw
    · rcases List.mem_append.1 hw with hw | hw
      · exact Or.inl hw
      · exact Or.inr ⟨id, type, value, List.mem_singleton.1 hw⟩
    · exact Or.inr hw

/-- `create_assets` while the job runs. -/
theorem follows_createAssets {P : Unit → Session → Phase → Prop} {x r d : Id}
    {snap : Option ScanStatus} {records : List (AssetType × String)} (hσ : σ.Clean)
    (hP : P () new (.running x r d none))
    (hgone : E .invalidRequest new (.running x r d none))
    (hfault : ∀ err σ, σ.failed = true → E (.database err) σ .idle) :
    Follows P E (AssetRepo.createAssets x d records) σ (.running x r d snap) := by
  rw [AssetRepo.createAssets, follows_bind]
  refine follows_addAssets records fun ids σ' hfailed hflushed hwork ↦ ?_
  rw [follows_bind, follows_commit, hfailed, hσ.failed, if_neg (by decide),
    expire_eq_of_failed (hfailed.trans hσ.failed)]
  refine ⟨.commit (.createAssets fun w hw ↦ ?_), ?_, fun err ↦ hfault err _ rfl⟩
  · rw [hflushed, hσ.flushed, List.nil_append] at hw
    rcases hwork w hw with hw | hw
    · rw [hσ.work] at hw
      exact absurd hw List.not_mem_nil
    · exact hw
  · refine (follows_forM (fun _ σ v ↦ σ = new ∧ v = .running x r d none) ?_ ids
      ⟨rfl, rfl⟩).mono (fun _ σ v h ↦ ?_) fun _ _ _ h ↦ h
    · rintro id ids σ v ⟨rfl, rfl⟩
      rw [AssetRepo.refreshAsset, follows_bind, follows_select, if_neg (by decide)]
      refine ⟨.query .runningAsset, fun row _ ↦ ?_, fun err ↦ hfault err _ rfl⟩
      cases row with
      | none => exact hgone
      | some row => exact ⟨rfl, rfl⟩
    · obtain ⟨rfl, rfl⟩ := h
      exact hP

/-- The body of the inner `try`: an exception leaves the job to the handlers. -/
theorem follows_discover {x r d : Id} {row : Scan} {domain : Domain} (hσ : σ.Clean)
    (hx : σ.scans x = some row) (hid : row.id = x) (hd : σ.domains d = some domain)
    (hdid : domain.id = d) :
    Follows (fun _ _ v ↦ v.Closes) (Interrupted x r d) (discover x d) σ
      (.running x r d (some row.status)) := by
  have hinterrupted : ∀ e, Interrupted x r d e σ (.running x r d (some row.status)) := by
    intro e
    have h := Interrupted.running (x := x) (r := r) (d := d) (e := e) hσ
    rw [hx] at h
    exact h
  have hrefused : ∀ err σ, σ.failed = true → Interrupted x r d (.database err) σ .idle :=
    fun err σ hσ ↦ .left id (.refused hσ)
  rw [discover, follows_bind, follows_readDomain_loaded hd, follows_bind, resolveDomainRecords]
  refine follows_resolveTypes (fun records ↦ ?_) hinterrupted _ _
  rw [follows_bind, follows_readScan_loaded hx, follows_bind, hid, hdid]
  refine follows_createAssets hσ ?_ (.running clean_new) hrefused
  rw [follows_bind]
  refine follows_markScan (fun _ ↦ rfl) clean_new (fun ws ↦ .markScanCompleted) .finishedScan
    (fun row hrow ↦ ?_) (.left id (.lost clean_new nofun)) hrefused hrefused
  exact (follows_settleDomain (h := false) hrow (Or.inl rfl)).mono (fun _ _ _ h ↦ h)
    fun _ _ _ h ↦ .left h.1 h.2

/-- `_process_scan` from the `mark_scan_running` call on. -/
theorem follows_runDiscovery {cfg : Settings} {x r : Id} {row : Scan} {d : Id} (hσ : σ.Clean)
    (hx : σ.scans x = some row) :
    Follows (fun _ _ v ↦ v.Closes) (fun _ _ v ↦ v.Closes) (runDiscovery cfg x d (some r)) σ
      (.claiming x r d row.status) := by
  rw [runDiscovery, follows_bind]
  refine follows_markScan (fun _ ↦ rfl) hσ (fun ws hws ↦ ?_) .runningScan (fun row' _ ↦ ?_)
    .lost (fun _ _ _ ↦ .idle) fun _ _ _ ↦ .idle
  · rw [statusChange_loaded hx] at hws
    exact .markScanRunning hws
  · rw [follows_bind]
    refine follows_setDomainStatus (clean_new.loadScan row') (fun ws ↦ .runningDomain)
      .runningDomain (fun domain hdomain ↦ ?_) .lost (fun _ _ _ ↦ .idle) fun _ _ _ ↦ .idle
    rw [follows_bind, follows_readScan_expired rfl rfl]
    refine ⟨.query .runningScan, .lost, fun row hrow ↦ ?_, fun _ ↦ .idle⟩
    have hscan := loadScan_scans_self (σ := new.loadDomain domain) row
    have hdom := loadDomain_domains_self (σ := new) domain
    rw [hrow] at hscan
    rw [hdomain] at hdom
    rw [follows_tryExcept]
    exact (follows_discover ((clean_new.loadDomain domain).loadScan row) hscan hrow hdom
      hdomain).mono (fun _ _ _ h ↦ h) fun _ _ _ h ↦ follows_handleDiscoveryError h

/-- `_process_scan` inside its outer `try`. -/
theorem follows_processScanBody {cfg : Settings} {x r : Id} :
    Follows (fun _ _ v ↦ v.Closes) (fun _ _ v ↦ v.Closes) (processScanBody cfg x (some r)) new
      (.taken x r) := by
  rw [processScanBody, follows_bind, ScanRepo.getScanById, follows_getScan_expired rfl,
    follows_fetchScan rfl]
  refine ⟨.query .taken, .idle, fun row hrow ↦ ?_, fun _ ↦ .idle⟩
  have hx := loadScan_scans_self (σ := new) row
  rw [hrow] at hx
  have hσ := clean_new.loadScan row
  show Follows _ _ (if ¬ row.status.IsActive then _ else _) _
    (if row.status.IsActive then .loaded x r row.domainId row.status else .idle)
  by_cases hactive : row.status.IsActive
  swap
  · rw [if_pos hactive, if_neg hactive]
    exact .idle
  rw [if_neg (not_not.2 hactive), if_pos hactive, follows_bind, DomainRepo.getDomainById,
    follows_getDomain_expired rfl, follows_fetchDomain rfl]
  refine ⟨.query .loadedDomain, ?_, fun domain hdomain ↦ ?_, fun _ ↦ .idle⟩
  · -- the domain is gone: the scan is failed and nothing follows
    show Follows _ _ (_ >>= fun _ ↦ pure ()) _ _
    rw [follows_bind]
    refine follows_markScan (fun _ ↦ rfl) hσ (fun ws hws ↦ ?_) .idle (fun _ _ ↦ .idle)
      .idle (fun _ _ _ ↦ .idle) fun _ _ _ ↦ .idle
    rw [statusChange_loaded hx] at hws
    exact .orphaned hws
  · rw [follows_bind, ScanRepo.domainHasRunningScan, follows_bind, follows_select,
      (hσ.loadDomain domain).failed, if_neg (by decide), hdomain]
    refine ⟨.query .loadedGuard, fun found _ ↦ ?_, fun _ ↦ .idle⟩
    show Follows _ _ (if found.isSome ∧ row.status ≠ .running then pure () else _) _
      (if found.isSome ∧ row.status ≠ .running then .idle else .claiming x r row.domainId _)
    split
    · exact .idle
    · exact follows_runDiscovery (hσ.loadDomain domain) hx

/-- A worker keeps to the discipline from the message it has taken. -/
theorem follows_runDiscoveryScan (cfg : Settings) (m : Message) :
    Follows (fun a _ v ↦ v.Ends (.ok a)) (fun e _ v ↦ v.Ends (.error e)) (runDiscoveryScan cfg m)
      new (.taken m.scan m.retries) := by
  have hend : ∀ {a : Except Exn Response} {v : Phase}, (∀ y st, a ≠ .ok (.trigger y st)) →
      v.Closes → v.Allowed .close ∧ v.closed.Ends a := by
    intro a v ha hv
    rw [hv.closed]
    exact ⟨.close hv, .idle ha⟩
  rw [runDiscoveryScan, follows_bind, processScan, follows_tryFinally_close]
  exact follows_processScanBody.mono (fun _ _ _ ↦ hend nofun) fun _ _ _ ↦ hend nofun

end Py

end AssetDiscovery
