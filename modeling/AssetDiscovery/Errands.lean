import AssetDiscovery.Conduct
import AssetDiscovery.Conformance.Worker

/-!
# What a worker may still publish

A worker publishes at most one message. It may be a retry, of which a message has only
`scan_max_retries`, or the next scan of its domain, which was PENDING when the worker looked for it;
and the worker looks for one only when its own scan is not PENDING any more. `Errand` keeps track of
how far a worker is with this, and `Errand.discipline` says what it does in each stage: from the
status commit on it also makes no scan PENDING.

That a run of `run_discovery_scan` keeps to it is proved function by function. The stages before the
status commit are few operations; what comes after it is a conduct, except for the publishes.
-/

set_option autoImplicit false

namespace AssetDiscovery

open Effect

/-- The statement leaves no scan PENDING that was not. -/
def Write.Harmless : Write → Prop
  | .insertScan _ _ st _ => st ≠ .pending
  | .updateScan _ p => p.status ≠ some .pending
  | .insertDomain .. | .insertAsset .. | .updateDomain .. | .deleteDomain _ => True

/-- How far a worker is with what it may publish. -/
inductive Errand where
  /-- It has not found its scan past PENDING, nor set its status. -/
  | fresh (x : Id) (retries : ℕ)
  /-- It has done so, and may retry the scan or look for the next one. -/
  | claimed (x : Id) (retries : ℕ)
  /-- It has found `y` to be the next scan. -/
  | holding (y : Id)
  /-- It publishes nothing any more. -/
  | done
  deriving DecidableEq, Repr

namespace Errand

/-- It has left the first stage and may still publish. -/
def Active : Errand → Prop
  | claimed _ _ => True
  | holding _ => True
  | _ => False

/-- After reading the row of a scan. -/
def sawScan : Errand → Id → Option Scan → Errand
  | fresh x r, y, some row => if y = x ∧ row.status ≠ .pending then claimed x r else fresh x r
  | v, _, _ => v

/-- After looking for the next scan. -/
def found : Errand → Option Id → Errand
  | claimed _ _, some y => holding y
  | holding _, some y => holding y
  | v, _ => v

/-- After a commit that succeeds. -/
def committed : Errand → Errand
  | fresh x r => claimed x r
  | v => v

/-- After a publish, which may have failed. -/
def published : Errand → Bool → Errand
  | holding y, false => holding y
  | _, _ => done

/-- The stage after an operation and its answer. -/
def observe (v : Errand) : (o : Op) → o.Res → Errand
  | .query (.scan y), .ok row => v.sawScan y row
  | .query (.nextPending _), .ok next => v.found next
  | .commit _ _, .ok _ => v.committed
  | .publish _, r => v.published r.toBool
  | _, _ => v

/-- The operations of a worker in each stage. -/
inductive Allowed (maxRetries : ℕ) : Errand → Op → Prop
  | plain {v o} (hv : v.Active) (ho : o.Plain Write.Harmless) : Allowed maxRetries v o
  | read {x r q} (hq : ∀ d, q ≠ .nextPending d) : Allowed maxRetries (fresh x r) (.query q)
  | now {v} : Allowed maxRetries v .now
  | lookup {v name type} : Allowed maxRetries v (.lookup name type)
  | start {x r site p st} (hp : p.status = some st) (hst : st ≠ .pending) :
    Allowed maxRetries (fresh x r) (.commit site [.updateScan x p])
  | next {v d} (hv : v.Active) : Allowed maxRetries v (.query (.nextPending d))
  | retry {x r} (h : r < maxRetries) : Allowed maxRetries (claimed x r) (.publish ⟨x, r + 1⟩)
  | hand {y} : Allowed maxRetries (holding y) (.publish ⟨y, 0⟩)
  | close {v} : Allowed maxRetries v .close

/-- The discipline of the workers, under a limit for the retries. -/
def discipline (maxRetries : ℕ) : Discipline Op Op.Res Errand where
  Allowed := Allowed maxRetries
  Possible := Phase.Possible
  observe := observe

/-- The part of it that is a conduct. -/
def conduct (maxRetries : ℕ) : Conduct Errand where
  discipline := discipline maxRetries
  At := Active
  write := Write.Harmless
  plain := by
    intro v o hv ho
    refine ⟨.plain hv ho, fun r ↦ ?_⟩
    cases v with
    | fresh | done => exact absurd hv id
    | claimed | holding =>
      cases o with
      | query q =>
        cases q with
        | nextPending d => exact absurd ho id
        | scan y => rcases r with err | row <;> rfl
        | _ => rfl
      | publish m => exact absurd ho id
      | commit => rcases r with err | row <;> rfl
      | _ => rfl

theorem harmless_updateScan {p : ScanPatch} {st : ScanStatus} (hp : p.status = some st)
    (hst : st ≠ .pending) (x : Id) : (Write.updateScan x p).Harmless := by
  show p.status ≠ some .pending
  rw [hp]
  exact fun h ↦ hst (Option.some.inj h)

theorem harmless_diff {p : ScanPatch} {st : ScanStatus} (hp : p.status = some st)
    (hst : st ≠ .pending) (x : Id) (row : Scan) : (Write.updateScan x (p.diff row)).Harmless :=
  ScanPatch.diff_status_ne (harmless_updateScan hp hst x) row

/-! ### After the status commit -/

open Py Conduct

variable {n : ℕ} {σ : Session}

/-- `_enqueue_next_pending_for_domain`. -/
theorem ends_enqueueNext (d : Id) :
    (conduct n).Ends (fun _ ↦ True) (enqueueNextPendingForDomain d) := by
  intro σ v hv hσ
  unfold enqueueNextPendingForDomain
  rw [adheres_bind]
  unfold Adheres select
  split
  · exact ⟨hσ, hv, fun h ↦ absurd h id⟩
  · refine ⟨.next hv, fun r _ ↦ ?_⟩
    rcases r with err | - | y
    · exact ⟨hσ, by cases v <;> exact hv, fun h ↦ absurd h id⟩
    · exact trivial
    · have hfound : v.found (some y) = holding y := by
        cases v with
        | fresh | done => exact absurd hv id
        | claimed | holding => rfl
      show Adheres (discipline n) _ _ (enqueueScan y) σ (v.found (some y))
      rw [hfound]
      refine ⟨.hand, fun r _ ↦ ?_⟩
      rcases r with text | -
      · exact ⟨hσ, trivial, fun h ↦ absurd h id⟩
      · exact trivial

/-- What follows the last status commit of the scan. -/
theorem ends_settleDomain (x : Id) (st : DomainStatus) :
    (conduct n).Ends (fun _ ↦ True) (settleDomain x st) := by
  have hnext : (conduct n).Ends (fun _ ↦ True) (do
      let scan ← readScan x
      enqueueNextPendingForDomain scan.domainId) :=
    .bind (keeps_readScan x) fun scan ↦ ends_enqueueNext scan.domainId
  refine .bind (keeps_readScan x) fun scan ↦ .bindOption (keeps_getDomain _) hnext fun domain ↦ ?_
  exact .bind (keeps_setDomainStatus trivial) fun _ ↦ hnext

theorem keeps_markScan {site : Site} {x : Id} {patch : Time → ScanPatch} {st : ScanStatus}
    (hp : ∀ t, (patch t).status = some st) (hst : st ≠ .pending) :
    (conduct n).Keeps (ScanRepo.markScan site x patch) :=
  Conduct.keeps_markScan (fun t ↦ harmless_updateScan (hp t) hst x)
    fun t row ↦ harmless_diff (hp t) hst x row

/-- `_fail_scan`. -/
theorem ends_failScan (x : Id) (message : String) :
    (conduct n).Ends (fun _ ↦ True) (failScan x message) :=
  .bind (keeps_markScan (fun _ ↦ rfl) (by decide)) fun _ ↦ ends_settleDomain x .failed

/-- The body of the inner `try`. -/
theorem ends_discover (x d : Id) : (conduct n).Ends (fun _ ↦ True) (discover x d) := by
  have hlookup : ∀ name type, (conduct n).Passes (.lookup name type) :=
    fun _ _ _ _ ↦ ⟨.lookup, fun _ ↦ rfl⟩
  refine .bind (keeps_readDomain d) fun domain ↦
    .bind (keeps_resolveTypes (hlookup _) _ _) fun records ↦ ?_
  refine .bind (keeps_readScan x) fun scan ↦
    .bind (keeps_createAssets (fun _ _ _ ↦ trivial) records) fun _ ↦ ?_
  exact .bind (keeps_markScan (fun _ ↦ rfl) (by decide)) fun _ ↦ ends_settleDomain x .completed

/-- Nothing is asked of how the code ends. -/
abbrev Runs (n : ℕ) {α : Type} (m : Py α) (σ : Session) (v : Errand) : Prop :=
  Adheres (discipline n) (fun _ _ _ ↦ True) (fun _ _ _ ↦ True) m σ v

/-- Code that has come to its end. -/
theorem runs_end {α : Type} (q : Except Exn α × Session) (v : Errand) :
    (Program.pure q).Follows (discipline n) (settled (fun _ _ _ ↦ True) fun _ _ _ ↦ True) v := by
  rcases q with ⟨e | a, σ⟩ <;> trivial

theorem Runs.of_ends {α : Type} {F : Errand → Prop} {m : Py α} (h : (conduct n).Ends F m)
    {v : Errand} (hv : v.Active) (hσ : (conduct n).Holds σ) : Runs n m σ v :=
  (h σ v hv hσ).mono (fun _ _ _ _ ↦ trivial) fun _ _ _ _ ↦ trivial

theorem Runs.bind {α β : Type} {m : Py α} {f : α → Py β} {v : Errand} (hm : (conduct n).Keeps m)
    (hv : v.Active) (hσ : (conduct n).Holds σ)
    (hf : ∀ a σ', (conduct n).Holds σ' → Runs n (f a) σ' v) : Runs n (m >>= f) σ v := by
  refine adheres_bind.2 ((hm σ v hv hσ).mono ?_ fun _ _ _ _ ↦ trivial)
  rintro a σ' v' ⟨hσ', rfl⟩
  exact hf a σ' hσ'

/-- The handlers of the inner `try`: a retry is only published after a lookup that has failed, when
the worker has not looked for the next scan. -/
theorem runs_handleDiscoveryError {cfg : Settings} {x r : Id} {e : Exn} {v : Errand}
    (hv : v.Active) (hσ : (conduct cfg.scanMaxRetries).Holds σ)
    (hretry : e.IsRetryable → v = claimed x r) :
    Runs cfg.scanMaxRetries (handleDiscoveryError cfg x (some r) e) σ v := by
  have hfail : (conduct cfg.scanMaxRetries).Ends (fun _ ↦ True) (do
      let _ ← readScan x
      failScan x e.message) := .bind (keeps_readScan x) fun _ ↦ ends_failScan x _
  unfold handleDiscoveryError
  split
  · next he =>
    obtain rfl := hretry he
    refine Runs.bind (keeps_readScan x) hv hσ fun row σ' hσ' ↦ ?_
    show Runs _ (if r < cfg.scanMaxRetries then taskRetry x r else _) _ _
    split
    · next hr =>
      refine ⟨.retry hr, fun answer _ ↦ ?_⟩
      rcases answer with text | - <;> trivial
    · exact Runs.of_ends hfail hv hσ'
  · exact Runs.of_ends hfail hv hσ

/-- `_process_scan` after `mark_scan_running`. -/
theorem runs_afterClaim {cfg : Settings} {x r d : Id}
    (hσ : (conduct cfg.scanMaxRetries).Holds σ) :
    Runs cfg.scanMaxRetries (do
      let _ ← ScanRepo.setDomainStatus d .running
      let _ ← readScan x
      tryExcept (discover x d) (handleDiscoveryError cfg x (some r))) σ (claimed x r) := by
  have hv : (claimed x r).Active := trivial
  refine Runs.bind (keeps_setDomainStatus trivial) hv hσ fun _ σ₁ hσ₁ ↦
    Runs.bind (keeps_readScan x) hv hσ₁ fun _ σ₂ hσ₂ ↦ adheres_tryExcept.2 ?_
  refine (ends_discover x d σ₂ (claimed x r) hv hσ₂).mono (fun _ _ _ _ ↦ trivial) ?_
  exact fun e σ' v' h ↦ runs_handleDiscoveryError h.2.1 h.1 h.2.2

/-! ### Up to the status commit -/

/-- Looking up a row before the status commit. -/
theorem adheres_select_fresh {α : Type} {q : Query} {x r : Id} {m : q.Row → Py α}
    {P : α → Session → Errand → Prop} (hq : ∀ d, q ≠ .nextPending d)
    (hm : ∀ row, Phase.Possible (.query q) (.ok row) →
      Adheres (discipline n) P (fun _ _ _ ↦ True) (m row) σ
        (observe (fresh x r) (.query q) (.ok row))) :
    Adheres (discipline n) P (fun _ _ _ ↦ True) (select q >>= m) σ (fresh x r) := by
  rw [adheres_bind]
  unfold Adheres select
  split
  · trivial
  · refine ⟨.read hq, fun answer hanswer ↦ ?_⟩
    rcases answer with err | row
    · trivial
    · exact hm row hanswer

/-- `mark_scan_*` of a scan that is loaded as PENDING: the commit changes its status. -/
theorem runs_bind_markScan {α : Type} {site : Site} {x r : Id} {patch : Time → ScanPatch}
    {st : ScanStatus} {m : Scan → Py α} {row : Scan} (hp : ∀ t, (patch t).status = some st)
    (hst : st ≠ .pending) (hσ : σ.Clean) (hx : σ.scans x = some row) (hrow : row.status = .pending)
    (hm : ∀ row σ', (conduct n).Holds σ' → Runs n (m row) σ' (claimed x r)) :
    Runs n (ScanRepo.markScan site x patch >>= m) σ (fresh x r) := by
  rw [Runs, adheres_bind, ScanRepo.markScan, adheres_bind]
  refine ⟨.now, fun t _ ↦ ?_⟩
  show Adheres _ _ _ (assignScan x (patch t) >>= _) σ (fresh x r)
  rw [assignScan, adheres_bind]
  show Adheres _ _ _ (commit site >>= _) (σ.assignScan x (patch t)) (fresh x r)
  rw [adheres_bind]
  obtain ⟨p, hwork, hstatus⟩ : ∃ p, (σ.assignScan x (patch t)).work = [.updateScan x p] ∧
      p.status = some st := by
    have hchange : σ.statusChange x st = _ := Session.statusChange_loaded hx
    rw [hrow, Phase.change_of_ne hst.symm] at hchange
    rcases hσ.setsScan_assignScan (hp t) with ⟨-, hnone⟩ | ⟨p, hwork, hstatus⟩
    · rw [hchange] at hnone
      exact absurd hnone (by simp)
    · exact ⟨p, hwork, hstatus.trans hchange⟩
  unfold Adheres commit
  rw [Session.assignScan_failed, hσ.failed, if_neg (by decide), Session.assignScan_flushed,
    hσ.flushed, hwork]
  refine ⟨.start hstatus hst, fun answer _ ↦ ?_⟩
  rcases answer with err | -
  · trivial
  · have hv : (claimed x r).Active := trivial
    exact adheres_bind.1 (Runs.bind (keeps_refreshScan x) hv holds_expire hm)

/-- `_process_scan` after it has read an active scan. -/
def processActive (cfg : Settings) (x r : Id) (scan : Scan) : Py Unit := do
  match ← DomainRepo.getDomainById scan.domainId with
  | none => do
    let _ ← ScanRepo.markScanFailed x "Domain no longer exists"
  | some domain => do
    let running ← ScanRepo.domainHasRunningScan domain.id
    if running ∧ scan.status ≠ .running then return ()
    else runDiscovery cfg x domain.id (some r)

/-- A scan that is RUNNING already: the publishes of the rest are all that matters. -/
theorem runs_processActive_claimed {cfg : Settings} {x r : Id} {row : Scan}
    (hσ : (conduct cfg.scanMaxRetries).Holds σ) :
    Runs cfg.scanMaxRetries (processActive cfg x r row) σ (claimed x r) := by
  have hv : (claimed x r).Active := trivial
  refine Runs.bind (keeps_getDomain _) hv hσ fun found σ₁ hσ₁ ↦ ?_
  rcases found with - | domain
  · exact Runs.bind (keeps_markScan (fun _ ↦ rfl) (by decide)) hv hσ₁ fun _ _ _ ↦ trivial
  · refine Runs.bind ((keeps_select (q := .runningScan domain.id) trivial).bind fun _ ↦
      keeps_pure _) hv hσ₁ fun running σ₂ hσ₂ ↦ ?_
    split
    · trivial
    · exact Runs.bind (keeps_markScan (fun _ ↦ rfl) (by decide)) hv hσ₂ fun _ _ ↦ runs_afterClaim

/-- A scan that is PENDING: every way on passes through a commit that changes its status. -/
theorem runs_processActive_fresh {cfg : Settings} {x r : Id} {row : Scan} (hid : row.id = x)
    (hrow : row.status = .pending) :
    Runs cfg.scanMaxRetries (processActive cfg x r row) (Session.new.loadScan row) (fresh x r) := by
  have hx : (Session.new.loadScan row).scans x = some row := hid ▸ Session.loadScan_scans_self row
  have hσ := Session.clean_new.loadScan row
  refine adheres_bind.2 (adheres_select_fresh (q := .domain row.domainId) nofun
    fun found _ ↦ ?_)
  rcases found with - | domain
  · refine runs_bind_markScan (fun _ ↦ rfl) (by decide) hσ hx hrow fun _ _ _ ↦ trivial
  · have hguard : Runs cfg.scanMaxRetries (do
        let running ← ScanRepo.domainHasRunningScan domain.id
        if running ∧ row.status ≠ .running then return ()
        else runDiscovery cfg x domain.id (some r))
        ((Session.new.loadScan row).loadDomain domain) (fresh x r) := by
      refine adheres_bind.2 (adheres_select_fresh (q := .runningScan domain.id) nofun
        fun found _ ↦ ?_)
      show Runs _ (if found.isSome ∧ row.status ≠ .running then pure () else _) _ (fresh x r)
      split
      · trivial
      · exact runs_bind_markScan (fun _ ↦ rfl) (by decide) (hσ.loadDomain domain) hx hrow
          fun _ _ hσ' ↦ runs_afterClaim hσ'
    exact hguard

/-- A worker keeps to its errand: it publishes at most one retry of its own message, within the
limit, or the next scan that it has found PENDING, the latter only when its own scan is not PENDING
any more; and it makes no scan PENDING. -/
theorem runs_runDiscoveryScan (cfg : Settings) (m : Message) :
    Runs cfg.scanMaxRetries (runDiscoveryScan cfg m) .new (fresh m.scan m.retries) := by
  obtain ⟨x, r⟩ := m
  have hbody : Runs cfg.scanMaxRetries (processScanBody cfg x (some r)) .new (fresh x r) := by
    refine adheres_bind.2 (adheres_select_fresh (q := .scan x) nofun fun found hfound ↦ ?_)
    rcases found with - | row
    · trivial
    · have hid : row.id = x := hfound
      show Runs _ (if ¬ row.status.IsActive then pure () else processActive cfg x r row)
        (Session.new.loadScan row)
        (if x = x ∧ row.status ≠ .pending then claimed x r else fresh x r)
      split
      · exact runs_end (.ok (), _) _
      · split
        · exact runs_processActive_claimed holds_new
        · next hst => exact runs_processActive_fresh hid (by simpa using hst)
  have hclosed : Runs cfg.scanMaxRetries (processScan cfg x (some r)) .new (fresh x r) :=
    Program.follows_bind.2 (Program.Follows.mono hbody fun q v _ ↦ ⟨.close, fun _ _ ↦ runs_end _ _⟩)
  exact adheres_bind.2 (hclosed.mono (fun _ _ _ _ ↦ trivial) fun _ _ _ _ ↦ trivial)

/-- A worker that is started for a message. -/
theorem follows_start (cfg : Settings) (m : Message) :
    (Py.start (runDiscoveryScan cfg m)).Follows (discipline cfg.scanMaxRetries) (fun _ _ ↦ True)
      (fresh m.scan m.retries) :=
  Program.follows_bind.2 (Program.Follows.mono (runs_runDiscoveryScan cfg m) fun _ _ _ ↦ trivial)

end Errand

end AssetDiscovery
