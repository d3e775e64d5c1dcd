import AssetDiscovery.Conformance.Worker

/-!
# Requests and the recovery keep to the discipline
-/

namespace AssetDiscovery

open Effect

namespace Py

open Session

variable {α : Type} {E : Exn → Session → Phase → Prop} {σ : Session} {v : Phase}

/-- `enqueue_scan` in a phase that may publish the scan. -/
theorem follows_enqueueScan {P : Unit → Session → Phase → Prop} {x : Id}
    (hpub : v.Publishes ⟨x, 0⟩) (hP : P () σ (v.published true))
    (hE : ∀ text, E (.broker text) σ (v.published false)) :
    Follows P E (enqueueScan x) σ v := by
  rw [enqueueScan, publish, follows_bind, follows_call]
  refine ⟨.publish hpub, fun r _ ↦ ?_⟩
  rcases r with text | -
  · exact hE text
  · exact hP

/-! ### `recover_pending_jobs` -/

/-- The loop over the RUNNING scans only collects the `UPDATE` of each. -/
theorem follows_resetLoop {P : Unit → Session → Phase → Prop} (rows : List Scan)
    (hrows : ∀ row ∈ rows, row.status = .running)
    (hP : ∀ σ', σ'.failed = false → σ'.flushed = [] →
      List.Forall₂ (fun x w ↦ ∃ p : ScanPatch, w = .updateScan x p ∧ p.status = some .pending)
        (rows.map Scan.id) σ'.work → P () σ' v) :
    Follows P E (rows.forM fun row ↦ do
      modify (·.loadScan row)
      assignScan row.id ScanRepo.interruptedPatch) new v := by
  -- invariant of the loop: one `UPDATE` collected for each row that is done, nothing flushed
  refine (follows_forM (fun rest σ v' ↦ v' = v ∧ σ.failed = false ∧ σ.flushed = [] ∧
    ∃ done, rows = done ++ rest ∧ List.Forall₂ (fun x w ↦ ∃ p : ScanPatch,
      w = .updateScan x p ∧ p.status = some .pending) (done.map Scan.id) σ.work)
    ?_ rows ⟨rfl, rfl, rfl, [], rfl, .nil⟩).mono ?_ fun _ _ _ h ↦ h
  · rintro row rest σ v' ⟨rfl, hfailed, hflushed, done, hdone, hwork⟩
    have hrow : row.status = .running := hrows row (by rw [hdone]; simp)
    have hdiff : (ScanRepo.interruptedPatch.diff row).status = some .pending := by
      simp [ScanPatch.diff, ScanRepo.interruptedPatch, hrow]
    have hne : ScanRepo.interruptedPatch.diff row ≠ {} := by
      intro h
      rw [h] at hdiff
      cases hdiff
    rw [follows_bind, follows_modify, assignScan, follows_modify, Session.assignScan,
      loadScan_scans_self]
    simp only [if_neg hne]
    refine ⟨trivial, hfailed, hflushed, done ++ [row], by simp [hdone], ?_⟩
    rw [List.map_append]
    exact List.rel_append hwork (.cons ⟨_, rfl, hdiff⟩ .nil)
  · rintro - σ v' ⟨rfl, hfailed, hflushed, done, hdone, hwork⟩
    rw [List.append_nil] at hdone
    subst hdone
    exact hP σ hfailed hflushed hwork

/-- `recover_pending_jobs` before its session is closed. -/
theorem follows_recoverPendingJobs :
    Follows (fun _ _ v ↦ v = .idle) (fun _ _ v ↦ v = .idle) recoverPendingJobs new .recovering := by
  rw [recoverPendingJobs, follows_tryFinally_close, follows_bind]
  -- the second half: read the ids to publish, and publish them one after the other
  have hrest : Follows (fun _ _ v ↦ v.Allowed .close ∧ v.closed = .idle)
      (fun _ _ v ↦ v.Allowed .close ∧ v.closed = .idle)
      (do let pendingIds ← ScanRepo.listRecoverableScanIds; pendingIds.forM enqueueScan) new
      .listing := by
    rw [follows_bind, ScanRepo.listRecoverableScanIds]
    refine (follows_select (q := .recoverableIds)).2 ?_
    rw [if_neg (by decide)]
    refine ⟨.query .listing, fun xs _ ↦ ?_, fun _ ↦ ⟨.close .idle, rfl⟩⟩
    refine (follows_forM (fun xs _ v ↦ v = .republishing xs) ?_ xs rfl).mono
      (fun _ _ v h ↦ ?_) fun _ _ _ h ↦ h
    · rintro x xs σ v rfl
      exact follows_enqueueScan .republishing rfl fun _ ↦ ⟨.close .idle, rfl⟩
    · rw [h]
      exact ⟨.close .republishing, rfl⟩
  rw [ScanRepo.resetInterruptedScans, follows_bind, follows_select, if_neg (by decide)]
  refine ⟨.query .recovering, fun rows hrows ↦ ?_, fun _ ↦ ⟨.close .idle, rfl⟩⟩
  cases rows with
  -- nothing was interrupted, and no commit is made
  | nil => exact hrest
  | cons row rows =>
    rw [follows_bind]
    refine follows_resetLoop (row :: rows) hrows fun σ hfailed hflushed hwork ↦ ?_
    show Follows _ _ (commit _ >>= fun _ ↦ pure ((row :: rows).map Scan.id)) σ
      (.resetting ((row :: rows).map Scan.id))
    rw [follows_bind, follows_commit, hfailed, if_neg (by decide), expire_eq_of_failed hfailed]
    refine ⟨.commit (.reset ?_), hrest, fun _ ↦ ⟨.close .idle, rfl⟩⟩
    rw [hflushed, List.nil_append]
    exact hwork

/-! ### Domains -/

/-- `delete_domain`. -/
theorem follows_deleteDomain {d : Id} :
    Follows (fun a _ v ↦ a = .done ∧ v = .idle) (fun _ _ v ↦ v = .idle)
      (tryFinally (DomainService.deleteDomain d) close) new (.deleting d) := by
  rw [follows_tryFinally_close, DomainService.deleteDomain, follows_bind,
    DomainRepo.getDomainById, follows_getDomain_expired rfl, follows_fetchDomain rfl]
  have hidle : Phase.idle.Allowed .close ∧ Phase.idle.closed = .idle := ⟨.close .idle, rfl⟩
  refine ⟨.query .deletingDomain, hidle, fun domain _ ↦ ?_, fun _ ↦ hidle⟩
  rw [follows_bind, DomainRepo.deleteDomain, follows_bind]
  refine (follows_select (q := .scansOf d)).2 ?_
  rw [if_neg (by exact Bool.false_ne_true)]
  refine ⟨.query .deletingScans, fun scans _ ↦ ?_, fun _ ↦ hidle⟩
  rw [follows_bind]
  refine (follows_forM (fun _ σ v ↦ σ = new.loadDomain domain ∧ v = .deleting d) ?_ scans
    ⟨rfl, rfl⟩).mono (fun _ σ v h ↦ ?_) fun _ _ _ h ↦ h
  · rintro scan scans σ v ⟨rfl, rfl⟩
    rw [follows_bind]
    refine (follows_select (q := .assetsOf scan.id)).2 ?_
    rw [if_neg (by exact Bool.false_ne_true)]
    exact ⟨.query .deletingAssets, fun _ _ ↦ ⟨rfl, rfl⟩, fun _ ↦ hidle⟩
  · obtain ⟨rfl, rfl⟩ := h
    rw [add, follows_bind, follows_modify, follows_commit, if_neg (by exact Bool.false_ne_true)]
    exact ⟨.commit .deleteDomain, ⟨.close .idle, rfl, rfl⟩, fun _ ↦ hidle⟩

/-! ### Requests that publish a scan -/

/-- What a request may leave when it raises something that is not an HTTP error. -/
def Broken (e : Exn) (_ : Session) (v : Phase) : Prop :=
  (∀ code detail, e ≠ .http code detail) ∧ ((∃ d x, v = .announced d x) ∨ v.Closes)

/-- A request that raises closes its session and has ended as it may. -/
theorem Broken.ends {e : Exn} (h : Broken e σ v) : v.Allowed .close ∧ v.closed.Ends (.error e) := by
  obtain ⟨he, ⟨d, x, rfl⟩ | hv⟩ := h
  · refine ⟨.closeAnnounced, .announced (by simp) fun code detail h ↦ ?_⟩
    exact he code detail (Except.error.inj h)
  · rw [hv.closed]
    exact ⟨.close hv, .idle_error⟩

/-- An error that is no HTTP error may leave any request. -/
theorem broken_idle {e : Exn} (he : ∀ code detail, e ≠ .http code detail) : Broken e σ .idle :=
  ⟨he, Or.inr .idle⟩

/-- So may one after the publish of a new scan. -/
theorem broken_announced {e : Exn} {d x : Id} (he : ∀ code detail, e ≠ .http code detail) :
    Broken e σ (.announced d x) :=
  ⟨he, Or.inl ⟨d, x, rfl⟩⟩

/-- `trigger_manual_scan`. -/
theorem follows_triggerManualScan {d user : Id} :
    Follows (fun a _ v ↦ v.Ends (.ok a)) (fun e _ v ↦ v.Ends (.error e))
      (tryFinally (ScanService.triggerManualScan d user) close) new (.triggering d) := by
  -- an error before the scan is committed leaves nothing behind that others depend on
  have hrefused : ∀ e : Exn, (Phase.refused d).Allowed .close ∧
      (Phase.refused d).closed.Ends (.error e) := fun e ↦ ⟨.close .refused, .idle_error⟩
  have hidle : ∀ e : Exn, Phase.idle.Allowed .close ∧ Phase.idle.closed.Ends (.error e) :=
    fun e ↦ ⟨.close .idle, .idle_error⟩
  rw [follows_tryFinally_close, ScanService.triggerManualScan, follows_bind,
    DomainRepo.getDomainByIdForUpdate, follows_bind]
  refine (follows_select (q := .domainForUpdate d)).2 ?_
  rw [if_neg (by decide)]
  refine ⟨.query .triggering, fun found hfound ↦ ?_, fun err ↦ hidle _⟩
  cases found with
  | none => exact hidle _
  | some domain =>
    have hid : domain.id = d := hfound
    show Follows _ _ _ (new.loadDomain domain) (.locked d)
    rw [follows_bind, ScanRepo.domainHasActiveScan, follows_bind, follows_select,
      if_neg (by exact Bool.false_ne_true)]
    refine ⟨.query .locked, fun active _ ↦ ?_, fun err ↦ hrefused _⟩
    cases active with
    -- the active scan found: roll back, and answer 409
    | some y =>
      show Follows _ _ (rollback >>= fun _ ↦ raise _) _ (.refused d)
      rw [follows_bind, follows_rollback]
      exact ⟨.rollback, hidle _⟩
    | none =>
      show Follows _ _ (ScanRepo.createScanUncommitted d (some user) >>= _) _ (.cleared d)
      rw [follows_bind, ScanRepo.createScanUncommitted, follows_bind, follows_call]
      refine ⟨.uuid4, fun x _ ↦ ?_⟩
      rw [add, follows_bind, follows_modify, follows_bind, follows_flush,
        if_neg (by exact Bool.false_ne_true)]
      refine ⟨.flush, ?_, fun err ↦ hrefused _⟩
      have hdomain := loadDomain_domains_self (σ := new) domain
      rw [hid] at hdomain
      rw [follows_pure, follows_bind]
      refine (follows_readDomain_loaded (by exact hdomain)).2 ?_
      rw [follows_bind]
      -- after the commit: the scan is read back and published
      have hsend : Follows (fun a _ v ↦ v.Allowed .close ∧ v.closed.Ends (.ok a))
          (fun e _ v ↦ v.Allowed .close ∧ v.closed.Ends (.error e))
          (do
            let row ← refreshScan x
            enqueueScan row.id
            return .trigger row.id row.status) new (.announcing d x) := by
        rw [follows_bind, follows_refreshScan rfl]
        have hbroken : ∀ {e : Exn}, (∀ code detail, e ≠ .http code detail) →
            (Phase.announced d x).Allowed .close ∧ (Phase.announced d x).closed.Ends (.error e) :=
          fun he ↦ (broken_announced (σ := new) he).ends
        refine ⟨.query .announcingScan, hbroken (by simp), fun row hrow ↦ ?_,
          fun err ↦ hbroken (by simp)⟩
        rw [follows_bind, hrow]
        refine follows_enqueueScan .announcing ?_ fun text ↦ hbroken (by simp)
        exact ⟨.closeAnnounced, .accepted⟩
      -- the commit writes the scan, and PENDING for the domain unless it is RUNNING or PENDING
      -- already
      have hcommit : ∀ σ : Session, σ.failed = false →
          σ.flushed = [.insertScan x d .pending (some user)] →
          (σ.work = [] ∨ σ.work = [.updateDomain d .pending]) →
          Follows (fun a _ v ↦ v.Allowed .close ∧ v.closed.Ends (.ok a))
            (fun e _ v ↦ v.Allowed .close ∧ v.closed.Ends (.error e))
            (do
              commit (.triggerManualScan d x)
              let row ← refreshScan x
              enqueueScan row.id
              return .trigger row.id row.status) σ (.cleared d) := by
        intro σ hfailed hflushed hwork
        rw [follows_bind, follows_commit, hfailed, if_neg (by decide),
          expire_eq_of_failed hfailed, hflushed]
        exact ⟨.commit (.triggerManualScan hwork), hsend, fun err ↦ hrefused _⟩
      split
      · rw [assignDomain, follows_modify]
        refine hcommit _ ?_ ?_ ?_
        · rw [assignDomain_failed]
          rfl
        · rw [assignDomain_flushed]
          rfl
        · exact assignDomain_work rfl d .pending
      · exact hcommit _ rfl rfl (Or.inl rfl)

/-- `enqueue_initial_scan`, which ends past its publish or without its domain. -/
theorem follows_enqueueInitialScan {d user : Id} (hσ : σ.Clean) :
    Follows (fun _ σ v ↦ σ.failed = false ∧ ∃ x, v = .announced d x ∨ v = .lost x d)
      Broken (ScanService.enqueueInitialScan d (some user)) σ (.created d) := by
  rw [ScanService.enqueueInitialScan, follows_bind, ScanRepo.createScan, follows_bind,
    follows_call]
  refine ⟨.uuid4, fun x _ ↦ ?_⟩
  -- the publish at the end, which the three branches share
  have hsend : ∀ {σ : Session} {row : Scan}, row.id = x → σ.failed = false →
      Follows (fun _ σ v ↦ σ.failed = false ∧ ∃ x, v = .announced d x ∨ v = .lost x d)
        Broken (enqueueScan row.id) σ (.announcing d x) := by
    intro σ row hrow hfailed
    rw [hrow]
    exact follows_enqueueScan .announcing ⟨hfailed, x, Or.inl rfl⟩
      fun _ ↦ broken_announced (by simp)
  rw [add, follows_bind, follows_modify, follows_bind]
  refine follows_commit.2 ?_
  have hadd : (σ.addWork (.insertScan x d .pending (some user))).failed = false := hσ.failed
  rw [hadd, if_neg (by decide), expire_eq_of_failed hadd]
  refine ⟨.commit ?_, ?_, fun err ↦ broken_idle (by simp)⟩
  · show Phase.Commits _ _ (σ.flushed ++ (σ.work ++ _))
    rw [hσ.flushed, hσ.work]
    exact .createScan
  · show Follows _ _ (refreshScan x >>= fun _ ↦ pure x) new (.announcing d x)
    rw [follows_bind, follows_refreshScan rfl]
    refine ⟨.query .announcingScan, broken_announced (by simp), fun row hrow ↦ ?_,
      fun err ↦ broken_announced (by simp)⟩
    have hx := loadScan_scans_self (σ := new) row
    rw [hrow] at hx
    rw [follows_pure, follows_bind, DomainRepo.getDomainById, follows_getDomain_expired rfl,
      follows_fetchDomain rfl]
    refine ⟨.query .announcingDomain, ?_, fun domain _ ↦ ?_, fun err ↦ broken_announced (by simp)⟩
    · show Follows _ _ (readScan x >>= _) _ (.lost x d)
      rw [follows_bind, follows_readScan_loaded hx]
      exact follows_enqueueScan .lost ⟨rfl, x, Or.inr rfl⟩ fun _ ↦ ⟨(by simp), Or.inr .lost⟩
    · show Follows _ _ (if domain.status ≠ .running then _ else _) _ (.announcing d x)
      split
      · rw [follows_bind]
        refine follows_setDomainStatus ((clean_new.loadScan row).loadDomain domain)
          (fun _ ↦ .announcing) .announcingDomain (fun domain' _ ↦ ?_) ⟨(by simp), Or.inr .lost⟩
          (fun _ _ _ ↦ broken_announced (by simp)) fun _ _ _ ↦ broken_announced (by simp)
        rw [follows_bind, follows_readScan_expired rfl rfl]
        exact ⟨.query .announcingScan, broken_announced (by simp), fun row' hrow' ↦ hsend hrow' rfl,
          fun err ↦ broken_announced (by simp)⟩
      · rw [follows_bind]
        refine (follows_readScan_loaded (by exact hx)).2 ?_
        exact hsend hrow rfl

/-- `create_domain`. -/
theorem follows_createDomain {u : Unicode} {payload : String} {user : Id} :
    Follows (fun a _ v ↦ v.Ends (.ok a)) (fun e _ v ↦ v.Ends (.error e))
      (tryFinally (DomainService.createDomain u payload user) close) new .creating := by
  rw [follows_tryFinally_close, DomainService.createDomain, follows_bind,
    normalizeAndValidateFqdn]
  split
  · exact ⟨.close .creating, .idle_error⟩
  rw [follows_pure, follows_bind, DomainRepo.getDomainByName]
  refine (follows_select (q := .domainByName _)).2 ?_
  rw [if_neg (by decide)]
  refine ⟨.query .creating, fun found _ ↦ ?_, fun err ↦ ⟨.close .idle, .idle_error⟩⟩
  cases found with
  -- the name is taken
  | some domain => exact ⟨.close .idle, .idle_error⟩
  | none =>
    show Follows _ _ (DomainRepo.createDomain _ user .pending >>= _) new .creating
    rw [follows_bind, DomainRepo.createDomain, follows_bind, follows_call]
    refine ⟨.uuid4, fun d _ ↦ ?_⟩
    rw [add, follows_bind, follows_modify, follows_bind]
    refine follows_commit.2 ?_
    rw [if_neg (by exact Bool.false_ne_true)]
    refine ⟨.commit .createDomain, ?_, fun err ↦ ⟨.close .idle, .idle_error⟩⟩
    show Follows _ _ (refreshDomain d) new (.created d)
    rw [follows_refreshDomain rfl]
    refine ⟨.query .created, ⟨.close .idle, .idle_error⟩, fun domain hdomain ↦ ?_,
      fun err ↦ ⟨.close .idle, .idle_error⟩⟩
    rw [follows_bind, hdomain]
    -- what `enqueue_initial_scan` leaves: its scan announced, or its domain gone
    refine (follows_enqueueInitialScan (clean_new.loadDomain domain)).mono ?_ fun _ _ _ ↦
      Broken.ends
    rintro - σ v ⟨hfailed, x, hv⟩
    rw [follows_bind, readDomain, follows_bind]
    have hend : ∀ {a : Except Exn Response}, (∀ y st, a ≠ .ok (.trigger y st)) →
        (∀ code detail, a ≠ .error (.http code detail)) → v.Allowed .close ∧ v.closed.Ends a := by
      intro a ha ha'
      rcases hv with rfl | rfl
      · exact ⟨.closeAnnounced, .announced ha ha'⟩
      · exact ⟨.close .lost, .idle ha⟩
    cases hd : σ.domains d with
    | some row =>
      rw [follows_getDomain_loaded hd]
      exact hend (by simp) (by simp)
    | none =>
      rw [follows_getDomain_expired hd, follows_fetchDomain hfailed]
      rcases hv with rfl | rfl
      · exact ⟨.query .announced, hend (by simp) (by simp), fun _ _ ↦ hend (by simp) (by simp),
          fun _ ↦ hend (by simp) (by simp)⟩
      · exact ⟨.query .lostDomain, hend (by simp) (by simp), fun _ _ ↦ hend (by simp) (by simp),
          fun _ ↦ ⟨.close .idle, .idle_error⟩⟩

end Py

/-! ### Processes -/

/-- Code that keeps to the discipline keeps to it as a process. -/
theorem Py.Follows.start {m : Py Response} {v : Phase}
    (h : Follows (fun a _ v ↦ v.Ends (.ok a)) (fun e _ v ↦ v.Ends (.error e)) m .new v) :
    (Py.start m).Follows Phase.discipline (fun a v ↦ v.Ends a) v := by
  refine Program.follows_bind.2 (Program.Follows.mono h ?_)
  rintro ⟨e | a, σ⟩ v h
  · exact h
  · exact h

/-- A request, and the start of an API process, keep to the discipline. -/
theorem Request.follows (u : Unicode) (r : Request) :
    (Py.start (r.code u)).Follows Phase.discipline (fun a v ↦ v.Ends a) r.phase := by
  refine Py.Follows.start ?_
  have hdone : ∀ {a : Except Exn Response} {v : Phase}, (∀ y st, a ≠ .ok (.trigger y st)) →
      v = .idle → v.Ends a := by
    rintro a v ha rfl
    exact .idle ha
  cases r with
  | create payload user => exact Py.follows_createDomain
  | trigger d user => exact Py.follows_triggerManualScan
  | delete d =>
    refine Py.follows_deleteDomain.mono ?_ fun _ _ _ ↦ hdone (by simp)
    rintro a _ v ⟨rfl, rfl⟩
    exact .idle (by simp)
  | recover =>
    rw [Request.code, Py.follows_bind]
    exact Py.follows_recoverPendingJobs.mono (fun _ _ _ ↦ hdone (by simp))
      fun _ _ _ ↦ hdone (by simp)

/-- A worker that has taken a message keeps to the discipline. -/
theorem Message.follows (cfg : Settings) (m : Message) :
    (Py.start (runDiscoveryScan cfg m)).Follows Phase.discipline (fun a v ↦ v.Ends a) m.phase :=
  (Py.follows_runDiscoveryScan cfg m).start

end AssetDiscovery
