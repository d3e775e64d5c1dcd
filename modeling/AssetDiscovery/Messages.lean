import AssetDiscovery.Errands
import AssetDiscovery.Library.Runs
import AssetDiscovery.Provenance
import AssetDiscovery.Termination

/-!
# What messages are about

A message for a scan is published after the scan has been stored, never before: a request publishes
the id of a scan whose row it has read, and a worker publishes that of its own scan again, or that
of a PENDING scan it has found. So a message names a scan that has been stored, and the scan is
stored still unless its domain has been deleted (`messages_stored`). A worker may always drop a
message whose scan it does not find.

What a worker publishes is said by its `Errand`. For the requests `sighted` keeps the ids of the
scans that they have read.
-/

set_option autoImplicit false

namespace AssetDiscovery

open Effect Py Runs

/-! ### Requests -/

/-- The scans that an answer shows to be stored. -/
def Op.shows : (o : Op) → o.Res → Set Id
  | .query (.scan x), .ok (some _) => {x}
  | .query .runningScans, .ok rows => {x | ∃ row ∈ rows, x = row.id}
  | .query .recoverableIds, .ok xs => {x | x ∈ xs}
  | _, _ => ∅

/-- Only scans that have been read are published, as the first attempt. -/
def sighted : Discipline Op Op.Res (Set Id) where
  Allowed seen o := ∀ m, o = .publish m → m.scan ∈ seen ∧ m.retries = 0
  Possible := Phase.Possible
  observe seen o r := seen ∪ o.shows r

namespace Sighted

variable {α β : Type} {σ : Session} {seen K : Set Id} {Q : α → Set Id} {R : β → Set Id}

/-- The scans that a session has loaded have been read. -/
def Shown (seen : Set Id) (σ : Session) : Prop :=
  ∀ x row, σ.scans x = some row → row.id = x ∧ x ∈ seen

theorem Shown.mono {seen' : Set Id} (h : Shown seen σ) (hseen : seen ⊆ seen') : Shown seen' σ :=
  fun x row hrow ↦ ⟨(h x row hrow).1, hseen (h x row hrow).2⟩

theorem Shown.loadScan (h : Shown seen σ) {row : Scan} (hrow : row.id ∈ seen) :
    Shown seen (σ.loadScan row) := by
  intro x row' hrow'
  have hload : (σ.loadScan row).scans x = if x = row.id then some row else σ.scans x := rfl
  rw [hload] at hrow'
  split at hrow'
  · next hx =>
    rw [← Option.some.inj hrow', hx]
    exact ⟨rfl, hrow⟩
  · exact h x row' hrow'

/-- When the scans of `K` have been read, the code publishes none that has not been, and when it
returns, those of its result have been read too. -/
def Tells (K : Set Id) (Q : α → Set Id) (m : Py α) : Prop :=
  ∀ σ seen, Shown seen σ → K ⊆ seen →
    Adheres sighted (fun a σ' seen' ↦ Shown seen' σ' ∧ seen ⊆ seen' ∧ Q a ⊆ seen')
      (fun _ _ _ ↦ True) m σ seen

theorem Tells.bind {m : Py α} {f : α → Py β} (hm : Tells K Q m)
    (hf : ∀ a, Tells (K ∪ Q a) R (f a)) : Tells K R (m >>= f) := by
  refine fun σ seen hσ hK ↦ adheres_bind.2 ((hm σ seen hσ hK).mono ?_ fun _ _ _ ↦ id)
  rintro a σ' seen' ⟨hσ', hseen', hQ⟩
  refine (hf a σ' seen' hσ' (Set.union_subset (hK.trans hseen') hQ)).mono ?_ fun _ _ _ ↦ id
  exact fun b σ'' seen'' h ↦ ⟨h.1, hseen'.trans h.2.1, h.2.2⟩

theorem Tells.weaken {K' : Set Id} {m : Py α} (hm : Tells K' Q m) (hK : K' ⊆ K) : Tells K Q m :=
  fun σ seen hσ h ↦ hm σ seen hσ (hK.trans h)

theorem tells_pure (a : α) (ha : Q a ⊆ K) : Tells K Q (pure a) :=
  fun _ _ hσ hK ↦ ⟨hσ, subset_rfl, ha.trans hK⟩

theorem tells_raise (e : Exn) : Tells K Q (raise e : Py α) :=
  fun _ _ _ _ ↦ trivial

theorem tells_call {o : Op} (ho : ∀ m, o ≠ .publish m) : Tells K (fun _ ↦ ∅) (call o) :=
  fun _ _ hσ _ ↦ ⟨fun m h ↦ absurd h (ho m), fun _ _ ↦
    ⟨hσ.mono Set.subset_union_left, Set.subset_union_left, Set.empty_subset _⟩⟩

/-- A query tells what its answer shows. -/
theorem tells_select {q : Query} {Q : q.Row → Set Id}
    (hQ : ∀ row, Phase.Possible (.query q) (.ok row) → Q row ⊆ Op.shows (.query q) (.ok row)) :
    Tells K Q (select q) := by
  intro σ seen hσ _
  unfold Adheres select
  split
  · trivial
  · refine ⟨fun m h ↦ absurd h (by simp), fun answer hanswer ↦ ?_⟩
    rcases answer with err | row
    · trivial
    · exact ⟨hσ.mono Set.subset_union_left, Set.subset_union_left,
        (hQ row hanswer).trans Set.subset_union_right⟩

/-- A change of the session that loads no scan. -/
theorem tells_modify {f : Session → Session} (hf : ∀ σ, (f σ).scans = σ.scans) :
    Tells K (fun _ ↦ ∅) (modify f) :=
  fun σ _ hσ _ ↦ ⟨fun x row hrow ↦ hσ x row ((congrFun (hf σ) x).symm.trans hrow), subset_rfl,
    Set.empty_subset _⟩

theorem tells_add (w : Write) : Tells K (fun _ ↦ ∅) (add w) :=
  tells_modify fun _ ↦ rfl

theorem tells_commit (site : Site) : Tells K (fun _ ↦ ∅) (commit site) := by
  intro σ seen hσ _
  unfold Adheres commit
  split
  · trivial
  · refine ⟨fun m h ↦ absurd h (by simp), fun answer _ ↦ ?_⟩
    rcases answer with err | ⟨⟨⟩⟩
    · trivial
    · exact ⟨fun x row hrow ↦ absurd hrow (by simp [Session.expire]), Set.subset_union_left,
        Set.empty_subset _⟩

/-! ### Instances -/

/-- The scans of a result, if there is one. -/
def found (result : Option Scan) : Set Id :=
  {x | ∃ row ∈ result, x = row.id}

theorem tells_loadScan {row : Scan} (hrow : row.id ∈ K) :
    Tells K (fun _ ↦ ∅) (modify (·.loadScan row)) :=
  fun _ _ hσ hK ↦ ⟨hσ.loadScan (hK hrow), subset_rfl, Set.empty_subset _⟩

theorem tells_fetchScan (x : Id) : Tells K found (fetchScan x) := by
  have hselect : Tells K found (select (.scan x)) := by
    refine tells_select (q := .scan x) fun result hresult y hy ↦ ?_
    obtain ⟨row, hrow, rfl⟩ := hy
    obtain rfl := Option.mem_def.1 hrow
    exact hresult
  refine hselect.bind fun result ↦ ?_
  rcases result with - | row
  · exact tells_pure none (by simp [found])
  · exact (tells_loadScan (Or.inr ⟨row, rfl, rfl⟩)).bind fun _ ↦
      tells_pure _ fun y hy ↦ Or.inl (Or.inr hy)

theorem tells_refreshScan (x : Id) : Tells K (fun row ↦ {row.id}) (refreshScan x) := by
  refine (tells_fetchScan x).bind fun result ↦ ?_
  rcases result with - | row
  · exact tells_raise _
  · exact tells_pure row fun y hy ↦ Or.inr ⟨row, rfl, hy⟩

theorem tells_readScan (x : Id) : Tells K (fun row ↦ {row.id}) (readScan x) := by
  have hget : Tells K found (getScan x) := by
    intro σ seen hσ hK
    rw [getScan, adheres_bind, adheres_session]
    cases hrow : σ.scans x with
    | none => exact tells_fetchScan x σ seen hσ hK
    | some row =>
      refine ⟨hσ, subset_rfl, ?_⟩
      rintro y ⟨row', hrow', rfl⟩
      obtain rfl := Option.some.inj hrow'
      obtain ⟨rfl, hseen⟩ := hσ x row hrow
      exact hseen
  refine hget.bind fun result ↦ ?_
  rcases result with - | row
  · exact tells_raise _
  · exact tells_pure row fun y hy ↦ Or.inr ⟨row, rfl, hy⟩

theorem tells_fetchDomain (d : Id) : Tells K (fun _ ↦ ∅) (fetchDomain d) := by
  refine (tells_select (q := .domain d) fun _ _ ↦ Set.empty_subset _).bind fun found ↦ ?_
  rcases found with - | row
  · exact tells_pure none (Set.empty_subset _)
  · exact (tells_modify fun _ ↦ rfl).bind fun _ ↦ tells_pure _ (Set.empty_subset _)

theorem tells_getDomain (d : Id) : Tells K (fun _ ↦ ∅) (getDomain d) := by
  intro σ seen hσ hK
  rw [getDomain, adheres_bind, adheres_session]
  cases hrow : σ.domains d with
  | none => exact tells_fetchDomain d σ seen hσ hK
  | some row => exact ⟨hσ, subset_rfl, Set.empty_subset _⟩

theorem tells_refreshDomain (d : Id) : Tells K (fun _ ↦ ∅) (refreshDomain d) := by
  refine (tells_fetchDomain d).bind fun found ↦ ?_
  rcases found with - | row
  · exact tells_raise _
  · exact tells_pure row (Set.empty_subset _)

theorem tells_readDomain (d : Id) : Tells K (fun _ ↦ ∅) (readDomain d) := by
  refine (tells_getDomain d).bind fun found ↦ ?_
  rcases found with - | row
  · exact tells_raise _
  · exact tells_pure row (Set.empty_subset _)

theorem tells_assignDomain (d : Id) (st : DomainStatus) :
    Tells K (fun _ ↦ ∅) (assignDomain d st) := by
  refine tells_modify fun σ ↦ ?_
  unfold Session.assignDomain
  split
  · rfl
  · split <;> rfl

theorem tells_setDomainStatus (d : Id) (st : DomainStatus) :
    Tells K (fun _ ↦ ∅) (ScanRepo.setDomainStatus d st) :=
  (tells_assignDomain d st).bind fun _ ↦ (tells_commit _).bind fun _ ↦ tells_refreshDomain d

/-! ### Services -/

/-- A message is published only for a scan that has been shown. -/
theorem tells_enqueueScan {x : Id} (hx : x ∈ K) : Tells K (fun _ ↦ ∅) (enqueueScan x) := by
  intro σ seen hσ hK
  refine ⟨fun m hm ↦ ?_, fun answer _ ↦ ?_⟩
  · obtain rfl := Op.publish.inj hm
    exact ⟨hK hx, rfl⟩
  · rcases answer with text | ⟨⟨⟩⟩
    · trivial
    · exact ⟨hσ.mono Set.subset_union_left, Set.subset_union_left, Set.empty_subset _⟩

/-- Publishing a scan after reading its row. -/
theorem tells_announce (x : Id) : Tells K (fun _ ↦ ∅) (do
    let row ← readScan x
    enqueueScan row.id) :=
  (tells_readScan x).bind fun _ ↦ tells_enqueueScan (Or.inr rfl)

theorem tells_createScan (d : Id) (user : Option Id) :
    Tells K (fun _ ↦ ∅) (ScanRepo.createScan d user) :=
  (tells_call (by simp)).bind fun id ↦ (tells_add _).bind fun _ ↦
    (tells_commit _).bind fun _ ↦ (tells_refreshScan id).bind fun _ ↦
      tells_pure id (Set.empty_subset _)

/-- `create_domain` publishes the scan that it has inserted and read back. -/
theorem tells_create (u : Unicode) (payload : String) (user : Id) :
    Tells K (fun _ ↦ ∅) (DomainService.createDomain u payload user) := by
  have hinitial : ∀ d K, Tells K (fun _ ↦ ∅) (ScanService.enqueueInitialScan d (some user)) := by
    refine fun d K ↦ (tells_createScan d _).bind fun scan ↦ (tells_getDomain d).bind fun result ↦ ?_
    rcases result with - | domain
    · exact tells_announce scan
    · show Tells _ _ (if domain.status ≠ .running then _ else _)
      split
      · exact (tells_setDomainStatus d _).bind fun _ ↦ tells_announce scan
      · exact tells_announce scan
  rw [DomainService.createDomain, normalizeAndValidateFqdn_eq]
  split
  · show Tells K _ (DomainRepo.getDomainByName _ >>= _)
    refine (tells_select (q := .domainByName _) fun _ _ ↦ Set.empty_subset _).bind fun result ↦ ?_
    rcases result with - | row
    · have hcreate : ∀ K name, Tells K (fun _ ↦ ∅) (DomainRepo.createDomain name user .pending) :=
        fun K name ↦ (tells_call (by simp)).bind fun id ↦ (tells_add _).bind fun _ ↦
          (tells_commit _).bind fun _ ↦ tells_refreshDomain id
      exact (hcreate _ _).bind fun domain ↦ (hinitial domain.id _).bind fun _ ↦
        (tells_readDomain domain.id).bind fun _ ↦ tells_pure _ (Set.empty_subset _)
    · exact tells_raise _
  · exact tells_raise (α := Response) _

theorem tells_flush : Tells K (fun _ ↦ ∅) flush := by
  intro σ seen hσ _
  unfold Adheres flush
  split
  · trivial
  · refine ⟨fun m h ↦ absurd h (by simp), fun answer _ ↦ ?_⟩
    rcases answer with err | ⟨⟨⟩⟩
    · trivial
    · exact ⟨hσ.mono Set.subset_union_left, Set.subset_union_left, Set.empty_subset _⟩

theorem tells_rollback : Tells K (fun _ ↦ ∅) rollback :=
  fun _ _ _ _ ↦ ⟨fun m h ↦ absurd h (by simp), fun _ _ ↦
    ⟨fun _ _ hrow ↦ absurd hrow (by simp [Session.expire]), Set.subset_union_left,
      Set.empty_subset _⟩⟩

/-- `trigger_manual_scan` publishes the scan that it has inserted and read back. -/
theorem tells_trigger (d user : Id) :
    Tells K (fun _ ↦ ∅) (ScanService.triggerManualScan d user) := by
  have hlock : Tells K (fun _ ↦ ∅) (DomainRepo.getDomainByIdForUpdate d) := by
    refine (tells_select (q := .domainForUpdate d) fun _ _ ↦ Set.empty_subset _).bind
      fun result ↦ ?_
    rcases result with - | row
    · exact tells_pure none (Set.empty_subset _)
    · exact (tells_modify fun _ ↦ rfl).bind fun _ ↦ tells_pure _ (Set.empty_subset _)
  refine hlock.bind fun result ↦ ?_
  rcases result with - | row
  · exact tells_raise _
  have hactive : ∀ K, Tells K (fun _ ↦ ∅) (ScanRepo.domainHasActiveScan d) := fun K ↦
    (tells_select (q := .activeScan d) fun _ _ ↦ Set.empty_subset _).bind fun _ ↦
      tells_pure _ (Set.empty_subset _)
  refine (hactive _).bind fun active ↦ ?_
  split
  · exact tells_rollback.bind fun _ ↦ tells_raise _
  · have hscan : ∀ K, Tells K (fun _ ↦ ∅) (ScanRepo.createScanUncommitted d (some user)) :=
      fun K ↦ (tells_call (by simp)).bind fun id ↦ (tells_add _).bind fun _ ↦
        tells_flush.bind fun _ ↦ tells_pure id (Set.empty_subset _)
    refine (hscan _).bind fun scan ↦ (tells_readDomain d).bind fun domain ↦ ?_
    have hassign : ∀ K, Tells K (fun _ ↦ ∅)
        (if domain.status ≠ .running then assignDomain d .pending else pure ()) := by
      intro K
      split
      · exact tells_assignDomain d _
      · exact tells_pure () (Set.empty_subset _)
    exact (hassign _).bind fun _ ↦ (tells_commit _).bind fun _ ↦ (tells_refreshScan scan).bind
      fun row ↦ (tells_enqueueScan (Or.inr rfl)).bind fun _ ↦ tells_pure _ (Set.empty_subset _)

theorem tells_forM {f : α → Py Unit} {as : List α} (hf : ∀ a ∈ as, Tells K (fun _ ↦ ∅) (f a)) :
    Tells K (fun _ ↦ ∅) (as.forM f) := by
  induction as with
  | nil => exact tells_pure () (Set.empty_subset _)
  | cons a as ih =>
    exact (hf a List.mem_cons_self).bind fun _ ↦
      (ih fun b hb ↦ hf b (List.mem_cons_of_mem _ hb)).weaken Set.subset_union_left

theorem tells_delete (d : Id) : Tells K (fun _ ↦ ∅) (DomainService.deleteDomain d) := by
  refine (tells_getDomain d).bind fun result ↦ ?_
  rcases result with - | row
  · exact tells_raise _
  have hdelete : ∀ K, Tells K (fun _ ↦ ∅) (DomainRepo.deleteDomain d) := fun K ↦
    (tells_select (q := .scansOf d) fun _ _ ↦ Set.empty_subset _).bind fun scans ↦
      (tells_forM fun s _ ↦ (tells_select (q := .assetsOf s.id) fun _ _ ↦
        Set.empty_subset _).bind fun _ ↦ tells_pure () (Set.empty_subset _)).bind fun _ ↦
          (tells_add _).bind fun _ ↦ tells_commit _
  exact (hdelete _).bind fun _ ↦ tells_pure _ (Set.empty_subset _)

/-- Code with the session that it closes. -/
theorem Tells.tryFinally_close {m : Py α} (hm : Tells K Q m) : Tells K Q (tryFinally m close) := by
  intro σ seen hσ hK
  refine Program.follows_bind.2 (Program.Follows.mono (hm σ seen hσ hK) ?_)
  rintro ⟨e | a, σ'⟩ seen' h
  · exact ⟨fun m hm ↦ absurd hm (by simp), fun _ _ ↦ trivial⟩
  · exact ⟨fun m hm ↦ absurd hm (by simp), fun _ _ ↦
      ⟨h.1.mono Set.subset_union_left, h.2.1.trans Set.subset_union_left,
        h.2.2.trans Set.subset_union_left⟩⟩

theorem tells_assignScan (x : Id) (patch : ScanPatch) :
    Tells K (fun _ ↦ ∅) (assignScan x patch) := by
  intro σ seen hσ _
  refine ⟨?_, subset_rfl, Set.empty_subset _⟩
  show Shown seen (σ.assignScan x patch)
  unfold Session.assignScan
  split
  · exact hσ
  · next row hrow =>
    split
    · exact hσ
    · obtain ⟨rfl, hseen⟩ := hσ x row hrow
      exact hσ.loadScan hseen

/-- `recover_pending_jobs` publishes the ids that it has listed. -/
theorem tells_recoverPendingJobs : Tells K (fun _ ↦ ∅) recoverPendingJobs := by
  have hreset : ∀ K, Tells K (fun _ ↦ ∅) ScanRepo.resetInterruptedScans := by
    intro K
    refine (tells_select (q := .runningScans) (Q := fun rows ↦ {x | ∃ row ∈ rows, x = row.id})
      fun _ _ ↦ subset_rfl).bind fun rows ↦ (tells_forM fun row hrow ↦ ?_).bind fun _ ↦ ?_
    · exact (tells_loadScan (Or.inr ⟨row, hrow, rfl⟩)).bind fun _ ↦ tells_assignScan _ _
    · split
      · exact tells_pure _ (Set.empty_subset _)
      · exact (tells_commit _).bind fun _ ↦ tells_pure _ (Set.empty_subset _)
  refine Tells.tryFinally_close ((hreset K).bind fun _ ↦
    (tells_select (q := .recoverableIds) (Q := fun ids ↦ {x | x ∈ ids}) fun _ _ ↦
      subset_rfl).bind fun ids ↦ tells_forM fun x hx ↦ tells_enqueueScan (Or.inr hx))

/-- The code of a request, and the recovery. -/
theorem tells_code (u : Unicode) (r : Request) : Tells K (fun _ ↦ ∅) (r.code u) := by
  cases r with
  | create payload user => exact (tells_create u payload user).tryFinally_close
  | trigger d user => exact (tells_trigger d user).tryFinally_close
  | delete d => exact (tells_delete d).tryFinally_close
  | recover => exact tells_recoverPendingJobs.bind fun _ ↦ tells_pure _ (Set.empty_subset _)

end Sighted

/-! ### Processes -/

/-- What a process may publish. -/
inductive Clerk where
  /-- A request that has read the scans of these ids. -/
  | request (seen : Set Id)
  | worker (errand : Errand)

namespace Clerk

/-- What a process publishes. -/
inductive Allowed (maxRetries : ℕ) : Clerk → Op → Prop
  | request {seen o} (h : sighted.Allowed seen o) : Allowed maxRetries (request seen) o
  | worker {v o} (h : Errand.Allowed maxRetries v o) : Allowed maxRetries (worker v) o

/-- After an operation and its answer. -/
def observe : Clerk → (o : Op) → o.Res → Clerk
  | request seen, o, r => request (sighted.observe seen o r)
  | worker v, o, r => worker (v.observe o r)

/-- The discipline of all processes. -/
def discipline (maxRetries : ℕ) : Discipline Op Op.Res Clerk where
  Allowed := Allowed maxRetries
  Possible := Phase.Possible
  observe := observe

/-- A request keeps to its view, which begins with no scan shown. -/
theorem follows_request (n : ℕ) (u : Unicode) (r : Request) :
    (Py.start (r.code u)).Follows (discipline n) (fun _ _ ↦ True) (request ∅) := by
  have hcode : (Py.start (r.code u)).Follows sighted (fun _ _ ↦ True) ∅ := by
    refine Program.follows_bind.2 (Program.Follows.mono
      (Sighted.tells_code (K := ∅) u r .new ∅ (fun _ _ h ↦ absurd h (by simp [Session.new]))
        subset_rfl) fun _ _ _ ↦ trivial)
  refine Program.Follows.mono (Program.Follows.simulate (S := fun seen v ↦ v = request seen) ?_
    hcode rfl) fun _ _ _ ↦ trivial
  rintro seen _ o rfl ho
  exact ⟨.request ho, fun r hr ↦ ⟨hr, rfl⟩⟩

/-- A worker keeps to its view, which begins with the message it has taken. -/
theorem follows_worker (cfg : Settings) (m : Message) :
    (Py.start (runDiscoveryScan cfg m)).Follows (discipline cfg.scanMaxRetries) (fun _ _ ↦ True)
      (worker (.fresh m.scan m.retries)) := by
  refine Program.Follows.mono (Program.Follows.simulate (S := fun e v ↦ v = worker e) ?_
    (Errand.follows_start cfg m) rfl) fun _ _ _ ↦ trivial
  rintro e _ o rfl ho
  exact ⟨.worker ho, fun r hr ↦ ⟨hr, rfl⟩⟩

/-- A message is for a known scan, and a retry follows an attempt that has been taken. -/
structure Warrants (known : Id → Prop) (taken : Message → Prop) (n : ℕ) (m : Message) : Prop where
  scan : known m.scan
  retry : ∀ r, m.retries = r + 1 → r < n ∧ taken ⟨m.scan, r⟩

/-- The scans of a process are known, and a worker has taken its message. -/
def Backed (known : Id → Prop) (taken : Message → Prop) : Clerk → Prop
  | request seen => ∀ x ∈ seen, known x
  | worker (.fresh x r) => known x ∧ taken ⟨x, r⟩
  | worker (.claimed x r) => known x ∧ taken ⟨x, r⟩
  | worker (.holding y) => known y
  | worker .done => True

variable {known known' : Id → Prop} {taken taken' : Message → Prop} {n : ℕ} {v : Clerk} {o : Op}

theorem Backed.mono (h : v.Backed known taken) (hknown : ∀ x, known x → known' x)
    (htaken : ∀ m, taken m → taken' m) : v.Backed known' taken' := by
  rcases v with seen | (_ | _ | _ | _)
  · exact fun x hx ↦ hknown x (h x hx)
  · exact ⟨hknown _ h.1, htaken _ h.2⟩
  · exact ⟨hknown _ h.1, htaken _ h.2⟩
  · exact hknown _ h
  · trivial

theorem Warrants.mono {m : Message} (h : Warrants known taken n m)
    (hknown : ∀ x, known x → known' x) (htaken : ∀ m, taken m → taken' m) :
    Warrants known' taken' n m :=
  ⟨hknown _ h.scan, fun r hr ↦ ⟨(h.retry r hr).1, htaken _ (h.retry r hr).2⟩⟩

/-- What a process publishes is warranted. -/
theorem Backed.warrants (h : v.Backed known taken) {m : Message}
    (hallowed : v.Allowed n (.publish m)) : Warrants known taken n m := by
  cases hallowed with
  | request ho =>
    obtain ⟨hseen, hfirst⟩ := ho m rfl
    exact ⟨h _ hseen, fun r hr ↦ absurd (hfirst.symm.trans hr) (by simp)⟩
  | worker ho =>
    cases ho with
    | plain _ ho => exact absurd ho id
    | retry hr =>
      refine ⟨h.1, fun r' hr' ↦ ?_⟩
      obtain rfl := Nat.succ.inj hr'
      exact ⟨hr, h.2⟩
    | hand => exact ⟨h, fun r hr ↦ absurd hr (by simp)⟩

/-- What an answer shows to be stored is stored. -/
theorem stored_of_shows {i : ℕ} {e : Env} {s s' : Store} {r : o.Res} {x : Id}
    (hserve : serve i o e s = some (r, s')) (hx : x ∈ o.shows r) : (s.db.scans.get x).isSome := by
  cases o with
  -- only a row that is read shows an id, and it is read from the table
  | query q =>
    rcases (serve_query hserve).2.2 with ⟨err, rfl⟩ | rfl
    · cases q <;> exact absurd hx id
    · cases q with
      | scan y =>
        cases hrow : s.db.scans.get y with
        | none =>
          have hempty : x ∈ Op.shows (.query (.scan y)) (.ok (s.db.scans.get y)) := hx
          rw [hrow] at hempty
          exact absurd hempty id
        | some row =>
          have hshown : x ∈ Op.shows (.query (.scan y)) (.ok (s.db.scans.get y)) := hx
          rw [hrow] at hshown
          obtain rfl : x = y := hshown
          simp [hrow]
      | runningScans =>
        obtain ⟨row, hrow, rfl⟩ := hx
        exact Table.isSome_get_key (List.mem_filter.1 hrow).1
      | recoverableIds =>
        obtain ⟨row, hrow, rfl⟩ := List.mem_map.1 hx
        exact Table.isSome_get_key (List.mem_filter.1 hrow).1
      | _ => exact absurd hx id
  | _ => exact absurd hx id

/-- The next pending scan is stored when it is chosen. -/
theorem stored_of_nextPending {db : Database} {d y : Id} {pick : ℕ}
    (h : db.nextPending d pick = some y) : (db.scans.get y).isSome := by
  obtain ⟨row, hrow, -⟩ := Database.mem_pendingIds.1 (Database.mem_pendingIds_of_nextPending h)
  simp [hrow]

/-- The row that a worker reads takes no backing away. -/
theorem backed_sawScan {errand : Errand} (h : Backed known taken (worker errand)) (y : Id)
    (row : Option Scan) : Backed known taken (worker (errand.sawScan y row)) := by
  cases errand with
  | fresh x r =>
    cases row with
    | none => exact h
    | some row =>
      show Backed known taken (worker (if y = x ∧ row.status ≠ .pending then _ else _))
      split
      · exact h
      · exact h
  | _ => exact h

/-- The next scan that a worker finds is a known one. -/
theorem backed_found {errand : Errand} (h : Backed known taken (worker errand)) {next : Option Id}
    (hnext : ∀ y, next = some y → known y) : Backed known taken (worker (errand.found next)) := by
  cases next with
  | none => cases errand <;> exact h
  | some y =>
    cases errand with
    | claimed | holding => exact hnext y rfl
    | fresh | done => exact h

/-- What a process comes to know is stored when it does. -/
theorem Backed.observe (h : v.Backed known taken) {i : ℕ} {e : Env} {s s' : Store} {r : o.Res}
    (hserve : serve i o e s = some (r, s')) (hstored : ∀ x, (s.db.scans.get x).isSome → known x) :
    (v.observe o r).Backed known taken := by
  rcases v with seen | errand
  · rintro x (hx | hx)
    · exact h x hx
    · exact hstored x (stored_of_shows hserve hx)
  · cases o with
    | query q =>
      rcases (serve_query hserve).2.2 with ⟨err, rfl⟩ | rfl
      · cases q <;> exact h
      · cases q with
        | scan y => exact backed_sawScan h y _
        | nextPending d => exact backed_found h fun y hy ↦ hstored y (stored_of_nextPending hy)
        | _ => exact h
    | commit =>
      rcases r with err | ⟨⟨⟩⟩
      · exact h
      · cases errand <;> exact h
    | publish =>
      rcases r with err | ⟨⟨⟩⟩
      · cases errand <;> first | exact h | trivial
      · cases errand <;> trivial
    | _ => exact h

end Clerk

/-! ### Runs -/

namespace World

variable {cfg : Settings} {u : Unicode}

section Steps

variable {w w' : World} {a : Action} {known known' : Id → Prop} {taken taken' : Message → Prop}
  {n : ℕ} {vs : List Clerk}

/-- What is stored is known, each process has come to know its scans, and the queued messages are
warranted. -/
structure Vouched (w : World) (n : ℕ) (known : Id → Prop) (taken : Message → Prop)
    (vs : List Clerk) : Prop where
  follows : w.Follows (Clerk.discipline n) (fun _ _ ↦ True) vs
  stored : ∀ x, (w.shared.db.scans.get x).isSome → known x
  backed : ∀ v ∈ vs, v.Backed known taken
  queue : ∀ m ∈ w.shared.queue, Clerk.Warrants known taken n m

/-- In an empty deployment there is nothing to vouch for. -/
theorem vouched_boot : (boot .empty).Vouched n known taken [] where
  follows := ⟨rfl, fun ht ↦ absurd ht (by simp [boot])⟩
  stored x hx := absurd hx (by simp [boot, Store.empty, Database.empty])
  backed v hv := absurd hv List.not_mem_nil
  queue m hm := absurd hm List.not_mem_nil

/-- A new process, which leaves at most a message less in the queue. -/
theorem Vouched.spawn (h : w.Vouched n known taken vs) {v : Clerk}
    (hknown : ∀ x, known x → known' x) (htaken : ∀ m, taken m → taken' m)
    (hfollows : w'.Follows (Clerk.discipline n) (fun _ _ ↦ True) (vs ++ [v]))
    (hdb : w'.shared.db = w.shared.db) (hqueue : ∀ m ∈ w'.shared.queue, m ∈ w.shared.queue)
    (hv : v.Backed known' taken') : w'.Vouched n known' taken' (vs ++ [v]) where
  follows := hfollows
  stored x hx := hknown x (h.stored x (by rwa [hdb] at hx))
  backed l hl := by
    rcases List.mem_append.1 hl with hl | hl
    · exact (h.backed l hl).mono hknown htaken
    · rwa [List.mem_singleton.1 hl]
  queue m hm := (h.queue m (hqueue m hm)).mono hknown htaken

/-- An operation of a process. -/
theorem Vouched.perform (h : w.Vouched n known taken vs) {i : ℕ} {e : Env}
    (hknown : ∀ x, known x → known' x) (htaken : ∀ m, taken m → taken' m)
    (hstored : ∀ x, (w'.shared.db.scans.get x).isSome → known' x)
    (ha : w.act cfg u (.perform i e) = some w') : ∃ vs', w'.Vouched n known' taken' vs' := by
  obtain ⟨v, o, r, hi, -, hallowed, hserve, hfollows⟩ := h.follows.step ha possible_of_serve
  have hv := h.backed v (List.mem_of_getElem? hi)
  refine ⟨_, hfollows, hstored, fun l hl ↦ ?_, fun m hm ↦ ?_⟩
  · rcases List.mem_or_eq_of_mem_set hl with hl | rfl
    · exact (h.backed l hl).mono hknown htaken
    · exact (hv.observe hserve h.stored).mono hknown htaken
  · have hold : m ∈ w.shared.queue → Clerk.Warrants known' taken' n m :=
      fun hm ↦ (h.queue m hm).mono hknown htaken
    by_cases hpublish : ∃ m', o = .publish m'
    · obtain ⟨m', rfl⟩ := hpublish
      rcases (serve_publish hserve).2 with ⟨-, hqueue⟩ | ⟨-, hqueue⟩
      · exact hold (by rwa [hqueue] at hm)
      · rw [hqueue] at hm
        rcases List.mem_append.1 hm with hm | hm
        · exact hold hm
        · rw [List.mem_singleton.1 hm]
          exact (hv.warrants hallowed).mono hknown htaken
    · exact hold (by rwa [queue_of_serve (not_exists.1 hpublish) hserve] at hm)

end Steps

/-- Message `m` is delivered to a worker in one of the first `n` steps of a run. -/
def Delivered (w : ℕ → World) (a : ℕ → Action) (n : ℕ) (m : Message) : Prop :=
  ∃ k < n, ∃ q, a k = .take q ∧ (w k).shared.queue[q]? = some m

/-- Scan `x` is stored in one of the first states of a run. -/
def Known (w : ℕ → World) (n : ℕ) (x : Id) : Prop :=
  ∃ k ≤ n, ((w k).shared.db.scans.get x).isSome

/-- Every step of a run keeps the warrants. -/
theorem Vouched.step {w : ℕ → World} {a : ℕ → Action} {k : ℕ} {vs : List Clerk}
    (h : (w k).Vouched cfg.scanMaxRetries (Known w k) (Delivered w a k) vs)
    (ha : (w k).act cfg u (a k) = some (w (k + 1))) :
    ∃ vs', (w (k + 1)).Vouched cfg.scanMaxRetries (Known w (k + 1)) (Delivered w a (k + 1))
      vs' := by
  -- both bounds only grow along the run
  have hknown : ∀ x, Known w k x → Known w (k + 1) x :=
    fun x ⟨j, hj, hx⟩ ↦ ⟨j, Nat.le_succ_of_le hj, hx⟩
  have htaken : ∀ m, Delivered w a k m → Delivered w a (k + 1) m :=
    fun m ⟨j, hj, hm⟩ ↦ ⟨j, Nat.lt_succ_of_lt hj, hm⟩
  cases hact : a k with
  -- a new request has seen no scan
  | start r =>
    rw [hact] at ha
    have hw := Option.some.inj ha
    have hv : (Clerk.request ∅).Backed (Known w (k + 1)) (Delivered w a (k + 1)) :=
      fun _ hx ↦ absurd hx id
    refine ⟨_, h.spawn hknown htaken ?_ ?_ ?_ hv⟩
    · rw [← hw]
      exact h.follows.spawn (Clerk.follows_request _ u r)
    · rw [← hw]
      rfl
    · rw [← hw]
      exact fun _ hm ↦ hm
  -- a new worker has the message for a warrant: it was vouched for in the queue
  | take q =>
    rw [hact] at ha
    simp only [World.act] at ha
    split at ha
    · next m hm =>
      have hw := Option.some.inj ha
      have hmem := List.mem_of_getElem? hm
      have hv : (Clerk.worker (.fresh m.scan m.retries)).Backed (Known w (k + 1))
          (Delivered w a (k + 1)) :=
        ⟨hknown _ (h.queue m hmem).scan, k, Nat.lt_succ_self k, q, hact, hm⟩
      refine ⟨_, h.spawn hknown htaken ?_ ?_ ?_ hv⟩
      · rw [← hw]
        refine Pool.Follows.spawn ?_ (Clerk.follows_worker cfg m)
        exact h.follows.of_threads rfl
      · rw [← hw]
        rfl
      · rw [← hw]
        exact fun _ hm ↦ List.mem_of_mem_eraseIdx hm
    · exact absurd ha (by simp)
  | duplicate q =>
    rw [hact] at ha
    simp only [World.act] at ha
    split at ha
    · next m hm =>
      have hw := Option.some.inj ha
      refine ⟨vs, ?_, fun x hx ↦ ?_, fun v hv ↦ (h.backed v hv).mono hknown htaken, fun m' hm' ↦ ?_⟩
      · rw [← hw]
        exact h.follows.of_threads rfl
      · rw [← hw] at hx
        exact hknown x (h.stored x hx)
      · rw [← hw] at hm'
        rcases List.mem_append.1 hm' with hm' | hm'
        · exact (h.queue m' hm').mono hknown htaken
        · rw [List.mem_singleton.1 hm']
          exact (h.queue m (List.mem_of_getElem? hm)).mono hknown htaken
    · exact absurd ha (by simp)
  | perform i e =>
    rw [hact] at ha
    exact h.perform hknown htaken (fun x hx ↦ ⟨k + 1, Nat.le_refl _, hx⟩) ha

/-- **Messages name stored scans**, in every state of every run from an empty deployment, with any
requests, deletions, deliveries and failures: a queued message is for a scan that has been stored
in this state or an earlier one, and that still is, with the same domain and trigger, unless its
domain has been deleted with all its rows; and a retry stays within the limit and follows an attempt
that has been delivered. -/
theorem messages_stored (cfg : Settings) (u : Unicode) {w : ℕ → World} {a : ℕ → Action} {n : ℕ}
    (hrun : Trace (act cfg u) (boot .empty) w a n) {m : Message} (hm : m ∈ (w n).shared.queue) :
    (∃ k ≤ n, ∃ row, (w k).shared.db.scans.get m.scan = some row ∧
      ((w n).shared.db.Forgets row.domainId ∨
        ∃ row', (w n).shared.db.scans.get m.scan = some row' ∧ row'.origin = row.origin)) ∧
      ∀ r, m.retries = r + 1 → r < cfg.scanMaxRetries ∧ Delivered w a n ⟨m.scan, r⟩ := by
  have hall := hrun.invariant
    (I := fun k ↦ ∃ vs, (w k).Vouched cfg.scanMaxRetries (Known w k) (Delivered w a k) vs)
    ⟨[], by rw [hrun.start]; exact vouched_boot⟩ fun k _ ha ⟨_, h⟩ ↦ h.step ha
  obtain ⟨vs, h⟩ := hall n (Nat.le_refl n)
  obtain ⟨⟨k, hk, hstored⟩, hretry⟩ := h.queue m hm
  refine ⟨?_, hretry⟩
  obtain ⟨row, hrow⟩ := Option.isSome_iff_exists.1 hstored
  have hbefore : Run cfg u (boot .empty) (w k) := by
    rw [← hrun.start]
    exact Trace.reach ⟨rfl, fun j hj ↦ hrun.step j (Nat.lt_of_lt_of_le hj hk)⟩ (Nat.zero_le k)
  have hrecorded := (recorded_boot (s := .empty) (by decide) Database.coherent_empty).run hbefore
  have hdomain := (w k).shared.db.scan_domain row (Table.mem_of_get hrow)
  refine ⟨k, hk, row, hrow, (hrecorded.keeps (hrun.reach hk) hdomain).imp
    Database.forgets_of_get fun hkeeps ↦ hkeeps.scans m.scan row hrow rfl⟩

/-- No resolver answers in time. -/
def slow : Env where
  lookups _ := .timeout "Timeout" ""

/-- A domain is created, and the first attempt of its scan ends with a retry. -/
def retried : List Action :=
  .start (.create "a.b" 7) :: performs 0 13 ++ .take 0 :: List.replicate 12 (.perform 1 slow)

theorem messages_stored_retried :
    ∃ w a n, Trace (act {} .plain) (boot .empty) w a n ∧ ⟨1, 1⟩ ∈ (w n).shared.queue ∧
      (∃ k ≤ n, ∃ row, (w k).shared.db.scans.get 1 = some row ∧
        ((w n).shared.db.Forgets row.domainId ∨
          ∃ row', (w n).shared.db.scans.get 1 = some row' ∧ row'.origin = row.origin)) ∧
      Delivered w a n ⟨1, 0⟩ := by
  obtain ⟨w', hreach, hm⟩ := Runs.exists_reach (act {} .plain) (fun _ _ ↦ True)
    (fun w ↦ ⟨1, 1⟩ ∈ w.shared.queue) (s := boot .empty) retried (by decide +kernel)
  have : Nonempty Action := ⟨.take 0⟩
  obtain ⟨w, a, n, hrun, -, rfl⟩ := hreach.exists_trace
  obtain ⟨hstored, hretry⟩ := messages_stored {} .plain hrun hm
  exact ⟨w, a, n, hrun, hm, hstored, (hretry 0 rfl).2⟩

end World

end AssetDiscovery
