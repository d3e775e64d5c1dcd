import AssetDiscovery.Collection
import AssetDiscovery.Conduct
import AssetDiscovery.Conformance.Worker

/-!
# What a worker has asked the resolver

A worker asks the resolver for the records of the four types, of the name that it has read for the
domain of its scan, and stores what it has been answered in one transaction; only then it may
complete its scan. `Inquiry` keeps track of what it has asked, and `Inquiry.discipline` says what it
stores: the records of all its answers or nothing, and no other process stores assets or completes
scans.

Everything but the look-ups and the transaction with the assets is a conduct (`modest`): its
statements store no asset, and complete no scan but one on which the process has stored all.
-/

set_option autoImplicit false

namespace AssetDiscovery

open Effect Py

/-- A look-up with its outcome. -/
structure Answer where
  name : String
  type : AssetType
  lookup : Lookup
  deriving DecidableEq, Repr

/-- The records of some answers, in their order. -/
def gathered (heard : List Answer) : List (AssetType × String) :=
  heard.flatMap fun q ↦ q.lookup.records q.type

/-- The statement stores no asset, and completes no scan but the process's own. -/
def Write.Modest (own : Option Id) : Write → Prop
  | .insertAsset .. => False
  | .insertScan _ _ st _ => st ≠ .completed
  | .updateScan x p => p.status = some .completed → own = some x
  | .insertDomain .. | .updateDomain .. | .deleteDomain _ => True

/-- The operation is no look-up, and its statements are modest. -/
def Op.Modest (own : Option Id) : Op → Prop
  | .lookup _ _ => False
  | .flush ws => ∀ w ∈ ws, w.Modest own
  | .commit _ ws => ∀ w ∈ ws, w.Modest own
  | _ => True

/-- The record that a statement stores. -/
def Write.record : Write → Option (AssetType × String)
  | .insertAsset _ _ _ type value => some (type, value)
  | _ => none

/-- The statements of a transaction store one asset for each record. -/
def StoresRecords (x d : Id) (records : List (AssetType × String)) (ws : List Write) : Prop :=
  List.Forall₂ (fun r w ↦ ∃ id, w = .insertAsset id x d r.1 r.2) records ws

/-- The records can be read off the statements. -/
theorem StoresRecords.filterMap_record {x d : Id} {records : List (AssetType × String)}
    {ws : List Write} (h : StoresRecords x d records ws) : ws.filterMap Write.record = records := by
  induction h with
  | nil => rfl
  | cons hw _ ih =>
    obtain ⟨id, rfl⟩ := hw
    simp [Write.record, ih]

/-- How far a process is with its look-ups. -/
inductive Inquiry where
  /-- A worker on scan `x` that has asked nothing; `domain` is the one it has read for its scan. -/
  | opening (x : Id) (domain : Option Id)
  /-- It has read the name of the domain and is asking for its records. -/
  | asking (x d : Id) (name : String) (heard : List Answer)
  /-- It has stored the records of its answers. -/
  | stored (x d : Id) (name : String) (heard : List Answer)
  /-- It stores no assets, and completes no scan. -/
  | aside
  deriving DecidableEq, Repr

namespace Inquiry

/-- All record types have been asked for. -/
def Complete (heard : List Answer) : Prop :=
  heard.map Answer.type = recordTypes

instance : DecidablePred Complete := fun heard ↦
  inferInstanceAs (Decidable (heard.map Answer.type = recordTypes))

/-- After reading the row of a scan. -/
def sawScan : Inquiry → Id → Option Scan → Inquiry
  | opening x domain, y, some row =>
    if y = x then opening x (some row.domainId) else opening x domain
  | v, _, _ => v

/-- After reading the row of a domain: the name that has been read last counts. -/
def sawDomain : Inquiry → Id → Option Domain → Inquiry
  | opening x (some d), d', some row =>
    if d' = d then asking x d row.name [] else opening x (some d)
  | asking x d name [], d', some row =>
    if d' = d then asking x d row.name [] else asking x d name []
  | v, _, _ => v

/-- After a look-up. -/
def asked : Inquiry → Answer → Inquiry
  | asking x d name heard, q =>
    if q.lookup.raised = none then asking x d name (heard ++ [q]) else aside
  | v, _ => v

/-- After a commit, which may have failed. -/
def committed : Inquiry → List Write → Bool → Inquiry
  | asking x d name heard, ws, ok =>
    if Complete heard ∧ ws.filterMap Write.record = gathered heard then
      if ok then stored x d name heard else aside
    else asking x d name heard
  | v, _, _ => v

/-- The stage after an operation and its answer. -/
def observe (v : Inquiry) : (o : Op) → o.Res → Inquiry
  | .query (.scan y), .ok row => v.sawScan y row
  | .query (.domain d), .ok row => v.sawDomain d row
  | .lookup name type, r => v.asked ⟨name, type, r⟩
  | .commit _ ws, r => v.committed ws r.toBool
  | _, _ => v

/-- The operations of a process in each stage. -/
inductive Allowed : Inquiry → Op → Prop
  | modest {v o} (ho : o.Modest none) : Allowed v o
  | aside {name type} : Allowed aside (.lookup name type)
  | ask {x d name heard type rest} (h : heard.map Answer.type ++ type :: rest = recordTypes) :
    Allowed (asking x d name heard) (.lookup name type)
  | store {x d name heard ws} (h : Complete heard) (hws : StoresRecords x d (gathered heard) ws) :
    Allowed (asking x d name heard) (.commit (.createAssets x) ws)
  | own {x d name heard o} (ho : o.Modest (some x)) : Allowed (stored x d name heard) o

/-- The discipline of all processes. -/
def discipline : Discipline Op Op.Res Inquiry where
  Allowed := Allowed
  Possible := Phase.Possible
  observe := observe

@[simp]
theorem observe_stored {x d : Id} {name : String} {heard : List Answer} (o : Op) (r : o.Res) :
    observe (stored x d name heard) o r = stored x d name heard := by
  cases o with
  | query q => rcases r with err | row <;> cases q <;> rfl
  | _ => rfl

/-- A worker on scan `x` of domain `d` that has read the domain's name and asked nothing. -/
def Ready (x d : Id) (v : Inquiry) : Prop :=
  ∃ name, v = asking x d name []

/-- A modest operation leaves an inquiry ready. -/
theorem Ready.observe {x d : Id} {v : Inquiry} (hv : v.Ready x d) {o : Op}
    (ho : o.Modest none) (r : o.Res) : (v.observe o r).Ready x d := by
  obtain ⟨name, rfl⟩ := hv
  cases o with
  | query q =>
    rcases r with err | row
    · cases q <;> exact ⟨name, rfl⟩
    · cases q with
      | domain d' =>
        rcases row with - | row
        · exact ⟨name, rfl⟩
        · show Ready x d (if d' = d then asking x d row.name [] else asking x d name [])
          split
          · exact ⟨row.name, rfl⟩
          · exact ⟨name, rfl⟩
      | _ => exact ⟨name, rfl⟩
  | lookup => exact absurd ho id
  | _ => exact ⟨name, rfl⟩

end Inquiry

/-! ### Modest code -/

/-- What code does that stores no assets and asks the resolver nothing. -/
def modest (own : Option Id) : Conduct Unit where
  discipline :=
    { Allowed _ o := o.Modest own
      Possible := Phase.Possible
      observe _ _ _ := () }
  At _ := True
  write := Write.Modest own
  plain := by
    refine fun {v o} _ ho ↦ ⟨?_, fun _ ↦ rfl⟩
    cases o with
    | flush | commit | lookup => exact ho
    | _ => trivial

namespace Inquiry

open Conduct Session

variable {own : Option Id} {α β : Type} {σ : Session} {x d : Id} {name : String}
  {heard : List Answer}

/-- A modest operation passes. -/
theorem passes {o : Op} (ho : o.Modest own) : (modest own).Passes o :=
  fun _ _ ↦ ⟨ho, fun _ ↦ rfl⟩

/-- The conduct of a modest process is lenient. -/
theorem lenient : (modest own).Lenient :=
  ⟨fun _ ↦ passes trivial, fun _ ↦ passes trivial, passes trivial⟩

/-- Columns of a scan may be set, unless it becomes COMPLETED. -/
theorem write_updateScan {p : ScanPatch} (hp : p.status ≠ some .completed) (y : Id) :
    (modest own).write (.updateScan y p) :=
  fun h ↦ absurd h hp

theorem keeps_markScan {site : Site} {y : Id} {patch : Time → ScanPatch}
    (hp : ∀ t, (patch t).status ≠ some .completed) :
    (modest own).Keeps (ScanRepo.markScan site y patch) :=
  Conduct.keeps_markScan (fun t ↦ write_updateScan (hp t) y)
    fun t row ↦ write_updateScan (ScanPatch.diff_status_ne (hp t) row) y

/-- A process may complete the scan that it has in hand. -/
theorem keeps_markScanCompleted : (modest (some x)).Keeps (ScanRepo.markScanCompleted x) :=
  Conduct.keeps_markScan (fun _ _ ↦ rfl) fun _ _ _ ↦ rfl

/-- The handlers store no records. -/
theorem keeps_handler (cfg : Settings) (task : Option ℕ) (e : Exn) :
    (modest own).Keeps (handleDiscoveryError cfg x task e) :=
  lenient.keeps_handleDiscoveryError (fun _ hp ↦ write_updateScan hp x) (fun _ _ ↦ trivial) cfg
    task e

/-- The code of a request, and the recovery. -/
theorem keeps_code (u : Unicode) (r : Request) : (modest none).Keeps (r.code u) := by
  have hscan : ScanStatus.pending ≠ .completed := by decide
  cases r with
  | create payload user =>
    exact (lenient.keeps_create (fun _ _ _ ↦ trivial) (fun _ _ ↦ hscan) (fun _ _ ↦ trivial) u
      payload).tryFinally_close lenient.close
  | trigger d user =>
    exact (lenient.keeps_trigger (fun _ ↦ hscan) trivial).tryFinally_close lenient.close
  | delete d => exact (keeps_delete trivial).tryFinally_close lenient.close
  | recover =>
    exact (lenient.keeps_recoverPendingJobs fun y _ hp ↦ write_updateScan hp y).bind fun _ ↦
      keeps_pure _

/-- Nothing is asked of how the code ends. -/
abbrev Asks (m : Py α) (σ : Session) (v : Inquiry) : Prop :=
  Adheres discipline (fun _ _ _ ↦ True) (fun _ _ _ ↦ True) m σ v

theorem asks_end (q : Except Exn α × Session) (v : Inquiry) :
    (Program.pure q).Follows discipline (settled (fun _ _ _ ↦ True) fun _ _ _ ↦ True) v := by
  rcases q with ⟨e | a, σ⟩ <;> trivial

/-- Modest code may be carried out in every stage. -/
theorem asks_of_keeps {m : Py α} (h : (modest none).Keeps m) (hσ : (modest none).Holds σ)
    (v : Inquiry) : Asks m σ v :=
  (h.within (D := discipline) (S := fun _ ↦ True) trivial
    (fun _ _ _ ho ↦ ⟨Allowed.modest ho, fun _ hr ↦ ⟨hr, trivial⟩⟩) hσ trivial).mono
    (fun _ _ _ _ ↦ trivial) fun _ _ _ _ ↦ trivial

/-- Modest code does not bring a worker to asking. -/
theorem adheres_ready {m : Py α} (h : (modest none).Keeps m) (hσ : (modest none).Holds σ)
    {v : Inquiry} (hv : v.Ready x d) :
    Adheres discipline (fun _ σ' v' ↦ (modest none).Holds σ' ∧ v'.Ready x d)
      (fun _ _ _ ↦ True) m σ v :=
  (h.within (D := discipline) (S := Ready x d) trivial
    (fun _ _ hv ho ↦ ⟨Allowed.modest ho, fun r hr ↦ ⟨hr, hv.observe ho r⟩⟩) hσ hv).mono
    (fun _ _ _ ↦ id) fun _ _ _ _ ↦ trivial

/-- A worker that has stored its records may complete its scan. -/
theorem adheres_stored {m : Py α} (h : (modest (some x)).Keeps m)
    (hσ : (modest (some x)).Holds σ) :
    Adheres discipline
      (fun _ σ' v' ↦ (modest (some x)).Holds σ' ∧ v' = stored x d name heard)
      (fun _ σ' v' ↦ (modest (some x)).Holds σ' ∧ v' = stored x d name heard) m σ
      (stored x d name heard) := by
  refine h.within trivial ?_ hσ rfl
  rintro v o rfl ho
  exact ⟨Allowed.own ho, fun r hr ↦ ⟨hr, observe_stored o r⟩⟩

/-! ### The discovery -/

@[simp]
theorem gathered_append (heard : List Answer) (q : Answer) :
    gathered (heard ++ [q]) = gathered heard ++ q.lookup.records q.type := by
  simp [gathered]

/-- `resolve_domain_records` from some record type on: it goes through the rest of them, or raises
at the first failure that is no absence. -/
theorem adheres_resolveTypes {P : List (AssetType × String) → Session → Inquiry → Prop}
    {E : Exn → Session → Inquiry → Prop}
    (hP : ∀ heard, Complete heard → P (gathered heard) σ (asking x d name heard))
    (hE : ∀ e, E e σ aside) (types : List AssetType) (heard : List Answer)
    (htypes : heard.map Answer.type ++ types = recordTypes) :
    Adheres discipline P E (resolveTypes name types (gathered heard)) σ
      (asking x d name heard) := by
  induction types generalizing heard with
  | nil => exact hP heard ((List.append_nil _).symm.trans htypes)
  | cons type types ih =>
    rw [resolveTypes, adheres_bind]
    refine ⟨.ask htypes, fun answer _ ↦ ?_⟩
    have hnext := ih (heard ++ [⟨name, type, answer⟩]) (by simpa using htypes)
    rw [gathered_append] at hnext
    show Adheres discipline P E _ σ (if answer.raised = none then _ else aside)
    cases answer with
    | answer rdatas => exact hnext
    | nxdomain | noAnswer | noNameservers =>
      rw [show Lookup.records type _ = [] from rfl, List.append_nil] at hnext
      exact hnext
    | timeout | dnsError | otherError => exact hE _

/-- `db.add_all` adds the `INSERT` of each record to the next flush. -/
theorem adheres_addAssets {P : List Id → Session → Inquiry → Prop}
    {E : Exn → Session → Inquiry → Prop} {v : Inquiry} (records : List (AssetType × String))
    (hP : ∀ ids ws, StoresRecords x d records ws → P ids { σ with work := σ.work ++ ws } v) :
    Adheres discipline P E (AssetRepo.addAssets x d records) σ v := by
  induction records generalizing P σ with
  | nil =>
    have h := hP [] [] .nil
    rw [List.append_nil] at h
    exact h
  | cons record records ih =>
    obtain ⟨type, value⟩ := record
    rw [AssetRepo.addAssets, adheres_bind]
    refine ⟨.modest trivial, fun id _ ↦ ?_⟩
    show Adheres discipline P E (AssetRepo.addAssets x d records >>= fun ids ↦ pure (id :: ids))
      (σ.addWork (.insertAsset id x d type value)) v
    rw [adheres_bind]
    refine ih fun ids ws hws ↦ ?_
    have h := hP (id :: ids) (.insertAsset id x d type value :: ws) (.cons ⟨id, rfl⟩ hws)
    rwa [List.append_cons] at h

/-- Where the handlers of the inner `try` take over. -/
def Interrupted (x d : Id) (name : String) (σ : Session) (v : Inquiry) : Prop :=
  ((modest none).Holds σ ∧ v = aside) ∨
    ∃ heard, (modest (some x)).Holds σ ∧ v = stored x d name heard

/-- `create_assets` of the records of all answers, in one transaction. -/
theorem adheres_createAssets (hσ : σ.Clean) (hheard : Complete heard) :
    Adheres discipline
      (fun _ σ' v' ↦ (modest (some x)).Holds σ' ∧ v' = stored x d name heard)
      (fun _ σ' v' ↦ Interrupted x d name σ' v') (AssetRepo.createAssets x d (gathered heard)) σ
      (asking x d name heard) := by
  rw [AssetRepo.createAssets, adheres_bind]
  refine adheres_addAssets _ fun ids ws hws ↦ adheres_bind.2 ?_
  unfold Adheres commit
  rw [show ({ σ with work := σ.work ++ ws } : Session).failed = false from hσ.failed,
    if_neg (by decide), hσ.flushed, hσ.work, List.nil_append, List.nil_append]
  refine ⟨.store hheard hws, fun answer _ ↦ ?_⟩
  have hcomplete := And.intro hheard hws.filterMap_record
  rcases answer with err | -
  · show Interrupted x d name _ (if Complete heard ∧ _ then aside else _)
    rw [if_pos hcomplete]
    exact Or.inl ⟨holds_new, rfl⟩
  · show Adheres discipline _ _ (ids.forM AssetRepo.refreshAsset) _
      (if Complete heard ∧ _ then stored x d name heard else _)
    rw [if_pos hcomplete]
    have hrefresh : (modest (some x)).Keeps (ids.forM AssetRepo.refreshAsset) :=
      keeps_forM (fun id ↦ (keeps_select (q := .asset id) trivial).bindOption (keeps_raise _)
        fun _ ↦ keeps_pure ()) ids
    exact (adheres_stored hrefresh holds_expire).mono (fun _ _ _ ↦ id)
      fun _ _ _ h ↦ Or.inr ⟨heard, h⟩

/-- A loaded domain needs no statement. -/
theorem adheres_readDomain_loaded {P : Domain → Session → Inquiry → Prop}
    {E : Exn → Session → Inquiry → Prop} {row : Domain} {v : Inquiry} (h : σ.domains d = some row)
    (hP : P row σ v) : Adheres discipline P E (readDomain d) σ v := by
  rw [readDomain, adheres_bind, getDomain, adheres_bind, adheres_session, h]
  exact hP

/-- A loaded scan needs no statement. -/
theorem adheres_readScan_loaded {P : Scan → Session → Inquiry → Prop}
    {E : Exn → Session → Inquiry → Prop} {row : Scan} {v : Inquiry} (h : σ.scans x = some row)
    (hP : P row σ v) : Adheres discipline P E (readScan x) σ v := by
  rw [readScan, adheres_bind, getScan, adheres_bind, adheres_session, h]
  exact hP

/-- The body of the inner `try`. -/
theorem adheres_discover {row : Scan} {domain : Domain} (hσ : σ.Clean)
    (hx : σ.scans x = some row) (hid : row.id = x) (hd : σ.domains d = some domain)
    (hdid : domain.id = d) :
    Adheres discipline (fun _ _ _ ↦ True) (fun _ σ' v' ↦ Interrupted x d domain.name σ' v')
      (discover x d) σ (asking x d domain.name []) := by
  have hholds : (modest none).Holds σ := by
    intro w hw
    rw [hσ.flushed, hσ.work] at hw
    exact absurd hw List.not_mem_nil
  rw [discover, adheres_bind]
  refine adheres_readDomain_loaded hd (adheres_bind.2 ?_)
  refine adheres_resolveTypes (fun heard hheard ↦ ?_) (fun _ ↦ Or.inl ⟨hholds, rfl⟩) recordTypes []
    rfl
  rw [adheres_bind]
  refine adheres_readScan_loaded hx (adheres_bind.2 ?_)
  rw [hid, hdid]
  refine (adheres_createAssets hσ hheard).mono ?_ fun _ _ _ ↦ id
  rintro _ σ' v' ⟨hσ', rfl⟩
  have hrest : (modest (some x)).Keeps (do
      let _ ← ScanRepo.markScanCompleted x
      settleDomain x .completed) :=
    keeps_markScanCompleted.bind fun _ ↦ lenient.keeps_settleDomain (fun _ ↦ trivial) x
  exact (adheres_stored hrest hσ').mono (fun _ _ _ _ ↦ trivial) fun _ _ _ h ↦ Or.inr ⟨heard, h⟩

/-- The handlers of the inner `try`. -/
theorem asks_handleDiscoveryError (cfg : Settings) (task : Option ℕ) (e : Exn) {v : Inquiry}
    (h : Interrupted x d name σ v) : Asks (handleDiscoveryError cfg x task e) σ v := by
  rcases h with ⟨hσ, rfl⟩ | ⟨heard, hσ, rfl⟩
  · exact asks_of_keeps (keeps_handler cfg task e) hσ _
  · exact (adheres_stored (keeps_handler cfg task e) hσ).mono (fun _ _ _ _ ↦ trivial)
      fun _ _ _ _ ↦ trivial

/-- Emitting a `SELECT`, where nothing is asked of the exceptions. -/
theorem adheres_select {q : Query} {P : q.Row → Session → Inquiry → Prop} {v : Inquiry}
    (hP : ∀ row, Phase.Possible (.query q) (.ok row) → P row σ (v.observe (.query q) (.ok row))) :
    Adheres discipline P (fun _ _ _ ↦ True) (select q) σ v := by
  unfold Adheres select
  split
  · trivial
  · refine ⟨.modest trivial, fun answer hanswer ↦ ?_⟩
    rcases answer with err | row
    · trivial
    · exact hP row hanswer

/-- `_process_scan` from the `mark_scan_running` call on: the domain is read again, and its name is
the one that is asked for. -/
theorem asks_runDiscovery (cfg : Settings) (task : Option ℕ) {v : Inquiry} (hv : v.Ready x d)
    (hσ : (modest none).Holds σ) : Asks (runDiscovery cfg x d task) σ v := by
  rw [runDiscovery, Asks, adheres_bind]
  refine (adheres_ready (keeps_markScan fun _ ↦ by simp) hσ hv).mono ?_ fun _ _ _ ↦ id
  rintro _ σ₁ v₁ ⟨hσ₁, hv₁⟩
  rw [adheres_bind, ScanRepo.setDomainStatus, adheres_bind]
  refine (adheres_ready (keeps_assignDomain trivial) hσ₁ hv₁).mono ?_ fun _ _ _ ↦ id
  rintro _ σ₂ v₂ ⟨hσ₂, hv₂⟩
  rw [adheres_bind]
  unfold Adheres commit
  split
  · trivial
  next hfailed =>
  refine ⟨.modest hσ₂, fun answer _ ↦ ?_⟩
  rcases answer with err | ⟨⟨⟩⟩
  · trivial
  -- the commit has expired the session, so the domain and the scan are read again
  have hclean : σ₂.expire.Clean := ⟨(Bool.not_eq_true _).mp hfailed, rfl, rfl⟩
  obtain ⟨name, hv₃⟩ := hv₂.observe (o := .commit (.setDomainStatus d) (σ₂.flushed ++ σ₂.work)) hσ₂
    (.ok ())
  show Adheres discipline _ _ (refreshDomain d) σ₂.expire
    (v₂.observe (.commit (.setDomainStatus d) (σ₂.flushed ++ σ₂.work)) (.ok ()))
  rw [hv₃, refreshDomain, adheres_bind, fetchDomain, adheres_bind]
  refine adheres_select fun found hfound ↦ ?_
  rcases found with - | domain
  · trivial
  show Asks (readScan x >>= fun _ ↦ tryExcept (discover x d) (handleDiscoveryError cfg x task))
    (σ₂.expire.loadDomain domain)
    (if d = d then asking x d domain.name [] else asking x d name [])
  rw [if_pos rfl, Asks, adheres_bind, readScan, adheres_bind, getScan, adheres_bind]
  show Adheres discipline _ _ (fetchScan x) (σ₂.expire.loadDomain domain) _
  rw [fetchScan, adheres_bind]
  refine adheres_select fun found' hfound' ↦ ?_
  rcases found' with - | row
  · trivial
  show Asks (tryExcept (discover x d) (handleDiscoveryError cfg x task))
    ((σ₂.expire.loadDomain domain).loadScan row) (asking x d domain.name [])
  have hx := loadScan_scans_self (σ := σ₂.expire.loadDomain domain) row
  have hd := loadDomain_domains_self (σ := σ₂.expire) domain
  rw [show row.id = x from hfound'] at hx
  rw [show domain.id = d from hfound] at hd
  rw [Asks, adheres_tryExcept]
  exact (adheres_discover ((hclean.loadDomain domain).loadScan row) hx hfound' hd hfound).mono
    (fun _ _ _ ↦ id) fun e _ _ h ↦ asks_handleDiscoveryError cfg task e h

/-! ### Threads -/

/-- `_process_scan` inside its outer `try`. -/
theorem asks_processScanBody (cfg : Settings) (task : Option ℕ) :
    Asks (processScanBody cfg x task) .new (opening x none) := by
  rw [processScanBody, Asks, adheres_bind]
  show Adheres discipline _ _ (fetchScan x) new _
  rw [fetchScan, adheres_bind]
  refine adheres_select fun found hfound ↦ ?_
  rcases found with - | row
  · trivial
  have hid : row.id = x := hfound
  have hσ : (modest none).Holds (new.loadScan row) := holds_new.loadScan row
  show Adheres discipline _ _ (if ¬ row.status.IsActive then pure () else _) (new.loadScan row)
    (if x = x then opening x (some row.domainId) else _)
  rw [if_pos rfl]
  split
  · trivial
  rw [adheres_bind]
  show Adheres discipline _ _ (fetchDomain row.domainId) (new.loadScan row) _
  rw [fetchDomain, adheres_bind]
  refine adheres_select fun found hfound ↦ ?_
  rcases found with - | domain
  · have hfail : (modest none).Keeps (do
        let _ ← ScanRepo.markScanFailed x "Domain no longer exists"
        return ()) := (keeps_markScan fun _ ↦ by simp).bind fun _ ↦ keeps_pure ()
    exact asks_of_keeps hfail hσ _
  · have hdid : domain.id = row.domainId := hfound
    have hguard : (modest none).Keeps (ScanRepo.domainHasRunningScan domain.id) :=
      (keeps_select (q := .runningScan domain.id) trivial).bind fun _ ↦ keeps_pure _
    show Adheres discipline _ _ (ScanRepo.domainHasRunningScan domain.id >>= _)
      ((new.loadScan row).loadDomain domain)
      (if row.domainId = row.domainId then asking x row.domainId domain.name [] else _)
    rw [if_pos rfl, adheres_bind]
    refine (adheres_ready hguard (hσ.loadDomain domain) ⟨domain.name, rfl⟩).mono ?_ fun _ _ _ ↦ id
    rintro running σ' v' ⟨hσ', hv'⟩
    split
    · trivial
    · rw [hdid]
      exact asks_runDiscovery cfg task hv' hσ'

/-- A worker that is started for a message. -/
theorem follows_worker (cfg : Settings) (m : Message) :
    (Py.start (runDiscoveryScan cfg m)).Follows discipline (fun _ _ ↦ True)
      (opening m.scan none) := by
  have hprocess : Asks (processScan cfg m.scan (some m.retries)) .new (opening m.scan none) :=
    Program.follows_bind.2 (Program.Follows.mono (asks_processScanBody cfg (some m.retries))
      fun q v _ ↦ ⟨.modest trivial, fun _ _ ↦ asks_end _ _⟩)
  have hrun : Asks (runDiscoveryScan cfg m) .new (opening m.scan none) :=
    adheres_bind.2 (hprocess.mono (fun _ _ _ _ ↦ trivial) fun _ _ _ _ ↦ trivial)
  exact Program.follows_bind.2 (Program.Follows.mono hrun fun _ _ _ ↦ trivial)

/-- A request, or an API process that starts. -/
theorem follows_request (u : Unicode) (r : Request) :
    (Py.start (r.code u)).Follows discipline (fun _ _ ↦ True) aside :=
  Program.follows_bind.2 (Program.Follows.mono (asks_of_keeps (keeps_code u r) holds_new aside)
    fun _ _ _ ↦ trivial)

end Inquiry

end AssetDiscovery
