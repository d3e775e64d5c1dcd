import AssetDiscovery.Library.Pool
import AssetDiscovery.Services

/-!
# Conduct

What can be said of the code without following the values it computes: which operations it asks for
and which statements it carries out, under an arbitrary discipline. A `Conduct` is a discipline with
the views in which all but the delicate operations are allowed and change nothing; which operations
are *delicate* (looking for the next scan, publishing, asking the resolver, closing the session) is
the same for all of them. `Conduct.Keeps` is the property of code that asks for no delicate
operation.

The functions of the repositories and the parts of the services and of the worker are gone through
once here, for every conduct. A result about a particular discipline then has to deal with the
delicate operations only.
-/

set_option autoImplicit false

namespace AssetDiscovery

open Effect

/-- A status that is not assigned is not in the shortened `UPDATE` either. -/
theorem ScanPatch.diff_status_ne {p : ScanPatch} {st : ScanStatus} (h : p.status ≠ some st)
    (row : Scan) : (p.diff row).status ≠ some st :=
  fun h' ↦ h (Option.eq_some_of_filter_eq_some h')

namespace Py

variable {V : Type} {α β : Type}

/-- What holds after code that has returned, or has raised. -/
def settled (P : α → Session → V → Prop) (E : Exn → Session → V → Prop) :
    Except Exn α × Session → V → Prop
  | (.ok a, σ), v => P a σ v
  | (.error e, σ), v => E e σ v

/-- From a session and a view on, the code follows a discipline, whatever it is answered; it returns
in `P` or raises in `E`. -/
def Adheres (D : Discipline Op Op.Res V) (P : α → Session → V → Prop)
    (E : Exn → Session → V → Prop) (m : Py α) (σ : Session) (v : V) : Prop :=
  (m σ).Follows D (settled P E) v

variable {D : Discipline Op Op.Res V} {P : α → Session → V → Prop}
  {E : Exn → Session → V → Prop} {σ : Session} {v : V}

/-- Weaker ends are reached as well. -/
theorem Adheres.mono {P' : α → Session → V → Prop} {E' : Exn → Session → V → Prop} {m : Py α}
    (h : Adheres D P E m σ v) (hP : ∀ a σ v, P a σ v → P' a σ v)
    (hE : ∀ e σ v, E e σ v → E' e σ v) : Adheres D P' E' m σ v := by
  refine Program.Follows.mono h ?_
  rintro ⟨e | a, σ'⟩ v' h'
  · exact hE e σ' v' h'
  · exact hP a σ' v' h'

theorem adheres_session {P : Session → Session → V → Prop} :
    Adheres D P E session σ v ↔ P σ σ v :=
  Iff.rfl

/-- The rule of sequential composition; an exception skips the second part. -/
theorem adheres_bind {P : β → Session → V → Prop} {m : Py α} {f : α → Py β} :
    Adheres D P E (m >>= f) σ v ↔ Adheres D (fun a σ v ↦ Adheres D P E (f a) σ v) E m σ v := by
  refine Program.follows_bind.trans (Program.follows_congr ?_)
  rintro ⟨e | a, σ'⟩ v' <;> rfl

/-- The handler begins in the session and in the phase that the exception has left. -/
theorem adheres_tryExcept {m : Py α} {handler : Exn → Py α} :
    Adheres D P E (tryExcept m handler) σ v ↔
      Adheres D P (fun e σ v ↦ Adheres D P E (handler e) σ v) m σ v := by
  refine Program.follows_bind.trans (Program.follows_congr ?_)
  rintro ⟨e | a, σ'⟩ v' <;> rfl

end Py

/-- The operations that code may ask for anywhere, if its transactions consist of the statements
that it may add. -/
def Op.Plain (write : Write → Prop) : Op → Prop
  | .query (.nextPending _) => False
  | .query _ => True
  | .flush ws => ∀ w ∈ ws, write w
  | .commit _ ws => ∀ w ∈ ws, write w
  | .publish _ => False
  | .close => False
  | .rollback => True
  | .lookup _ _ => False
  | .now => True
  | .uuid4 => True

/-- A discipline with the views in which code is at work. -/
structure Conduct (V : Type) where
  discipline : Discipline Op Op.Res V
  /-- The code is at work in this view. -/
  At : V → Prop
  /-- The statements that it may add. -/
  write : Write → Prop
  /-- While it is at work, plain operations are allowed and leave it at work. -/
  plain : ∀ {v o}, At v → o.Plain write →
    discipline.Allowed v o ∧ ∀ r, discipline.observe v o r = v

namespace Conduct

open Py

variable {V : Type} (C : Conduct V) {α β : Type}

/-- The operation is allowed where the code is at work, and leaves its view as it is. -/
def Passes (o : Op) : Prop :=
  ∀ v, C.At v → C.discipline.Allowed v o ∧ ∀ r, C.discipline.observe v o r = v

/-- The open transaction consists of statements that the code may add. -/
def Holds (σ : Session) : Prop :=
  ∀ w ∈ σ.flushed ++ σ.work, C.write w

/-- Code that asks for plain operations only, and so leaves its view as it is. -/
def Keeps (m : Py α) : Prop :=
  ∀ σ v, C.At v → C.Holds σ →
    Adheres C.discipline (fun _ σ' v' ↦ C.Holds σ' ∧ v' = v) (fun _ σ' v' ↦ C.Holds σ' ∧ v' = v)
      m σ v

/-- Code that is at work until it returns, in a view with property `F`. After an exception it is
still at work, and if the exception is retryable it has asked for plain operations only. -/
def Ends (F : V → Prop) (m : Py α) : Prop :=
  ∀ σ v, C.At v → C.Holds σ →
    Adheres C.discipline (fun _ _ ↦ F)
      (fun e σ' v' ↦ C.Holds σ' ∧ C.At v' ∧ (e.IsRetryable → v' = v)) m σ v

variable {C} {σ : Session} {v : V}

/-- A plain operation passes whatever the phase is. -/
theorem Passes.of_plain {o : Op} (ho : o.Plain C.write) : C.Passes o :=
  fun _ hv ↦ C.plain hv ho

/-- A new session holds no statements. -/
theorem holds_new : C.Holds Session.new :=
  fun _ hw ↦ absurd hw List.not_mem_nil

/-- Neither does a session after a commit. -/
theorem holds_expire : C.Holds σ.expire :=
  fun _ hw ↦ absurd hw List.not_mem_nil

/-- Loading a row adds no statement. -/
theorem Holds.loadScan (h : C.Holds σ) (row : Scan) : C.Holds (σ.loadScan row) := h

theorem Holds.loadDomain (h : C.Holds σ) (row : Domain) : C.Holds (σ.loadDomain row) := h

/-- A statement of the conduct may be added. -/
theorem Holds.addWork (h : C.Holds σ) {w : Write} (hw : C.write w) : C.Holds (σ.addWork w) := by
  intro w' hw'
  rw [Session.addWork, ← List.append_assoc] at hw'
  rcases List.mem_append.1 hw' with hw' | hw'
  · exact h w' hw'
  · exact List.mem_singleton.1 hw' ▸ hw

/-! ### Composing -/

/-- The rule of sequential composition. -/
theorem Keeps.bind {m : Py α} {f : α → Py β} (hm : C.Keeps m) (hf : ∀ a, C.Keeps (f a)) :
    C.Keeps (m >>= f) := by
  refine fun σ v hv hσ ↦ adheres_bind.2 ((hm σ v hv hσ).mono ?_ fun _ _ _ ↦ id)
  rintro a σ' v' ⟨hσ', rfl⟩
  exact hf a σ' v' hv hσ'

/-- Code ends as its second part does. -/
theorem Ends.bind {F : V → Prop} {m : Py α} {f : α → Py β} (hm : C.Keeps m)
    (hf : ∀ a, C.Ends F (f a)) : C.Ends F (m >>= f) := by
  refine fun σ v hv hσ ↦ adheres_bind.2 ((hm σ v hv hσ).mono ?_ ?_)
  · rintro a σ' v' ⟨hσ', rfl⟩
    exact hf a σ' v' hv hσ'
  · rintro e σ' v' ⟨hσ', rfl⟩
    exact ⟨hσ', hv, fun _ ↦ rfl⟩

/-- What a lookup has found decides how the code goes on. -/
theorem Keeps.bindOption {m : Py (Option α)} {f : Option α → Py β} (hm : C.Keeps m)
    (hnone : C.Keeps (f none)) (hsome : ∀ a, C.Keeps (f (some a))) : C.Keeps (m >>= f) := by
  refine hm.bind fun found ↦ ?_
  cases found with
  | none => exact hnone
  | some a => exact hsome a

theorem Ends.bindOption {F : V → Prop} {m : Py (Option α)} {f : Option α → Py β}
    (hm : C.Keeps m) (hnone : C.Ends F (f none)) (hsome : ∀ a, C.Ends F (f (some a))) :
    C.Ends F (m >>= f) := by
  refine Ends.bind hm fun found ↦ ?_
  cases found with
  | none => exact hnone
  | some a => exact hsome a

/-- A handler keeps to the conduct if it does so after any exception. -/
theorem Keeps.tryExcept {m : Py α} {handler : Exn → Py α} (hm : C.Keeps m)
    (hhandler : ∀ e, C.Keeps (handler e)) : C.Keeps (tryExcept m handler) := by
  refine fun σ v hv hσ ↦ adheres_tryExcept.2 ((hm σ v hv hσ).mono (fun _ _ _ ↦ id) ?_)
  rintro e σ' v' ⟨hσ', rfl⟩
  exact hhandler e σ' v' hv hσ'

/-- Code with the session that it closes. -/
theorem Keeps.tryFinally_close {m : Py α} (hm : C.Keeps m) (hclose : C.Passes .close) :
    C.Keeps (tryFinally m close) := by
  intro σ v hv hσ
  refine Program.follows_bind.2 (Program.Follows.mono (hm σ v hv hσ) ?_)
  rintro ⟨e | a, σ'⟩ v' ⟨hσ', rfl⟩
  · exact ⟨(hclose v' hv).1, fun r _ ↦ ⟨hσ', (hclose v' hv).2 r⟩⟩
  · exact ⟨(hclose v' hv).1, fun r _ ↦ ⟨hσ', (hclose v' hv).2 r⟩⟩

theorem keeps_pure (a : α) : C.Keeps (pure a) := fun _ _ _ h ↦ ⟨h, rfl⟩

theorem keeps_raise (e : Exn) : C.Keeps (raise e : Py α) := fun _ _ _ h ↦ ⟨h, rfl⟩

theorem keeps_session : C.Keeps session := fun _ _ _ h ↦ ⟨h, rfl⟩

theorem keeps_modify {f : Session → Session} (hf : ∀ σ, C.Holds σ → C.Holds (f σ)) :
    C.Keeps (modify f) := fun σ _ _ h ↦ ⟨hf σ h, rfl⟩

/-- A loop keeps to the conduct if its body does. -/
theorem keeps_forM {f : α → Py Unit} (hf : ∀ a, C.Keeps (f a)) (as : List α) :
    C.Keeps (as.forM f) := by
  induction as with
  | nil => exact keeps_pure ()
  | cons a as ih => exact (hf a).bind fun _ ↦ ih

/-- Code that keeps to a conduct keeps to a discipline with more views, among those that the
operations of the conduct do not leave. -/
theorem Keeps.within {C : Conduct Unit} {D : Discipline Op Op.Res V} {S : V → Prop} {m : Py α}
    (h : C.Keeps m) (hC : C.At ())
    (hS : ∀ v o, S v → C.discipline.Allowed () o → D.Allowed v o ∧ ∀ r, D.Possible o r →
      C.discipline.Possible o r ∧ S (D.observe v o r))
    (hσ : C.Holds σ) {v : V} (hv : S v) :
    Adheres D (fun _ σ' v' ↦ C.Holds σ' ∧ S v') (fun _ σ' v' ↦ C.Holds σ' ∧ S v') m σ v := by
  refine Program.Follows.mono
    (Program.Follows.simulate (fun _ v' o hv' ho ↦ hS v' o hv' ho) (h σ () hC hσ) hv) ?_
  rintro ⟨e | a, σ'⟩ v' ⟨-, hv', hσ', -⟩
  · exact ⟨hσ', hv'⟩
  · exact ⟨hσ', hv'⟩

/-! ### Operations -/

/-- An operation that passes may be carried out. -/
theorem Passes.keeps_call {o : Op} (ho : C.Passes o) : C.Keeps (call o) := by
  intro σ v hv h
  obtain ⟨hallowed, hview⟩ := ho v hv
  exact ⟨hallowed, fun r _ ↦ ⟨h, hview r⟩⟩

theorem keeps_call {o : Op} (ho : o.Plain C.write) : C.Keeps (call o) :=
  (Passes.of_plain ho).keeps_call

/-- A query that passes may be carried out. -/
theorem Passes.keeps_select {q : Query} (hq : C.Passes (.query q)) : C.Keeps (select q) := by
  intro σ v hv h
  unfold Adheres select
  split
  · exact ⟨h, rfl⟩
  · obtain ⟨hallowed, hview⟩ := hq v hv
    refine ⟨hallowed, fun r _ ↦ ?_⟩
    cases r with
    | ok row => exact ⟨h, hview _⟩
    | error err => exact ⟨h, hview _⟩

theorem keeps_select {q : Query} (hq : (Op.query q).Plain C.write) : C.Keeps (select q) :=
  (Passes.of_plain hq).keeps_select

theorem keeps_flush : C.Keeps flush := by
  intro σ v hv h
  unfold Adheres flush
  split
  · exact ⟨h, rfl⟩
  · obtain ⟨hallowed, hview⟩ := C.plain (o := .flush (σ.flushed ++ σ.work)) hv h
    refine ⟨hallowed, fun r _ ↦ ?_⟩
    cases r with
    | ok _ => exact ⟨by rwa [Holds, List.append_nil], hview _⟩
    | error err => exact ⟨holds_new, hview _⟩

/-- A commit carries out the statements that the session holds. -/
theorem keeps_commit (site : Site) : C.Keeps (commit site) := by
  intro σ v hv h
  unfold Adheres commit
  split
  · exact ⟨h, rfl⟩
  · obtain ⟨hallowed, hview⟩ := C.plain (o := .commit site (σ.flushed ++ σ.work)) hv h
    refine ⟨hallowed, fun r _ ↦ ?_⟩
    cases r with
    | ok _ => exact ⟨holds_new, hview _⟩
    | error err => exact ⟨holds_new, hview _⟩

theorem keeps_rollback : C.Keeps rollback := by
  intro σ v hv h
  obtain ⟨hallowed, hview⟩ := C.plain (o := .rollback) hv trivial
  exact ⟨hallowed, fun r _ ↦ ⟨holds_new, hview r⟩⟩

theorem keeps_add {w : Write} (hw : C.write w) : C.Keeps (add w) :=
  keeps_modify fun _ h ↦ h.addWork hw

/-! ### Instances -/

/-- Reading a row adds no statement. -/
theorem keeps_fetchScan (x : Id) : C.Keeps (fetchScan x) :=
  (keeps_select (q := .scan x) trivial).bindOption (keeps_pure none) fun row ↦
    (keeps_modify fun _ h ↦ h.loadScan row).bind fun _ ↦ keeps_pure (some row)

theorem keeps_fetchDomain (d : Id) : C.Keeps (fetchDomain d) :=
  (keeps_select (q := .domain d) trivial).bindOption (keeps_pure none) fun row ↦
    (keeps_modify fun _ h ↦ h.loadDomain row).bind fun _ ↦ keeps_pure (some row)

theorem keeps_getScan (x : Id) : C.Keeps (getScan x) := by
  refine keeps_session.bind fun σ ↦ ?_
  split
  · exact keeps_pure _
  · exact keeps_fetchScan x

theorem keeps_getDomain (d : Id) : C.Keeps (getDomain d) := by
  refine keeps_session.bind fun σ ↦ ?_
  split
  · exact keeps_pure _
  · exact keeps_fetchDomain d

theorem keeps_readScan (x : Id) : C.Keeps (readScan x) :=
  (keeps_getScan x).bindOption (keeps_raise _) keeps_pure

theorem keeps_refreshScan (x : Id) : C.Keeps (refreshScan x) :=
  (keeps_fetchScan x).bindOption (keeps_raise _) keeps_pure

theorem keeps_readDomain (d : Id) : C.Keeps (readDomain d) :=
  (keeps_getDomain d).bindOption (keeps_raise _) keeps_pure

theorem keeps_refreshDomain (d : Id) : C.Keeps (refreshDomain d) :=
  (keeps_fetchDomain d).bindOption (keeps_raise _) keeps_pure

/-- Assigning attributes of a scan adds an `UPDATE` of the columns, or of those that differ from the
loaded values. -/
theorem keeps_assignScan {x : Id} {patch : ScanPatch} (h : C.write (.updateScan x patch))
    (h' : ∀ row, C.write (.updateScan x (patch.diff row))) : C.Keeps (assignScan x patch) := by
  refine keeps_modify fun σ hσ ↦ ?_
  unfold Session.assignScan
  split
  · exact hσ.addWork h
  · split
    · exact hσ
    · exact (hσ.loadScan _).addWork (h' _)

theorem keeps_assignDomain {d : Id} {st : DomainStatus} (h : C.write (.updateDomain d st)) :
    C.Keeps (assignDomain d st) := by
  refine keeps_modify fun σ hσ ↦ ?_
  unfold Session.assignDomain
  split
  · exact hσ.addWork h
  · split
    · exact hσ
    · exact (hσ.loadDomain _).addWork h

/-! ### Repositories -/

/-- The three functions that mark a scan keep to a conduct that allows their patches, whole or
against the loaded values. -/
theorem keeps_markScan {site : Site} {x : Id} {patch : Time → ScanPatch}
    (h : ∀ t, C.write (.updateScan x (patch t)))
    (h' : ∀ t row, C.write (.updateScan x ((patch t).diff row))) :
    C.Keeps (ScanRepo.markScan site x patch) :=
  (keeps_call (o := .now) trivial).bind fun t ↦ (keeps_assignScan (h t) (h' t)).bind fun _ ↦
    (keeps_commit site).bind fun _ ↦ keeps_refreshScan x

/-- `set_domain_status` keeps to a conduct that allows its statement. -/
theorem keeps_setDomainStatus {d : Id} {st : DomainStatus} (h : C.write (.updateDomain d st)) :
    C.Keeps (ScanRepo.setDomainStatus d st) :=
  (keeps_assignDomain h).bind fun _ ↦ (keeps_commit _).bind fun _ ↦ keeps_refreshDomain d

/-- Adding the assets of a scan keeps to a conduct that allows each of them. -/
theorem keeps_addAssets {x d : Id} (h : ∀ id type value, C.write (.insertAsset id x d type value))
    (records : List (AssetType × String)) : C.Keeps (AssetRepo.addAssets x d records) := by
  induction records with
  | nil => exact keeps_pure []
  | cons record records ih =>
    exact (keeps_call (o := .uuid4) trivial).bind fun id ↦ (keeps_add (h id _ _)).bind fun _ ↦
      ih.bind fun _ ↦ keeps_pure _

/-- So does `create_assets`. -/
theorem keeps_createAssets {x d : Id}
    (h : ∀ id type value, C.write (.insertAsset id x d type value))
    (records : List (AssetType × String)) : C.Keeps (AssetRepo.createAssets x d records) :=
  (keeps_addAssets h records).bind fun ids ↦ (keeps_commit _).bind fun _ ↦
    keeps_forM (fun id ↦ (keeps_select (q := .asset id) trivial).bindOption (keeps_raise _)
      fun _ ↦ keeps_pure ()) ids

/-- `create_scan` keeps to a conduct that allows the insertion. -/
theorem keeps_createScan {d : Id} {user : Option Id}
    (h : ∀ id, C.write (.insertScan id d .pending user)) :
    C.Keeps (ScanRepo.createScan d user) :=
  (keeps_call (o := .uuid4) trivial).bind fun id ↦ (keeps_add (h id)).bind fun _ ↦
    (keeps_commit _).bind fun _ ↦ (keeps_refreshScan id).bind fun _ ↦ keeps_pure id

theorem keeps_createScanUncommitted {d : Id} {user : Option Id}
    (h : ∀ id, C.write (.insertScan id d .pending user)) :
    C.Keeps (ScanRepo.createScanUncommitted d user) :=
  (keeps_call (o := .uuid4) trivial).bind fun id ↦ (keeps_add (h id)).bind fun _ ↦
    keeps_flush.bind fun _ ↦ keeps_pure id

/-- `create_domain` keeps to a conduct that allows the insertion. -/
theorem keeps_createDomain {name : String} {user : Id} {st : DomainStatus}
    (h : ∀ id, C.write (.insertDomain id name st user)) :
    C.Keeps (DomainRepo.createDomain name user st) :=
  (keeps_call (o := .uuid4) trivial).bind fun id ↦ (keeps_add (h id)).bind fun _ ↦
    (keeps_commit _).bind fun _ ↦ keeps_refreshDomain id

/-! ### The worker -/

/-- The lookups of `resolve_domain_records` are all it asks for. -/
theorem keeps_resolveTypes {name : String} (hlookup : ∀ type, C.Passes (.lookup name type))
    (types : List AssetType) (results : List (AssetType × String)) :
    C.Keeps (resolveTypes name types results) := by
  induction types generalizing results with
  | nil => exact keeps_pure results
  | cons type types ih =>
    refine (hlookup type).keeps_call.bind fun answer ↦ ?_
    cases answer with
    | answer rdatas => exact ih _
    | nxdomain | noAnswer | noNameservers => exact ih _
    | timeout | dnsError | otherError => exact keeps_raise _

variable (C) in
/-- A conduct about the statements and the look-ups of the code: all other operations pass. -/
structure Lenient : Prop where
  next : ∀ d, C.Passes (.query (.nextPending d))
  publish : ∀ m, C.Passes (.publish m)
  close : C.Passes .close

/-- A lenient conduct allows every publish. -/
theorem Lenient.keeps_enqueueScan (hC : C.Lenient) (x : Id) : C.Keeps (enqueueScan x) := by
  refine (hC.publish ⟨x, 0⟩).keeps_call.bind fun answer ↦ ?_
  cases answer with
  | ok _ => exact keeps_pure ()
  | error text => exact keeps_raise _

theorem Lenient.keeps_enqueueNextPendingForDomain (hC : C.Lenient) (d : Id) :
    C.Keeps (enqueueNextPendingForDomain d) :=
  (hC.next d).keeps_select.bindOption (keeps_pure ()) hC.keeps_enqueueScan

/-- It allows to pass a last status on to the domain. -/
theorem Lenient.keeps_settleDomain (hC : C.Lenient) {st : DomainStatus}
    (h : ∀ d, C.write (.updateDomain d st)) (x : Id) : C.Keeps (settleDomain x st) := by
  have hnext : C.Keeps (do
      let scan ← readScan x
      enqueueNextPendingForDomain scan.domainId) :=
    (keeps_readScan x).bind fun scan ↦ hC.keeps_enqueueNextPendingForDomain scan.domainId
  exact (keeps_readScan x).bind fun _ ↦ (keeps_getDomain _).bindOption hnext fun _ ↦
    (keeps_setDomainStatus (h _)).bind fun _ ↦ hnext

/-- `_fail_scan`, where the statements that it may add include those that complete no scan. -/
theorem Lenient.keeps_failScan (hC : C.Lenient) {x : Id}
    (hx : ∀ p : ScanPatch, p.status ≠ some .completed → C.write (.updateScan x p))
    (hd : ∀ d st, C.write (.updateDomain d st)) (message : String) :
    C.Keeps (failScan x message) :=
  (keeps_markScan (fun _ ↦ hx _ (by simp)) fun _ row ↦
    hx _ (ScanPatch.diff_status_ne (by simp) row)).bind fun _ ↦
      hC.keeps_settleDomain (fun d ↦ hd d .failed) x

/-- It allows to publish the next attempt. -/
theorem Lenient.keeps_taskRetry (hC : C.Lenient) (x : Id) (retries : ℕ) :
    C.Keeps (taskRetry x retries) := by
  refine (hC.publish ⟨x, retries + 1⟩).keeps_call.bind fun answer ↦ ?_
  cases answer with
  | ok _ => exact keeps_raise _
  | error text => exact keeps_raise _

/-- The handlers of the inner `try`. -/
theorem Lenient.keeps_handleDiscoveryError (hC : C.Lenient) {x : Id}
    (hx : ∀ p : ScanPatch, p.status ≠ some .completed → C.write (.updateScan x p))
    (hd : ∀ d st, C.write (.updateDomain d st)) (cfg : Settings) (task : Option ℕ) (e : Exn) :
    C.Keeps (handleDiscoveryError cfg x task e) := by
  have hfail : C.Keeps (do
      let _ ← readScan x
      failScan x e.message) := (keeps_readScan x).bind fun _ ↦ hC.keeps_failScan hx hd _
  unfold handleDiscoveryError
  split
  · refine (keeps_readScan x).bind fun _ ↦ ?_
    split
    · split
      · exact hC.keeps_taskRetry x _
      · exact hfail
    · exact hfail
  · exact hfail

/-! ### Requests -/

/-- It allows the initial scan of a domain. -/
theorem Lenient.keeps_enqueueInitialScan (hC : C.Lenient) {d : Id} {user : Option Id}
    (hscan : ∀ id, C.write (.insertScan id d .pending user))
    (hd : ∀ d st, C.write (.updateDomain d st)) :
    C.Keeps (ScanService.enqueueInitialScan d user) := by
  have henqueue : ∀ scan, C.Keeps (do
      let row ← readScan scan
      enqueueScan row.id) := fun scan ↦
    (keeps_readScan scan).bind fun row ↦ hC.keeps_enqueueScan _
  refine (keeps_createScan hscan).bind fun scan ↦
    (keeps_getDomain d).bindOption (henqueue scan) fun domain ↦ ?_
  show C.Keeps (if domain.status ≠ .running then _ else _)
  split
  · exact (keeps_setDomainStatus (hd _ _)).bind fun _ ↦ henqueue scan
  · exact henqueue scan

/-- The service's `create_domain`: only a name that the validator returns is stored. -/
theorem Lenient.keeps_create (hC : C.Lenient) {user : Id}
    (hdomain : ∀ id name, IsDomainName name.toList → C.write (.insertDomain id name .pending user))
    (hscan : ∀ id d, C.write (.insertScan id d .pending (some user)))
    (hd : ∀ d st, C.write (.updateDomain d st)) (u : Unicode) (payload : String) :
    C.Keeps (DomainService.createDomain u payload user) := by
  rw [DomainService.createDomain, normalizeAndValidateFqdn_eq]
  split
  · next hname =>
    have hvalid : IsDomainName (String.ofList (normalized u payload)).toList := by
      rw [String.toList_ofList]
      exact isFqdn_iff.1 hname
    show C.Keeps (DomainRepo.getDomainByName _ >>= _)
    refine (keeps_select (q := .domainByName _) trivial).bindOption ?_ fun _ ↦ keeps_raise _
    refine (keeps_createDomain fun id ↦ hdomain id _ hvalid).bind fun domain ↦ ?_
    exact (hC.keeps_enqueueInitialScan (fun id ↦ hscan id _) hd).bind fun _ ↦
      (keeps_readDomain domain.id).bind fun row ↦ keeps_pure _
  · exact keeps_raise (α := Response) _

theorem keeps_getDomainByIdForUpdate (d : Id) : C.Keeps (DomainRepo.getDomainByIdForUpdate d) :=
  (keeps_select (q := .domainForUpdate d) trivial).bindOption (keeps_pure none) fun row ↦
    (keeps_modify fun _ h ↦ h.loadDomain row).bind fun _ ↦ keeps_pure (some row)

theorem keeps_domainHasActiveScan (d : Id) : C.Keeps (ScanRepo.domainHasActiveScan d) :=
  (keeps_select (q := .activeScan d) trivial).bind fun _ ↦ keeps_pure _

/-- `trigger_manual_scan`. -/
theorem Lenient.keeps_trigger (hC : C.Lenient) {d user : Id}
    (hscan : ∀ id, C.write (.insertScan id d .pending (some user)))
    (hd : C.write (.updateDomain d .pending)) :
    C.Keeps (ScanService.triggerManualScan d user) := by
  refine (keeps_getDomainByIdForUpdate d).bindOption (keeps_raise _) fun row ↦
    (keeps_domainHasActiveScan d).bind fun active ↦ ?_
  split
  · exact keeps_rollback.bind fun _ ↦ keeps_raise _
  · refine (keeps_createScanUncommitted hscan).bind fun scan ↦
      (keeps_readDomain d).bind fun domain ↦ ?_
    have hassign : C.Keeps
        (if domain.status ≠ .running then assignDomain d .pending else pure ()) := by
      split
      · exact keeps_assignDomain hd
      · exact keeps_pure ()
    exact hassign.bind fun _ ↦ (keeps_commit _).bind fun _ ↦ (keeps_refreshScan scan).bind
      fun row ↦ (hC.keeps_enqueueScan row.id).bind fun _ ↦ keeps_pure _

/-- The service's `delete_domain`. -/
theorem keeps_delete {d : Id} (h : C.write (.deleteDomain d)) :
    C.Keeps (DomainService.deleteDomain d) := by
  refine (keeps_getDomain d).bindOption (keeps_raise _) fun _ ↦ ?_
  have hdelete : C.Keeps (DomainRepo.deleteDomain d) :=
    (keeps_select (q := .scansOf d) trivial).bind fun scans ↦
      (keeps_forM (fun s ↦ (keeps_select (q := .assetsOf s.id) trivial).bind fun _ ↦
        keeps_pure ()) scans).bind fun _ ↦ (keeps_add h).bind fun _ ↦ keeps_commit _
  exact hdelete.bind fun _ ↦ keeps_pure _

/-- `recover_pending_jobs`, with its session. -/
theorem Lenient.keeps_recoverPendingJobs (hC : C.Lenient)
    (hx : ∀ x (p : ScanPatch), p.status ≠ some .completed → C.write (.updateScan x p)) :
    C.Keeps recoverPendingJobs := by
  have hpatch : ScanRepo.interruptedPatch.status ≠ some .completed := by decide
  have hreset : C.Keeps ScanRepo.resetInterruptedScans := by
    refine (keeps_select (q := .runningScans) trivial).bind fun scans ↦
      (keeps_forM (fun row ↦ (keeps_modify fun _ h ↦ h.loadScan row).bind fun _ ↦
        keeps_assignScan (hx _ _ hpatch) fun row ↦
          hx _ _ (ScanPatch.diff_status_ne hpatch row)) scans).bind fun _ ↦ ?_
    split
    · exact keeps_pure _
    · exact (keeps_commit _).bind fun _ ↦ keeps_pure _
  refine Keeps.tryFinally_close ?_ hC.close
  exact hreset.bind fun _ ↦ (keeps_select (q := .recoverableIds) trivial).bind fun ids ↦
    keeps_forM hC.keeps_enqueueScan ids

end Conduct

end AssetDiscovery
