import AssetDiscovery.Alone.Worker

/-!
# Requests and the recovery, run alone

`Created`, `Triggered`, `Deleted` and `Recovered` list how each request can end when no statement
fails, with what it does to the rows, to the board, to the ledger and to the queue. The broker may
be down: then the publish at the end of `create_domain` and of `trigger_manual_scan` fails, after
everything has been committed.
-/

set_option autoImplicit false

namespace AssetDiscovery

open Effect

/-! ### What the requests do -/

/-- A new PENDING scan `x` of domain `d` is all that has happened to the scans and the assets. -/
structure Enrolled (db : Database) (x d : Id) (db' : Database) : Prop where
  free : db.scans.get x = none
  scans : ∃ user now, db'.scans.rows =
    db.scans.rows ++ [⟨x, d, .pending, user, none, none, none, now⟩]
  assets : db'.assets = db.assets

/-- A PENDING scan `x` of domain `d` has been inserted, and the domain waits for it unless it is
RUNNING. -/
structure Queued (db : Database) (x d : Id) (db' : Database) : Prop extends
    Enrolled db x d db' where
  board : ∀ q, db'.board q = (db.board q).addScan x d
  ledger : db'.ledger = if db.ledger.domains d = some .running then db.ledger.addScan x d
    else (db.ledger.addScan x d).setDomain d .pending

/-- How `trigger_manual_scan` ends. -/
inductive Triggered (up : Bool) (d : Id) (db : Database) (q : List Message) :
    Except Exn Response → Database → List Message → Prop
  | missing (h : db.domains.get d = none) :
    Triggered up d db q (.error (.http 404 "Domain not found")) db q
  | occupied {x : Id} (hx : (db.board q).HasActive x d) :
    Triggered up d db q (.error (.http 409 "A scan is already running for this domain")) db q
  | accepted {x : Id} {db' : Database} (hup : up = true) (hd : (db.domains.get d).isSome)
      (hfree : ∀ x, ¬ (db.board q).HasActive x d) (h : Queued db x d db') :
    Triggered up d db q (.ok (.trigger x .pending)) db' (q ++ [⟨x, 0⟩])
  | unannounced {x : Id} {text : String} {db' : Database} (hup : up = false)
      (hd : (db.domains.get d).isSome) (hfree : ∀ x, ¬ (db.board q).HasActive x d)
      (h : Queued db x d db') : Triggered up d db q (.error (.broker text)) db' q

/-- A domain `d` with the name `name` has been stored, and its initial scan `x`. -/
structure Registered (db : Database) (x d : Id) (name : String) (db' : Database) : Prop extends
    Enrolled db x d db' where
  new : db.domains.get d = none
  domains : ∃ user now, db'.domains.rows = db.domains.rows ++ [⟨d, name, .pending, user, now⟩]
  board : ∀ q, db'.board q = (db.board q).addScan x d
  ledger : db'.ledger = (db.ledger.addDomain d .pending).addScan x d

/-- How `create_domain` ends. -/
inductive Created (u : Unicode) (up : Bool) (payload : String) (db : Database) (q : List Message) :
    Except Exn Response → Database → List Message → Prop
  | invalid (h : ¬ IsFqdn (normalized u payload)) :
    Created u up payload db q (.error (.http 400 "Invalid FQDN")) db q
  | taken (h : (db.domainByName (String.ofList (normalized u payload))).isSome) :
    Created u up payload db q (.error (.http 409 "Domain already exists")) db q
  | created {x d : Id} {name : String} {db' : Database} (hup : up = true)
      (hvalid : IsFqdn (normalized u payload))
      (hnew : db.domainByName (String.ofList (normalized u payload)) = none)
      (hname : name = String.ofList (normalized u payload)) (h : Registered db x d name db') :
    Created u up payload db q (.ok (.domain d name .pending)) db' (q ++ [⟨x, 0⟩])
  | unannounced {x d : Id} {text : String} {db' : Database} (hup : up = false)
      (hvalid : IsFqdn (normalized u payload))
      (hnew : db.domainByName (String.ofList (normalized u payload)) = none)
      (h : Registered db x d (String.ofList (normalized u payload)) db') :
    Created u up payload db q (.error (.broker text)) db' q

/-- How `delete_domain` ends. -/
inductive Deleted (d : Id) (db : Database) : Except Exn Response → Database → Prop
  | missing (h : db.domains.get d = none) :
    Deleted d db (.error (.http 404 "Domain not found")) db
  | deleted : Deleted d db (.ok .done) (db.deleteDomain d)

/-- What `reset_interrupted_scans` makes of the row of a scan. -/
def Scan.restart (row : Scan) : Scan :=
  if row.status = .running then ScanRepo.interruptedPatch.apply row else row

/-- What `recover_pending_jobs` does: RUNNING scans become PENDING, and every active scan is
published. -/
structure Recovered (db : Database) (q : List Message) (db' : Database) (q' : List Message) :
    Prop where
  domains : db'.domains = db.domains
  scans : ∀ x, db'.scans.get x = (db.scans.get x).map Scan.restart
  assets : db'.assets = db.assets
  board : ∀ q, db'.board q = (db.board q).reset (db.runningScans.map Scan.id)
  ledger : db'.ledger = db.ledger
  queue : q' = q ++ db'.recoverableIds.map fun x ↦ ⟨x, 0⟩

/-! ### Inserting a scan -/

/-- Inserting the row of scan `x` enrolls it. -/
theorem enrolled_insertScan {db : Database} {x d : Id} (user : Option Id) (now : Time)
    (hx : db.scans.get x = none) (hd : (db.domains.get d).isSome) :
    Enrolled db x d (db.insertScan ⟨x, d, .pending, user, none, none, none, now⟩ hx hd) :=
  ⟨hx, ⟨user, now, rfl⟩, rfl⟩

/-- Scan `x` has been inserted and nothing else has changed. -/
structure Added (db : Database) (x d : Id) (db' : Database) : Prop extends
    Enrolled db x d db' where
  domains : db'.domains = db.domains
  board : ∀ q, db'.board q = (db.board q).addScan x d
  ledger : db'.ledger = db.ledger.addScan x d

/-- A PENDING domain `d` has been inserted and nothing else has changed. -/
structure Opened (db : Database) (d : Id) (name : String) (db' : Database) : Prop where
  new : db.domains.get d = none
  domains : ∃ user now, db'.domains.rows = db.domains.rows ++ [⟨d, name, .pending, user, now⟩] ∧
    db'.domains.get d = some ⟨d, name, .pending, user, now⟩
  scans : db'.scans = db.scans
  assets : db'.assets = db.assets
  ledger : db'.ledger = db.ledger.addDomain d .pending

/-- A new domain and its first scan. -/
theorem Opened.registered {db db₁ db₂ : Database} {x d : Id} {name : String}
    (h : Opened db d name db₁) (h' : Added db₁ x d db₂) : Registered db x d name db₂ where
  free := by rw [← h.scans, h'.free]
  scans := by
    rw [← h.scans]
    exact h'.scans
  assets := h'.assets.trans h.assets
  new := h.new
  domains := by
    obtain ⟨user, now, hrows, -⟩ := h.domains
    exact ⟨user, now, by rw [h'.domains, hrows]⟩
  board q := by
    rw [h'.board, Database.board, h.scans]
    rfl
  ledger := by rw [h'.ledger, h.ledger]

namespace Database

variable {db : Database}

/-- The `INSERT` of a scan with a new id and a stored domain succeeds. -/
theorem write_insertScan {x d : Id} (now : Time) (user : Option Id) (hx : db.scans.get x = none)
    (hd : (db.domains.get d).isSome) :
    db.write now (.insertScan x d .pending user) =
      .ok (db.insertScan ⟨x, d, .pending, user, none, none, none, now⟩ hx hd) := by
  simp [write, hx, hd]

/-- The `INSERT` of a domain with a new id and a new name that fits succeeds. -/
theorem write_insertDomain {d : Id} {name : String} (now : Time) (user : Id)
    (hlen : name.length ≤ nameWidth) (hd : db.domains.get d = none)
    (hname : db.domainByName name = none) :
    ∃ db', db.write now (.insertDomain d name .pending user) = .ok db' ∧ Opened db d name db' := by
  have hnew : ∀ row ∈ db.domains.rows, row.name ≠ name := by
    intro row hrow
    simpa using List.find?_eq_none.1 hname row hrow
  have hwrite : db.write now (.insertDomain d name .pending user) =
      .ok (db.insertDomain ⟨d, name, .pending, user, now⟩ hd hnew) := by
    rw [write, if_neg (by omega), dif_pos ⟨hd, hnew⟩]
  refine ⟨_, hwrite, hd, ⟨user, now, rfl, ?_⟩, rfl, rfl, ledger_insertDomain hwrite⟩
  exact (Table.get_insert db.domains _ hd d).trans (if_pos rfl)

end Database

namespace Py

open Session

variable {c : Conditions} {σ : Session} {db : Database} {q : Trail}

/-! ### `trigger_manual_scan` -/

/-- The statements of the trigger's transaction. -/
theorem queued_of_writes {x d : Id} {row : Domain} {user : Option Id} (now : Time)
    (hx : db.scans.get x = none) (hd : db.domains.get d = some row) {ws : List Write}
    (hws : if row.status = .running then ws = []
      else (ws = [] ∧ row.status = .pending) ∨ ws = [.updateDomain d .pending]) :
    ∃ db', db.writeAll now (.insertScan x d .pending user :: ws) = .ok db' ∧ Queued db x d db' := by
  have hsome : (db.domains.get d).isSome := by rw [hd]; rfl
  have h₁ := Database.write_insertScan now user hx hsome
  have henrolled := enrolled_insertScan user now hx hsome
  have hstatus : db.ledger.domains d = some row.status := Database.ledger_domains_of_get hd
  have hboard := fun q ↦ (Database.board_insertScan (q := q) h₁).2
  have hledger := Database.ledger_insertScan h₁
  rw [Database.writeAll, h₁]
  by_cases hrunning : row.status = .running
  · rw [if_pos hrunning] at hws
    subst hws
    refine ⟨_, rfl, henrolled, hboard, ?_⟩
    rw [if_pos (by rw [hstatus, hrunning]), hledger]
  · rw [if_neg hrunning] at hws
    have hif : db.ledger.domains d ≠ some .running := by
      rw [hstatus]
      exact fun h ↦ hrunning (Option.some.inj h)
    rcases hws with ⟨rfl, hpending⟩ | rfl
    · refine ⟨_, rfl, henrolled, hboard, ?_⟩
      rw [if_neg hif, hledger, Ledger.setDomain_self]
      rw [Ledger.addScan_domains, hstatus, hpending]
    · have hd₁ : (db.insertScan ⟨x, d, .pending, user, none, none, none, now⟩ hx
          hsome).domains.get d = some row := hd
      have h₂ := Database.writeAll_updateDomain now hd₁ .pending
      refine ⟨_, h₂, ⟨hx, henrolled.scans, rfl⟩, fun q ↦ ?_, ?_⟩
      · rw [board_of_setDomain (Or.inr rfl) h₂, hboard]
      · rw [Database.writeAll_singleton] at h₂
        rw [if_neg hif, Database.ledger_updateDomain h₂, hledger]

/-- Reading a domain that the session has loaded is no statement. -/
theorem alone_readDomain_loaded {Q : Except Exn Domain → Session → Database → Trail → Prop}
    {d : Id} {row : Domain} (hd : σ.domains d = some row) (h : Q (.ok row) σ db q) :
    Alone c Q (readDomain d) σ db q := by
  refine alone_bind (alone_bind (alone_session ?_))
  simp only [goesOn, hd]
  exact alone_pure (alone_pure h)

/-- What a trigger adds to its transaction for the domain row. -/
theorem alone_assignPending {Q : Except Exn Unit → Session → Database → Trail → Prop}
    {d : Id} {row : Domain} (hd : σ.domains d = some row) (hwork : σ.work = [])
    (h : ∀ σ' : Session, σ'.failed = σ.failed → σ'.flushed = σ.flushed →
      (if row.status = .running then σ'.work = []
        else (σ'.work = [] ∧ row.status = .pending) ∨ σ'.work = [.updateDomain d .pending]) →
      Q (.ok ()) σ' db q) :
    Alone c Q (if row.status ≠ .running then assignDomain d .pending else pure ()) σ db q := by
  by_cases hrunning : row.status = .running
  · rw [if_neg (not_not.2 hrunning)]
    refine alone_pure (h σ rfl rfl ?_)
    rwa [if_pos hrunning]
  · rw [if_pos hrunning]
    refine alone_modify (h _ (by simp) (by simp) ?_)
    rw [if_neg hrunning]
    unfold Session.assignDomain
    rw [hd]
    by_cases hpending : row.status = .pending
    · simp [hpending, hwork]
    · simp [hpending, addWork, Session.loadDomain, hwork]

/-- `trigger_manual_scan`. -/
theorem alone_triggerManualScan {d user : Id} (hkeeps : ∀ x db', Queued db x d db' → c.keeps db') :
    Alone c (fun a _ db' q' ↦ Triggered c.up d db q a db' q')
      (ScanService.triggerManualScan d user) new db q := by
  refine alone_bind (alone_bind (alone_select rfl fun pick ↦ ?_))
  simp only [goesOn, Database.answer]
  cases hd : db.domains.get d with
  | none => exact alone_pure (alone_raise (Triggered.missing hd))
  | some row =>
    have hid : row.id = d := Table.key_of_get hd
    have hsome : (db.domains.get d).isSome := by rw [hd]; rfl
    refine alone_bind (alone_modify (alone_pure ?_))
    simp only [goesOn]
    refine alone_bind (alone_bind (alone_select rfl fun pick ↦ ?_))
    simp only [goesOn, Database.answer]
    refine alone_pure ?_
    simp only [goesOn]
    split
    · next hoccupied =>
      obtain ⟨x, hx⟩ := Database.activeScan_isSome.1 hoccupied
      exact alone_bind (alone_rollback (alone_raise (Triggered.occupied hx)))
    · next hnone =>
      have hfree : ∀ x, ¬ (db.board q).HasActive x d :=
        fun x hx ↦ hnone (Database.activeScan_isSome.2 ⟨x, hx⟩)
      have hload : (new.loadDomain row).domains d = some row := by
        rw [← hid]
        exact loadDomain_domains_self row
      refine alone_bind (alone_bind (alone_uuid4 fun x hbound _ ↦ ?_))
      have hx := Database.scans_get_of_idBound_le hbound
      have hflush := fun now ↦ (Database.writeAll_singleton now).trans
        (Database.write_insertScan now (some user) hx hsome)
      refine alone_bind (alone_modify (alone_bind (alone_flush rfl (fun now ↦ ⟨_, hflush now⟩)
        (alone_pure ?_))))
      simp only [goesOn]
      refine alone_bind (alone_readDomain_loaded hload ?_)
      simp only [goesOn]
      refine alone_bind (alone_assignPending hload rfl fun σ hfailed hflushed hwork ↦ ?_)
      simp only [goesOn]
      refine alone_bind (alone_commit_ok (R := Queued db x d) hfailed (fun now ↦ ?_) (hkeeps x)
        fun db' hqueued ↦ ?_)
      · have hws : σ.flushed ++ σ.work = .insertScan x d .pending (some user) :: σ.work := by
          rw [hflushed]
          rfl
        rw [hws]
        exact queued_of_writes now hx hd hwork
      · obtain ⟨row', hx', -, hst'⟩ := Database.has_board.1 (by
          rw [hqueued.board q]
          exact (Board.has_addScan (Database.board_scans_eq_none.2 hx)).2 (Or.inl ⟨rfl, rfl, rfl⟩))
        have hid' : row'.id = x := Table.key_of_get hx'
        simp only [goesOn]
        refine alone_bind (alone_refreshScan (inStep_new db') hx' fun σ' _ ↦ ?_)
        simp only [goesOn, hid', hst']
        refine alone_bind (alone_bind (alone_call_publish (fun hup ↦ ?_) fun hdown text ↦ ?_))
        · exact alone_pure (alone_pure (Triggered.accepted hup hsome hfree hqueued))
        · exact alone_raise (Triggered.unannounced hdown hsome hfree hqueued)

/-! ### `create_domain` -/

/-- `create_domain` of the repository, for a new name that fits. -/
theorem alone_createDomainRow {Q : Except Exn Domain → Session → Database → Trail → Prop}
    {name : String} {user : Id} (hlen : name.length ≤ nameWidth)
    (hname : db.domainByName name = none) (hkeeps : ∀ d db', Opened db d name db' → c.keeps db')
    (h : ∀ d row σ' db' drawn, Opened db d name db' → db'.domains.get d = some row →
      row.name = name → row.status = .pending → σ'.InStep db' →
      Q (.ok row) σ' db' { q with drawn := drawn }) :
    Alone c Q (DomainRepo.createDomain name user .pending) new db q := by
  refine alone_bind (alone_uuid4 fun d hbound _ ↦ ?_)
  have hd := Database.domains_get_of_idBound_le hbound
  refine alone_bind (alone_modify (alone_bind (alone_commit_ok (R := Opened db d name) rfl
    (fun now ↦ ?_) (hkeeps d) fun db' hopened ↦ ?_)))
  · obtain ⟨db', hdb', hopened⟩ := Database.write_insertDomain now user hlen hd hname
    exact ⟨db', (Database.writeAll_singleton now).trans hdb', hopened⟩
  · obtain ⟨user', now, -, hrow⟩ := hopened.domains
    exact alone_refreshDomain (inStep_new db') hrow
      fun σ' hσ' ↦ h d _ σ' db' (d + 1) hopened hrow rfl rfl hσ'

/-- `create_scan` for a stored domain. -/
theorem alone_createScan {Q : Except Exn Id → Session → Database → Trail → Prop} {d : Id}
    {user : Option Id} (hσ : σ.InStep db) (hd : (db.domains.get d).isSome)
    (hkeeps : ∀ x db', Added db x d db' → c.keeps db')
    (h : ∀ x σ' db' drawn, Added db x d db' → σ'.InStep db' →
      Q (.ok x) σ' db' { q with drawn := drawn }) :
    Alone c Q (ScanRepo.createScan d user) σ db q := by
  refine alone_bind (alone_uuid4 fun x hbound _ ↦ ?_)
  have hx := Database.scans_get_of_idBound_le hbound
  refine alone_bind (alone_modify (alone_bind (alone_commit_ok (R := Added db x d) hσ.failed
    (fun now ↦ ?_) (hkeeps x) fun db' hadded ↦ ?_)))
  · have hwrite := Database.write_insertScan now user hx hd
    have hws : (σ.addWork (.insertScan x d .pending user)).flushed ++
        (σ.addWork (.insertScan x d .pending user)).work = [.insertScan x d .pending user] := by
      simp [addWork, hσ.flushed, hσ.work]
    rw [hws]
    exact ⟨_, (Database.writeAll_singleton now).trans hwrite, enrolled_insertScan _ _ hx hd, rfl,
      fun q ↦ (Database.board_insertScan hwrite).2, Database.ledger_insertScan hwrite⟩
  · obtain ⟨row, hrow, -, -⟩ := Database.has_board.1 (by
      rw [hadded.board q]
      exact (Board.has_addScan (Database.board_scans_eq_none.2 hx)).2 (Or.inl ⟨rfl, rfl, rfl⟩))
    exact alone_bind (alone_refreshScan (inStep_new db') hrow
      fun σ' hσ' ↦ alone_pure (h x σ' db' (x + 1) hadded hσ'))

/-- `enqueue_initial_scan` of a new domain. -/
theorem alone_enqueueInitialScan {Q : Except Exn Unit → Session → Database → Trail → Prop}
    {d : Id} {user : Option Id} {row : Domain} (hσ : σ.InStep db)
    (hd : db.domains.get d = some row) (hst : row.status = .pending)
    (hkeeps : ∀ x db', Added db x d db' → c.keeps db')
    (hup : c.up = true → ∀ x σ' db' q', Added db x d db' → σ'.InStep db' →
      q.After [⟨x, 0⟩] 0 q' → Q (.ok ()) σ' db' q')
    (hdown : c.up = false → ∀ x text σ' db' q', Added db x d db' → q.After [] 0 q' →
      Q (.error (.broker text)) σ' db' q') :
    Alone c Q (ScanService.enqueueInitialScan d user) σ db q := by
  refine alone_bind (alone_createScan hσ (by rw [hd]; rfl) hkeeps
    fun x σ₁ db₁ drawn hadded hσ₁ ↦ ?_)
  have hd₁ : db₁.domains.get d = some row := by rw [hadded.domains, hd]
  refine alone_bind (alone_getDomain hσ₁ fun σ₂ hσ₂ ↦ ?_)
  have hne : row.status ≠ .running := by simp [hst]
  -- the status is what it was, so this commit changes nothing
  have hsame : db₁.updateDomain d .pending = db₁ := by
    rw [← hst]
    exact Database.updateDomain_eq_self hd₁
  simp only [goesOn, hd₁, if_pos hne]
  refine alone_bind (alone_setDomainStatus hσ₂ hd₁ (by rw [hsame]; exact hkeeps x db₁ hadded)
    fun σ₃ hσ₃ ↦ ?_)
  rw [hsame] at hσ₃ ⊢
  obtain ⟨row₃, hx₂, -, -⟩ := Database.has_board.1 (by
    rw [hadded.board q]
    exact (Board.has_addScan (Database.board_scans_eq_none.2 hadded.free)).2
      (Or.inl ⟨rfl, rfl, rfl⟩))
  have hid : row₃.id = x := Table.key_of_get hx₂
  refine alone_bind (alone_readScan hσ₃ hx₂ fun σ₄ hσ₄ ↦ ?_)
  simp only [goesOn, hid]
  refine alone_bind (alone_call_publish (fun h ↦ ?_) fun h text ↦ ?_)
  · exact alone_pure (hup h x σ₄ db₁ _ hadded hσ₄ ⟨rfl, rfl⟩)
  · exact alone_raise (hdown h x text σ₄ db₁ _ hadded ⟨(List.append_nil _).symm, rfl⟩)

/-- `create_domain` of the service. -/
theorem alone_createDomain {u : Unicode} {payload : String} {user : Id}
    (hkeeps : ∀ db', c.keeps db') :
    Alone c (fun a _ db' q' ↦ Created u c.up payload db q a db' q')
      (DomainService.createDomain u payload user) new db q := by
  refine alone_bind ?_
  rw [normalizeAndValidateFqdn_eq]
  by_cases hvalid : IsFqdn (normalized u payload)
  swap
  · rw [if_neg hvalid]
    exact alone_raise (Created.invalid hvalid)
  rw [if_pos hvalid]
  refine alone_pure (alone_bind (alone_select
    (k := .domainByName (String.ofList (normalized u payload))) rfl fun pick ↦ ?_))
  simp only [goesOn, Database.answer]
  cases hname : db.domainByName (String.ofList (normalized u payload)) with
  | some row =>
    have htaken : (db.domainByName (String.ofList (normalized u payload))).isSome := by
      rw [hname]
      rfl
    exact alone_raise (Created.taken htaken)
  | none =>
    have hlen : (String.ofList (normalized u payload)).length ≤ nameWidth := by
      rw [String.length_ofList]
      exact hvalid.length_le
    refine alone_bind (alone_createDomainRow hlen hname (fun _ _ _ ↦ hkeeps _)
      fun d row σ₁ db₁ drawn hopened hd₁ hrow hst hσ₁ ↦ ?_)
    have hid : row.id = d := Table.key_of_get hd₁
    simp only [goesOn, hid]
    refine alone_bind (alone_enqueueInitialScan hσ₁ hd₁ hst (fun _ _ _ ↦ hkeeps _)
      (fun hup x σ₂ db₂ q₂ hadded hσ₂ hq₂ ↦ ?_) fun hdown x text σ₂ db₂ q₂ hadded hq₂ ↦ ?_)
    · have hd₂ : db₂.domains.get d = some row := by rw [hadded.domains, hd₁]
      refine alone_bind (alone_readDomain hσ₂ hd₂ fun σ₃ _ ↦ ?_)
      simp only [goesOn, hid, hst]
      refine alone_pure ?_
      rw [hq₂.queue]
      exact Created.created hup hvalid hname hrow (hrow ▸ hopened.registered hadded)
    · show Created u c.up payload db q _ _ q₂.queue
      rw [hq₂.queue, List.append_nil]
      exact Created.unannounced hdown hvalid hname (hopened.registered hadded)

/-! ### `delete_domain` -/

/-- `delete_domain`. -/
theorem alone_deleteDomain {d : Id} (hkeeps : c.keeps (db.deleteDomain d)) :
    Alone c (fun a _ db' q' ↦ Deleted d db a db' ∧ q' = q) (DomainService.deleteDomain d) new db
      q := by
  refine alone_bind (alone_getDomain (inStep_new db) fun σ₁ hσ₁ ↦ ?_)
  cases hd : db.domains.get d with
  | none => exact alone_raise ⟨Deleted.missing hd, rfl⟩
  | some row =>
    refine alone_bind (alone_bind (alone_select (k := .scansOf d) hσ₁.failed fun pick ↦ ?_))
    simp only [goesOn, Database.answer]
    refine alone_bind ((alone_forM (fun _ σ db' q' ↦ σ = σ₁ ∧ db' = db ∧ q' = q) ?_ _
      ⟨rfl, rfl, rfl⟩).mono ?_)
    · rintro scan scans _ _ _ ⟨rfl, rfl, rfl⟩
      refine alone_bind (alone_select (k := .assetsOf scan.id) hσ₁.failed fun pick ↦ ?_)
      exact alone_pure ⟨rfl, rfl, rfl, rfl⟩
    · rintro _ σ db q ⟨rfl, rfl, rfl, rfl⟩
      have hws : (σ.addWork (.deleteDomain d)).flushed ++ (σ.addWork (.deleteDomain d)).work =
          [Write.deleteDomain d] := by
        simp [addWork, hσ₁.flushed, hσ₁.work]
      refine alone_bind (alone_modify (alone_commit_ok (R := (· = db.deleteDomain d))
        hσ₁.failed (fun now ↦ ⟨_, ?_, rfl⟩) (by rintro _ rfl; exact hkeeps) ?_))
      · rw [hws]
        rfl
      · rintro _ rfl
        exact alone_pure ⟨Deleted.deleted, rfl⟩

/-! ### `recover_pending_jobs` -/

/-- The `UPDATE` of a RUNNING scan in `reset_interrupted_scans`. -/
def resetWrite (row : Scan) : Write :=
  .updateScan row.id (ScanRepo.interruptedPatch.diff row)

/-- The statements of a reset, one for each RUNNING scan. -/
theorem resetWrite_status {rows : List Scan} (hrows : ∀ row ∈ rows, row.status = .running) :
    List.Forall₂ (fun x w ↦ ∃ p : ScanPatch, w = .updateScan x p ∧ p.status = some .pending)
      (rows.map Scan.id) (rows.map resetWrite) := by
  rw [List.forall₂_map_left_iff, List.forall₂_map_right_iff, List.forall₂_same]
  intro row hrow
  refine ⟨_, rfl, ?_⟩
  simp [ScanPatch.diff, ScanRepo.interruptedPatch, hrows row hrow]

/-- Resetting stored scans succeeds. -/
theorem writeAll_reset {db : Database} {rows : List Scan} (now : Time)
    (hrows : ∀ row ∈ rows, db.scans.get row.id = some row) (hnodup : (rows.map Scan.id).Nodup) :
    ∃ db', db.writeAll now (rows.map resetWrite) = .ok db' ∧ db'.domains = db.domains ∧
      db'.assets = db.assets ∧ db'.ledger = db.ledger ∧
      ∀ x, db'.scans.get x = if x ∈ rows.map Scan.id
        then (db.scans.get x).map ScanRepo.interruptedPatch.apply else db.scans.get x := by
  induction rows generalizing db with
  | nil => exact ⟨db, rfl, rfl, rfl, rfl, fun _ ↦ by simp⟩
  | cons row rows ih =>
    obtain ⟨hnew, hnodup⟩ := List.nodup_cons.1 hnodup
    have hrow := hrows row List.mem_cons_self
    have hwrite : db.write now (resetWrite row) =
        .ok (db.updateScan row.id (ScanRepo.interruptedPatch.diff row)) := by
      rw [resetWrite, ← Database.writeAll_singleton, Database.writeAll_updateScan now hrow]
    have hledger := Database.ledger_updateScan hwrite
    have hdiff : db.updateScan row.id (ScanRepo.interruptedPatch.diff row) =
        db.updateScan row.id ScanRepo.interruptedPatch := by
      refine Database.updateScan_congr fun row' hrow' ↦ ?_
      rw [hrow] at hrow'
      rw [← Option.some.inj hrow', ScanPatch.diff_apply]
    rw [hdiff] at hwrite hledger
    have hget := @Database.scans_get_updateScan db row.id ScanRepo.interruptedPatch
    obtain ⟨db', hdb', hdomains, hassets, hledger', hscans⟩ :=
      @ih (db.updateScan row.id ScanRepo.interruptedPatch) (fun row' hrow' ↦ by
        have hne : row'.id ≠ row.id := by
          intro hid
          exact hnew (List.mem_map.2 ⟨row', hrow', hid⟩)
        rw [hget, if_neg hne]
        exact hrows row' (List.mem_cons_of_mem _ hrow')) hnodup
    refine ⟨db', ?_, hdomains, hassets, hledger'.trans hledger, fun x ↦ ?_⟩
    · rw [List.map_cons, Database.writeAll, hwrite]
      exact hdb'
    · rw [hscans, hget, List.map_cons]
      by_cases hx : x = row.id
      · subst hx
        simp [hnew]
      · simp [hx]

/-- The loop over the RUNNING scans only collects the `UPDATE` of each. -/
theorem alone_resetLoop {Q : Except Exn Unit → Session → Database → Trail → Prop}
    (rows : List Scan) (hrows : ∀ row ∈ rows, row.status = .running)
    (h : ∀ σ', σ'.failed = false → σ'.flushed = [] → σ'.work = rows.map resetWrite →
      Q (.ok ()) σ' db q) :
    Alone c Q (rows.forM fun row ↦ do
      modify (·.loadScan row)
      assignScan row.id ScanRepo.interruptedPatch) new db q := by
  refine (alone_forM (fun rest σ db' q' ↦ db' = db ∧ q' = q ∧ σ.failed = false ∧ σ.flushed = [] ∧
    ∃ done, rows = done ++ rest ∧ σ.work = done.map resetWrite) ?_ rows
    ⟨rfl, rfl, rfl, rfl, [], rfl, rfl⟩).mono ?_
  · rintro row rest σ _ _ ⟨rfl, rfl, hfailed, hflushed, done, hdone, hwork⟩
    have hrow : row.status = .running := hrows row (by rw [hdone]; simp)
    have hne : ScanRepo.interruptedPatch.diff row ≠ {} := by
      intro h
      have hdiff : (ScanRepo.interruptedPatch.diff row).status = some .pending := by
        simp [ScanPatch.diff, ScanRepo.interruptedPatch, hrow]
      rw [h] at hdiff
      exact absurd hdiff (by simp)
    refine alone_bind (alone_modify (alone_modify ?_))
    rw [Session.assignScan, loadScan_scans_self]
    simp only [if_neg hne]
    refine ⟨trivial, trivial, trivial, hfailed, hflushed, done ++ [row], by simp [hdone], ?_⟩
    rw [List.map_append, ← hwork]
    rfl
  · rintro _ σ _ _ ⟨rfl, rfl, rfl, hfailed, hflushed, done, hdone, hwork⟩
    rw [List.append_nil] at hdone
    subst hdone
    exact h σ hfailed hflushed hwork

/-- `recover_pending_jobs`. -/
theorem alone_recoverPendingJobs (hup : c.up = true)
    (hkeeps : ∀ db', (∀ q, db'.board q = (db.board q).reset (db.runningScans.map Scan.id)) →
      db'.ledger = db.ledger → c.keeps db') :
    Alone c (fun a _ db' q' ↦ a = .ok () ∧ Recovered db q db' q') recoverPendingJobs new db q := by
  refine alone_tryFinally_close (alone_bind ?_)
  have hmem : ∀ row ∈ db.runningScans, row ∈ db.scans ∧ row.status = .running := by
    intro row hrow
    simpa [Database.runningScans, Table.mem_rows] using hrow
  have hstored : ∀ row ∈ db.runningScans, db.scans.get row.id = some row :=
    fun row hrow ↦ Table.get_key (hmem row hrow).1
  have hrestart : ∀ x, (if x ∈ db.runningScans.map Scan.id
      then (db.scans.get x).map ScanRepo.interruptedPatch.apply else db.scans.get x) =
      (db.scans.get x).map Scan.restart := by
    intro x
    cases hx : db.scans.get x with
    | none => simp
    | some row =>
      have hiff : x ∈ db.runningScans.map Scan.id ↔ row.status = .running := by
        rw [Database.mem_runningScans (q := q)]
        have hhas := Database.has_board_of_get (q := q.queue) hx
        refine ⟨fun h ↦ ?_, fun h ↦ ⟨_, h ▸ hhas⟩⟩
        obtain ⟨_, h⟩ := h
        exact (hhas.unique h).2
      simp only [hiff, Option.map_some, Scan.restart]
      split <;> rfl
  -- what follows the reset, from a database in which it has taken place
  have hrest : ∀ db₁ : Database, db₁.domains = db.domains →
      (∀ x, db₁.scans.get x = (db.scans.get x).map Scan.restart) → db₁.assets = db.assets →
      (∀ q, db₁.board q = (db.board q).reset (db.runningScans.map Scan.id)) →
      db₁.ledger = db.ledger → ∀ σ : Session, σ.failed = false →
      Alone c (fun a _ db' q' ↦ a = .ok () ∧ Recovered db q db' q')
        (do let pendingIds ← ScanRepo.listRecoverableScanIds; pendingIds.forM enqueueScan) σ
        db₁ q := by
    intro db₁ hdomains hscans hassets hboard hledger σ hσ
    refine alone_bind (alone_select (k := .recoverableIds) hσ fun pick ↦ ?_)
    simp only [goesOn, Database.answer]
    refine (alone_forM (fun rest _ db' q' ↦ db' = db₁ ∧ ∃ done, db₁.recoverableIds = done ++ rest ∧
      q'.queue = q.queue ++ done.map fun x ↦ ⟨x, 0⟩) ?_ _ ⟨rfl, [], rfl, by simp⟩).mono ?_
    · rintro x rest σ _ q' ⟨rfl, done, hdone, hq'⟩
      exact alone_publish hup ⟨rfl, rfl, done ++ [x], by simp [hdone], by simp [Trail.push, hq']⟩
    · rintro _ _ _ _ ⟨rfl, rfl, done, hdone, hq'⟩
      rw [List.append_nil] at hdone
      exact ⟨rfl, hdomains, hscans, hassets, hboard, hledger, by rw [hdone, hq']⟩
  -- what follows the query for the RUNNING scans
  have hrows : ∀ rows : List Scan, rows = db.runningScans →
      Alone c (goesOn c (fun a _ db' q' ↦ a = .ok () ∧ Recovered db q db' q') fun _ ↦ do
        let pendingIds ← ScanRepo.listRecoverableScanIds
        pendingIds.forM enqueueScan)
        (do
          rows.forM fun row ↦ do
            modify (·.loadScan row)
            assignScan row.id ScanRepo.interruptedPatch
          if rows.isEmpty then return []
          else do
            commit .resetInterruptedScans
            return rows.map Scan.id) new db q := by
    rintro rows rfl
    refine alone_bind (alone_resetLoop _ (fun row hrow ↦ (hmem row hrow).2)
      fun σ hfailed hflushed hwork ↦ ?_)
    by_cases hempty : db.runningScans.isEmpty = true
    · simp only [goesOn, if_pos hempty]
      have hnone := List.isEmpty_iff.1 hempty
      have hreset : ∀ q, db.board q = (db.board q).reset (db.runningScans.map Scan.id) := by
        intro q
        rw [hnone, List.map_nil, Board.reset_nil]
      refine alone_pure (hrest db rfl (fun x ↦ ?_) rfl hreset rfl σ hfailed)
      rw [← hrestart, hnone]
      simp
    · simp only [goesOn, if_neg hempty]
      have hws : σ.flushed ++ σ.work = db.runningScans.map resetWrite := by
        rw [hflushed, hwork, List.nil_append]
      refine alone_bind (alone_commit_ok (R := fun db' ↦ db'.domains = db.domains ∧
        (∀ x, db'.scans.get x = (db.scans.get x).map Scan.restart) ∧ db'.assets = db.assets ∧
        (∀ q, db'.board q = (db.board q).reset (db.runningScans.map Scan.id)) ∧
        db'.ledger = db.ledger) hfailed (fun now ↦ ?_) ?_ ?_)
      · rw [hws]
        obtain ⟨db', hdb', hdomains, hassets, hledger, hscans⟩ := writeAll_reset now hstored
          (db.scans.nodup.sublist (List.filter_sublist.map Scan.id))
        refine ⟨db', hdb', hdomains, fun x ↦ by rw [hscans, hrestart], hassets, fun q ↦ ?_, hledger⟩
        exact board_of_reset (resetWrite_status fun row hrow ↦ (hmem row hrow).2) hdb'
      · rintro db' ⟨-, -, -, hboard, hledger⟩
        exact hkeeps db' hboard hledger
      · rintro db' ⟨hdomains, hscans, hassets, hboard, hledger⟩
        exact alone_pure (hrest db' hdomains hscans hassets hboard hledger new rfl)
  exact alone_bind (alone_select (k := .runningScans) rfl fun _ ↦ hrows _ rfl)

end Py

end AssetDiscovery
