import AssetDiscovery.Alone.Repositories

/-!
# A delivery, run alone

What one run of `_process_scan` does when nothing interferes with it and no statement fails:
`Processed` lists the ways in which it can end, each with what it does to the rows, to the queue and
to the resolver, and `Interim` says in what states it can be stopped on the way.
`Py.alone_processScan` proves both of the code. `Delivered` is what is left of `Processed` on the
board and in the ledger.
-/

set_option autoImplicit false

namespace AssetDiscovery

open Effect

/-- What the loop of `resolve_domain_records` returns or raises, by what the resolver answers. -/
def answersFrom (lookups : AssetType → Lookup) :
    List AssetType → List (AssetType × String) → Except Exn (List (AssetType × String))
  | [], results => .ok results
  | type :: types, results =>
    match lookups type with
    | .answer rdatas =>
      answersFrom lookups types (results ++ rdatas.map fun r ↦ (type, rdataValue type r))
    | .nxdomain => answersFrom lookups types results
    | .noAnswer => answersFrom lookups types results
    | .noNameservers => answersFrom lookups types results
    | .timeout className text => .error (.dns className text)
    | .dnsError className text => .error (.dns className text)
    | .otherError className text => .error (.other className text)

/-- What one call of `resolve_domain_records` returns or raises. -/
def answers (lookups : AssetType → Lookup) : Except Exn (List (AssetType × String)) :=
  answersFrom lookups recordTypes []

/-! ### What a delivery does to the rows -/

namespace ScanPatch

/-- What `mark_scan_running` assigns. -/
def running (t : Time) : ScanPatch :=
  { status := some .running, startedAt := some (some t), errorMessage := some none }

/-- What `mark_scan_completed` assigns. -/
def completed (t : Time) : ScanPatch :=
  { status := some .completed, completedAt := some (some t), errorMessage := some none }

/-- What `mark_scan_failed` assigns. -/
def failed (t : Time) (errorMessage : String) : ScanPatch :=
  { status := some .failed, completedAt := some (some t), errorMessage := some (some errorMessage) }

end ScanPatch

namespace Database

/-- A `mark_scan_*` of scan `x`, and the `set_domain_status` of its domain `d` that follows. -/
def settle (db : Database) (x d : Id) (p : ScanPatch) (st : DomainStatus) : Database :=
  (db.updateScan x p).updateDomain d st

/-- What `_enqueue_next_pending_for_domain` publishes. -/
def next (db : Database) (d : Id) (pick : ℕ) : List Message :=
  ((db.nextPending d pick).map fun y ↦ ⟨y, 0⟩).toList

end Database

/-- The process has published `ms` and has asked the resolver `n` times. -/
structure Trail.After (q : Trail) (ms : List Message) (n : ℕ) (q' : Trail) : Prop where
  queue : q'.queue = q.queue ++ ms
  resolutions : q'.resolutions = q.resolutions + n

/-- The resolver is asked before anything is published. -/
theorem Trail.After.then {q q₁ q₂ : Trail} {ms : List Message} {n : ℕ} (h : q.After [] n q₁)
    (h' : q₁.After ms 0 q₂) : q.After ms n q₂ :=
  ⟨by rw [h'.queue, h.queue, List.append_nil], by rw [h'.resolutions, h.resolutions]; rfl⟩

/-- How a delivery of `m` ends, row by row. -/
inductive Processed (cfg : Settings) (lookups : AssetType → Lookup) (m : Message) (db : Database)
    (q : Trail) : Database → Trail → Prop
  /-- The scan is gone or finished. -/
  | dropped {q' : Trail} (h : ∀ row, db.scans.get m.scan = some row → ¬ row.status.IsActive)
      (hq : q.After [] 0 q') : Processed cfg lookups m db q db q'
  /-- The scan stays PENDING behind a RUNNING one. -/
  | deferred {row : Scan} {q' : Trail} (hx : db.scans.get m.scan = some row)
      (hst : row.status = .pending) (hy : (db.runningScan row.domainId).isSome)
      (hq : q.After [] 0 q') : Processed cfg lookups m db q db q'
  /-- A DNS error, and another attempt is published. -/
  | retried {row : Scan} {t : Time} {e : Exn} {q' : Trail} (hx : db.scans.get m.scan = some row)
      (hactive : row.status.IsActive) (ht : q.since ≤ t) (he : answers lookups = .error e)
      (hretry : e.IsRetryable) (hr : m.retries < cfg.scanMaxRetries)
      (hq : q.After [⟨m.scan, m.retries + 1⟩] 1 q') :
    Processed cfg lookups m db q (db.settle m.scan row.domainId (.running t) .running) q'
  /-- A record is too long for its column: the statement fails, and the scan stays RUNNING. -/
  | unfit {row : Scan} {t : Time} {rs : List (AssetType × String)} {q' : Trail}
      (hx : db.scans.get m.scan = some row) (hactive : row.status.IsActive) (ht : q.since ≤ t)
      (hrs : answers lookups = .ok rs) (hfits : ¬ Fits rs) (hq : q.After [] 1 q') :
    Processed cfg lookups m db q (db.settle m.scan row.domainId (.running t) .running) q'
  /-- The records are stored. -/
  | completed {row : Scan} {t t' : Time} {rs : List (AssetType × String)} {db₁ db' : Database}
      {pick : ℕ} {q' : Trail} (hx : db.scans.get m.scan = some row)
      (hactive : row.status.IsActive) (ht : q.since ≤ t) (ht' : t ≤ t')
      (hrs : answers lookups = .ok rs) (hfits : Fits rs)
      (hstored : Stored (db.settle m.scan row.domainId (.running t) .running) m.scan row.domainId
        rs db₁) (hdb' : db' = db₁.settle m.scan row.domainId (.completed t') .completed)
      (hq : q.After (db'.next row.domainId pick) 1 q') : Processed cfg lookups m db q db' q'
  /-- An error that is not tried again. -/
  | failed {row : Scan} {t t' : Time} {e : Exn} {db' : Database} {pick : ℕ} {q' : Trail}
      (hx : db.scans.get m.scan = some row) (hactive : row.status.IsActive) (ht : q.since ≤ t)
      (ht' : t ≤ t') (he : answers lookups = .error e)
      (hfinal : e.IsRetryable → cfg.scanMaxRetries ≤ m.retries)
      (hdb' : db' = (db.settle m.scan row.domainId (.running t) .running).settle m.scan
        row.domainId (.failed t' e.message) .failed)
      (hq : q.After (db'.next row.domainId pick) 1 q') : Processed cfg lookups m db q db' q'

section Rows

variable {db : Database} {x d : Id} {p : ScanPatch} {st : DomainStatus}

/-- Looking scans up after a scan and its domain are settled. -/
theorem Database.scans_get_settle (y : Id) : (db.settle x d p st).scans.get y =
    if y = x then (db.scans.get y).map p.apply else db.scans.get y :=
  scans_get_updateScan y

/-- Looking domains up then. -/
theorem Database.domains_get_settle (d' : Id) : (db.settle x d p st).domains.get d' =
    if d' = d then (db.domains.get d').map fun row ↦ { row with status := st }
    else db.domains.get d' :=
  @domains_get_updateDomain (db.updateScan x p) _ _ d'

theorem Database.scans_get_settle_self {row : Scan} (hx : db.scans.get x = some row) :
    (db.settle x d p st).scans.get x = some (p.apply row) := by
  rw [scans_get_settle, if_pos rfl, hx]
  rfl

theorem Database.domains_get_settle_self {row : Domain} (hd : db.domains.get d = some row) :
    (db.settle x d p st).domains.get d = some { row with status := st } := by
  rw [domains_get_settle, if_pos rfl, hd]
  rfl

end Rows

/-! ### What that comes to -/

/-- Scan `x` of domain `d` has got the status `st`, the domain mirrors it, and the records `rs` have
been stored. -/
structure Settled (db : Database) (x d : Id) (st : ScanStatus) (rs : List (AssetType × String))
    (db' : Database) : Prop where
  board : ∀ q, db'.board q = (db.board q).setScan x (some st)
  ledger : db'.ledger = (db.ledger.addRecords x rs).setDomain d st.toDomainStatus

/-- What `_enqueue_next_pending_for_domain` does to the queue. -/
inductive Handed (db : Database) (d : Id) (q : List Message) : List Message → Prop
  | none (h : ∀ y, ¬ (db.board q).Has y d .pending) : Handed db d q q
  | next {y : Id} (h : (db.board q).Has y d .pending) : Handed db d q (q ++ [⟨y, 0⟩])

/-- How a delivery of `m` ends. -/
inductive Delivered (cfg : Settings) (lookups : AssetType → Lookup) (m : Message) (db : Database)
    (q : List Message) : Database → List Message → Prop
  /-- The scan is gone or finished. -/
  | dropped (h : ∀ d, ¬ (db.board q).HasActive m.scan d) : Delivered cfg lookups m db q db q
  /-- The scan stays PENDING behind a RUNNING one. -/
  | deferred {d y : Id} (hx : (db.board q).Has m.scan d .pending)
      (hy : (db.board q).Has y d .running) : Delivered cfg lookups m db q db q
  /-- A DNS error, and another attempt is published. -/
  | retried {d : Id} {db' : Database} (hx : (db.board q).HasActive m.scan d)
      (hr : m.retries < cfg.scanMaxRetries) (h : Settled db m.scan d .running [] db') :
    Delivered cfg lookups m db q db' (q ++ [⟨m.scan, m.retries + 1⟩])
  /-- A record is too long for its column: the statement fails, and the scan stays RUNNING. -/
  | unfit {d : Id} {db' : Database} {rs : List (AssetType × String)}
      (hx : (db.board q).HasActive m.scan d) (hrs : answers lookups = .ok rs) (hfits : ¬ Fits rs)
      (h : Settled db m.scan d .running [] db') : Delivered cfg lookups m db q db' q
  /-- The records are stored. -/
  | completed {d : Id} {db' : Database} {rs : List (AssetType × String)} {q' : List Message}
      (hx : (db.board q).HasActive m.scan d) (hrs : answers lookups = .ok rs)
      (h : Settled db m.scan d .completed rs db') (hq : Handed db' d q q') :
    Delivered cfg lookups m db q db' q'
  /-- An error that is not tried again. -/
  | failed {d : Id} {db' : Database} {q' : List Message}
      (hx : (db.board q).HasActive m.scan d) (h : Settled db m.scan d .failed [] db')
      (hq : Handed db' d q q') : Delivered cfg lookups m db q db' q'

/-- The databases in which a delivery of scan `x` can be stopped, as far as `x` is concerned. -/
inductive Interim (lookups : AssetType → Lookup) (x : Id) (db : Database) : Database → Prop
  | untouched : Interim lookups x db db
  /-- Nothing has been stored, and the scan is not COMPLETED. -/
  | working {db' : Database} (hx : ∃ d, (db.board []).HasActive x d)
      (hrecords : db'.ledger.records x = db.ledger.records x)
      (hst : ∀ d, ¬ (db'.board []).Has x d .completed) : Interim lookups x db db'
  /-- The records of this delivery have been stored. -/
  | stored {db' : Database} {rs : List (AssetType × String)}
      (hx : ∃ d, (db.board []).HasActive x d) (hrs : answers lookups = .ok rs)
      (hrecords : db'.ledger.records x = db.ledger.records x ++ rs) : Interim lookups x db db'

/-- The second of two statuses counts. -/
theorem Ledger.setDomain_setDomain (l : Ledger) (d : Id) (st st' : DomainStatus) :
    (l.setDomain d st).setDomain d st' = l.setDomain d st' := by
  ext1
  · funext d'
    by_cases hd : d' = d <;> simp [setDomain, hd, Option.map_map, Function.comp_def]
  · rfl
  · rfl

/-- Records and statuses do not get in each other's way. -/
theorem Ledger.addRecords_setDomain (l : Ledger) (x d : Id) (rs : List (AssetType × String))
    (st : DomainStatus) :
    (l.setDomain d st).addRecords x rs = (l.addRecords x rs).setDomain d st :=
  rfl

section Steps

variable {db db₁ : Database} {x d : Id} {st st' : ScanStatus} {rs rs' : List (AssetType × String)}

/-- `mark_scan_*` and `set_domain_status` together. -/
theorem settled_settle {row : Scan} (hx : db.scans.get x = some row) (st : ScanStatus)
    {p : ScanPatch} (hst : p.status = some st) :
    Settled db x row.domainId st [] (db.settle x row.domainId p st.toDomainStatus) := by
  obtain ⟨domain, hd⟩ := Database.exists_domain hx
  have hmarked := marked_updateScan hx hst
  have hd' : (db.updateScan x p).domains.get row.domainId = some domain := hd
  have hassigned := assigned_updateDomain hd' st.toDomainStatus
  refine ⟨fun q ↦ ?_, ?_⟩
  · rw [Database.settle, hassigned.board, hmarked.board]
  · rw [Database.settle, hassigned.ledger, hmarked.ledger, Ledger.addRecords_nil]

/-- The later of two settlements counts. -/
theorem Settled.trans {db₂ : Database} (h : Settled db x d st [] db₁)
    (h' : Settled db₁ x d st' rs' db₂) : Settled db x d st' rs' db₂ := by
  refine ⟨fun q ↦ ?_, ?_⟩
  · rw [h'.board, h.board, Board.setScan_setScan]
  · rw [h'.ledger, h.ledger, Ledger.addRecords_nil, Ledger.addRecords_setDomain,
      Ledger.setDomain_setDomain]

/-- A scan that has been filled is settled with its records. -/
theorem Filled.settled {db₂ : Database} (h : Filled db x rs db₁)
    (h' : Settled db₁ x d st [] db₂) : Settled db x d st rs db₂ := by
  refine ⟨fun q ↦ ?_, ?_⟩
  · rw [h'.board, h.board]
  · rw [h'.ledger, h.ledger, Ledger.addRecords_nil]

/-- A scan that is given another status is not COMPLETED. -/
theorem not_completed_setScan {b : Board} (hst : st ≠ .completed) (d : Id) :
    ¬ (b.setScan x (some st)).Has x d .completed := by
  intro h
  rcases Board.has_setScan_some.1 h with ⟨-, hst', -⟩ | ⟨hne, -⟩
  · exact hst hst'.symm
  · exact hne rfl

end Steps

/-- What the next-pending query finds is handed on. -/
theorem handed_next (db : Database) (d : Id) (q : List Message) (pick : ℕ) :
    Handed db d q (q ++ db.next d pick) := by
  unfold Database.next
  cases h : db.nextPending d pick with
  | none =>
    rw [Option.map_none, Option.toList_none, List.append_nil]
    exact .none (Database.not_has_of_nextPending h)
  | some y => exact .next (Database.has_of_nextPending h)

/-- What a delivery does when nothing fails. -/
theorem Processed.delivered {cfg : Settings} {lookups : AssetType → Lookup} {m : Message}
    {db db' : Database} {q q' : Trail} (h : Processed cfg lookups m db q db' q') :
    Delivered cfg lookups m db q db' q' := by
  have hhas : ∀ {row : Scan}, db.scans.get m.scan = some row → row.status.IsActive →
      (db.board q).HasActive m.scan row.domainId :=
    fun hx hactive ↦ ⟨_, Database.has_board_of_get hx, hactive⟩
  have hbegun : ∀ {row : Scan} {t}, db.scans.get m.scan = some row →
      Settled db m.scan row.domainId .running []
        (db.settle m.scan row.domainId (.running t) .running) :=
    fun hx ↦ settled_settle hx .running rfl
  cases h with
  | dropped h hq =>
    rw [hq.queue, List.append_nil]
    refine .dropped ?_
    rintro d ⟨st, hst, hactive⟩
    obtain ⟨row, hx, -, rfl⟩ := Database.has_board.1 hst
    exact h row hx hactive
  | deferred hx hst hy hq =>
    rw [hq.queue, List.append_nil]
    obtain ⟨y, hy⟩ := Database.runningScan_isSome.1 hy
    exact .deferred (hst ▸ Database.has_board_of_get hx) hy
  | retried hx hactive _ _ _ hr hq =>
    rw [hq.queue]
    exact .retried (hhas hx hactive) hr (hbegun hx)
  | unfit hx hactive _ hrs hfits hq =>
    rw [hq.queue, List.append_nil]
    exact .unfit (hhas hx hactive) hrs hfits (hbegun hx)
  | @completed row t t' rs db₁ _ pick _ hx hactive _ _ hrs _ hstored hdb' hq =>
    rw [hq.queue]
    have hx₁ : db₁.scans.get m.scan = some ((ScanPatch.running t).apply row) := by
      rw [hstored.scans]
      exact Database.scans_get_settle_self hx
    subst hdb'
    exact .completed (hhas hx hactive) hrs ((hbegun hx).trans (hstored.filled.settled
      (settled_settle hx₁ .completed rfl))) (handed_next _ _ _ _)
  | @failed row t _ e _ _ _ hx hactive _ _ _ _ hdb' hq =>
    rw [hq.queue]
    have hx₁ : (db.settle m.scan row.domainId (.running t) .running).scans.get m.scan =
        some ((ScanPatch.running t).apply row) := Database.scans_get_settle_self hx
    subst hdb'
    exact .failed (hhas hx hactive) ((hbegun hx).trans (settled_settle hx₁ .failed rfl))
      (handed_next _ _ _ _)

namespace Py

open Session

variable {c : Conditions} {lookups : AssetType → Lookup} {σ : Session} {db : Database} {q : Trail}

/-! ### The tail of a job -/

/-- A publish reaches the broker. -/
theorem alone_publish {Q : Except Exn Unit → Session → Database → Trail → Prop}
    {m : Message} (hup : c.up = true) (h : Q (.ok ()) σ db (q.push m)) :
    Alone c Q (publish m) σ db q := by
  refine alone_bind (alone_call_publish (fun _ ↦ alone_pure h) fun hdown ↦ ?_)
  rw [hup] at hdown
  exact absurd hdown (by simp)

/-- The next PENDING scan, if there is one, is published. -/
theorem alone_enqueueNext {Q : Except Exn Unit → Session → Database → Trail → Prop}
    {d : Id} (hup : c.up = true) (hσ : σ.failed = false)
    (h : ∀ pick q', q.After (db.next d pick) 0 q' → Q (.ok ()) σ db q') :
    Alone c Q (enqueueNextPendingForDomain d) σ db q := by
  refine alone_bind (alone_select hσ fun pick ↦ ?_)
  simp only [goesOn, Database.answer]
  have hafter : ∀ q' : Trail, q'.queue = q.queue ++ db.next d pick →
      q'.resolutions = q.resolutions → Q (.ok ()) σ db q' := fun q' hq hn ↦ h pick q' ⟨hq, hn⟩
  unfold Database.next at hafter
  cases hnext : db.nextPending d pick with
  | none =>
    rw [hnext] at hafter
    exact alone_pure (hafter q (List.append_nil _).symm rfl)
  | some y =>
    rw [hnext] at hafter
    exact alone_publish hup (hafter _ rfl rfl)

/-- The tail of a job whose scan has its final status. -/
theorem alone_settleDomain {Q : Except Exn Unit → Session → Database → Trail → Prop}
    {x : Id} {row : Scan} {st : DomainStatus} (hσ : σ.InStep db) (hup : c.up = true)
    (hx : db.scans.get x = some row) (hkeeps : c.keeps (db.updateDomain row.domainId st))
    (h : ∀ pick q' σ', q.After ((db.updateDomain row.domainId st).next row.domainId pick) 0 q' →
      Q (.ok ()) σ' (db.updateDomain row.domainId st) q') :
    Alone c Q (settleDomain x st) σ db q := by
  obtain ⟨domain, hd⟩ := Database.exists_domain hx
  have hid : domain.id = row.domainId := Table.key_of_get hd
  refine alone_bind (alone_readScan hσ hx fun σ₁ hσ₁ ↦ ?_)
  refine alone_bind (alone_getDomain hσ₁ fun σ₂ hσ₂ ↦ ?_)
  simp only [goesOn, hd, hid]
  refine alone_bind (alone_setDomainStatus hσ₂ hd hkeeps fun σ₃ hσ₃ ↦ ?_)
  refine alone_bind (alone_readScan hσ₃ hx fun σ₄ hσ₄ ↦ ?_)
  exact alone_enqueueNext hup hσ₄.failed fun pick q' hq' ↦ h pick q' σ₄ hq'

/-- `_fail_scan` of a stored scan. -/
theorem alone_failScan {Q : Except Exn Unit → Session → Database → Trail → Prop}
    {x : Id} {row : Scan} {message : String} (hσ : σ.InStep db) (hup : c.up = true)
    (hx : db.scans.get x = some row)
    (hmarked : ∀ t, c.keeps (db.updateScan x (.failed t message)))
    (hsettled : ∀ t, c.keeps (db.settle x row.domainId (.failed t message) .failed))
    (h : ∀ t pick q' σ', q.since ≤ t → q.After
        ((db.settle x row.domainId (.failed t message) .failed).next row.domainId pick) 0 q' →
      Q (.ok ()) σ' (db.settle x row.domainId (.failed t message) .failed) q') :
    Alone c Q (failScan x message) σ db q := by
  refine alone_bind (alone_markScan hσ hx hmarked fun t σ₁ ht hσ₁ ↦ ?_)
  have hx₁ : (db.updateScan x (.failed t message)).scans.get x =
      some ((ScanPatch.failed t message).apply row) := by
    rw [Database.scans_get_updateScan, if_pos rfl, hx]
    rfl
  exact alone_settleDomain hσ₁ hup hx₁ (hsettled t)
    fun pick q' σ' hq' ↦ h t pick q' σ' ht ⟨hq'.queue, hq'.resolutions⟩

/-! ### The body and its handlers -/

/-- The loop asks for the A records at most as often as they are among the types, and asks for the
first type in any case. -/
theorem alone_resolveTypes {Q : Except Exn (List (AssetType × String)) → Session → Database →
    Trail → Prop} {name : String} (hlookups : c.lookups = some lookups) (types : List AssetType)
    (results : List (AssetType × String))
    (h : ∀ q' n, q.After [] n q' → q'.since = q.since → n ≤ types.count .a →
      (types.head? = some .a → 1 ≤ n) → Q (answersFrom lookups types results) σ db q') :
    Alone c Q (resolveTypes name types results) σ db q := by
  induction types generalizing results q with
  | nil => exact alone_pure (h q 0 ⟨(List.append_nil _).symm, rfl⟩ rfl le_rfl (by simp))
  | cons type types ih =>
    have hasked : ∀ n, n ≤ types.count .a → ∀ q' : Trail, (q.ask name type).After [] n q' →
        q'.since = q.since →
        Q (answersFrom lookups (type :: types) results) σ db q' := by
      intro n hn q' hq' hsince
      refine h q' ((Op.lookup name type).resolutions + n) ⟨hq'.queue, ?_⟩ hsince ?_ ?_
      · rw [hq'.resolutions, Trail.ask, Nat.add_assoc]
      · rw [List.count_cons]
        cases type <;> simp [Op.resolutions] <;> omega
      · intro hhead
        obtain rfl : type = .a := by simpa using hhead
        exact Nat.le_add_right _ _
    refine alone_bind (alone_lookup hlookups ?_)
    simp only [goesOn]
    have hgoes : ∀ results', answersFrom lookups (type :: types) results =
        answersFrom lookups types results' →
        Alone c Q (resolveTypes name types results') σ db (q.ask name type) := by
      intro results' heq
      refine ih results' fun q' n hq' hsince hn _ ↦ ?_
      rw [← heq]
      exact hasked n hn q' hq' hsince
    have hraised : ∀ e, answersFrom lookups (type :: types) results = .error e →
        Alone c Q (raise e) σ db (q.ask name type) := by
      intro e heq
      have hdone := hasked 0 (Nat.zero_le _) (q.ask name type) ⟨(List.append_nil _).symm, rfl⟩ rfl
      rw [heq] at hdone
      exact alone_raise hdone
    cases hanswer : lookups type with
    | answer | nxdomain | noAnswer | noNameservers => exact hgoes _ (by rw [answersFrom, hanswer])
    | timeout | dnsError | otherError => exact hraised _ (by rw [answersFrom, hanswer])

/-- A session that refuses every statement and has loaded nothing stops the handlers at once. -/
theorem alone_handleDiscoveryError_refused
    {Q : Except Exn Unit → Session → Database → Trail → Prop} {cfg : Settings} {x : Id}
    {task : Option ℕ} {e : Exn} (hσ : σ.failed = true) (hx : σ.scans x = none)
    (h : Q (.error .pendingRollback) σ db q) :
    Alone c Q (handleDiscoveryError cfg x task e) σ db q := by
  have hread : ∀ f : Scan → Py Unit, Alone c Q (readScan x >>= f) σ db q := by
    intro f
    refine alone_bind (alone_bind (alone_bind (alone_session ?_)))
    simp only [goesOn, hx]
    exact alone_bind (alone_select_refused hσ h)
  unfold handleDiscoveryError
  split
  · exact hread _
  · exact hread _

/-- The handlers in a session that is in step: another attempt is published, or the scan fails. -/
theorem alone_handleDiscoveryError
    {Q : Except Exn Unit → Session → Database → Trail → Prop} {cfg : Settings} {x r : Id}
    {row : Scan} {e : Exn} (hσ : σ.InStep db) (hup : c.up = true)
    (hx : db.scans.get x = some row)
    (hmarked : ∀ t, c.keeps (db.updateScan x (.failed t e.message)))
    (hsettled : ∀ t, c.keeps (db.settle x row.domainId (.failed t e.message) .failed))
    (hretry : e.IsRetryable → r < cfg.scanMaxRetries → ∀ σ',
      Q (.error .retry) σ' db (q.push ⟨x, r + 1⟩))
    (hfail : (e.IsRetryable → cfg.scanMaxRetries ≤ r) → ∀ t pick q' σ', q.since ≤ t → q.After
        ((db.settle x row.domainId (.failed t e.message) .failed).next row.domainId pick) 0 q' →
      Q (.ok ()) σ' (db.settle x row.domainId (.failed t e.message) .failed) q') :
    Alone c Q (handleDiscoveryError cfg x (some r) e) σ db q := by
  unfold handleDiscoveryError
  split
  · next hretryable =>
    refine alone_bind (alone_readScan hσ hx fun σ₁ hσ₁ ↦ ?_)
    simp only [goesOn]
    split
    · next hr =>
      refine alone_bind (alone_call_publish (fun _ ↦ alone_raise (hretry hretryable hr σ₁)) ?_)
      intro hdown
      rw [hup] at hdown
      exact absurd hdown (by simp)
    · next hr =>
      refine alone_bind (alone_readScan hσ₁ hx fun σ₂ hσ₂ ↦ ?_)
      exact alone_failScan hσ₂ hup hx hmarked hsettled (hfail fun _ ↦ Nat.le_of_not_lt hr)
  · next hnot =>
    refine alone_bind (alone_readScan hσ hx fun σ₁ hσ₁ ↦ ?_)
    exact alone_failScan hσ₁ hup hx hmarked hsettled (hfail fun h ↦ absurd h hnot)

/-- `_process_scan` from the `mark_scan_running` call on. -/
theorem alone_runDiscovery {cfg : Settings} {x r : Id} {row : Scan} (hσ : σ.InStep db)
    (hup : c.up = true) (hlookups : c.lookups = some lookups) (hx : db.scans.get x = some row)
    (hactive : row.status.IsActive) (hkeeps : ∀ db', Interim lookups x db db' → c.keeps db') :
    Alone c (fun _ _ db' q' ↦ Processed cfg lookups ⟨x, r⟩ db q db' q')
      (runDiscovery cfg x row.domainId (some r)) σ db q := by
  have hhas : ∃ d, (db.board []).HasActive x d :=
    ⟨_, _, Database.has_board_of_get hx, hactive⟩
  -- what has to be kept while the scan is RUNNING or FAILED and nothing has been stored
  have hworking : ∀ {db' st}, db'.board [] = (db.board []).setScan x (some st) →
      st ≠ .completed → db'.ledger.records = db.ledger.records → c.keeps db' := by
    intro db' st hboard hst hrecords
    refine hkeeps db' (.working hhas (by rw [hrecords]) ?_)
    rw [hboard]
    exact not_completed_setScan hst
  refine alone_bind (alone_markScan hσ hx (fun t ↦ ?_) fun t σ₁ ht hσ₁ ↦ ?_)
  · have hmarked := marked_updateScan hx (p := ScanPatch.running t) rfl
    exact hworking (hmarked.board []) (by simp) (by rw [← hmarked.ledger]; rfl)
  obtain ⟨domain, hd⟩ := Database.exists_domain hx
  have hbegun : Settled db x row.domainId .running []
      (db.settle x row.domainId (.running t) .running) := settled_settle hx .running rfl
  have hx₂ : (db.settle x row.domainId (.running t) .running).scans.get x =
      some ((ScanPatch.running t).apply row) := Database.scans_get_settle_self hx
  have hd₂ : (db.settle x row.domainId (.running t) .running).domains.get row.domainId =
      some { domain with status := .running } :=
    Database.domains_get_settle_self hd
  have hrecords₂ : (db.settle x row.domainId (.running t) .running).ledger.records =
      db.ledger.records := by
    rw [hbegun.ledger, Ledger.addRecords_nil]
    rfl
  have hI₂ : c.keeps (db.settle x row.domainId (.running t) .running) :=
    hworking (hbegun.board []) (by simp) hrecords₂
  simp only [goesOn]
  refine alone_bind (alone_setDomainStatus hσ₁ hd hI₂ fun σ₂ hσ₂ ↦ ?_)
  change σ₂.InStep (db.settle x row.domainId (.running t) .running) at hσ₂
  show Alone c _ _ σ₂ (db.settle x row.domainId (.running t) .running) (q.seen t)
  generalize hdb : db.settle x row.domainId (.running t) .running = db₂ at *
  refine alone_bind (alone_readScan hσ₂ hx₂ fun σ₃ hσ₃ ↦ ?_)
  have hid : domain.id = row.domainId := Table.key_of_get hd
  -- the handlers, after the resolver has been asked
  have hhandler : ∀ e, answers lookups = .error e → ∀ σ' q', σ'.InStep db₂ →
      (q.seen t).After [] 1 q' → q'.since = t →
      Alone c (fun _ _ db' q' ↦ Processed cfg lookups ⟨x, r⟩ db q db' q')
        (handleDiscoveryError cfg x (some r) e) σ' db₂ q' := by
    intro e he σ' q' hσ' hq' hsince
    have hfailed : ∀ t', Settled db x row.domainId .failed []
        (db₂.settle x row.domainId (.failed t' e.message) .failed) :=
      fun t' ↦ hbegun.trans (settled_settle hx₂ .failed rfl)
    refine alone_handleDiscoveryError hσ' hup hx₂ (fun t' ↦ ?_) (fun t' ↦ ?_)
      (fun hretry hr σ' ↦ ?_) fun hfinal t' pick q'' σ' ht' hq'' ↦ ?_
    · have hmarked := marked_updateScan hx₂ (p := ScanPatch.failed t' e.message) rfl
      refine @hworking _ .failed ?_ (by simp) (by rw [hmarked.ledger, hrecords₂])
      rw [hmarked.board, hbegun.board, Board.setScan_setScan]
    · have hrecords : (db₂.settle x row.domainId (.failed t' e.message) .failed).ledger.records =
          db.ledger.records := by
        rw [(hfailed t').ledger, Ledger.addRecords_nil]
        rfl
      exact hworking ((hfailed t').board []) (by simp) hrecords
    · subst hdb
      refine .retried hx hactive ht he hretry hr ⟨?_, hq'.resolutions⟩
      rw [Trail.push, hq'.queue, List.append_nil]
      rfl
    · subst hdb
      have hafter := hq'.then hq''
      exact .failed hx hactive ht (hsince.symm.trans_le ht') he hfinal rfl
        ⟨hafter.queue, hafter.resolutions⟩
  simp only [goesOn]
  refine alone_tryExcept ?_
  refine alone_bind (alone_readDomain hσ₃ hd₂ fun σ₄ hσ₄ ↦ ?_)
  simp only [goesOn]
  refine alone_bind (alone_resolveTypes hlookups recordTypes [] fun q₁ n hq₁ hsince hle hge ↦ ?_)
  obtain rfl : n = 1 := le_antisymm (by simpa [recordTypes] using hle) (hge rfl)
  cases hrs : answersFrom lookups recordTypes [] with
  | error e => exact hhandler e hrs σ₄ q₁ hσ₄ hq₁ hsince
  | ok rs =>
    simp only [goesOn]
    refine alone_bind (alone_readScan hσ₄ hx₂ fun σ₅ hσ₅ ↦ ?_)
    have hxid₂ : ((ScanPatch.running t).apply row).id = x := Table.key_of_get hx₂
    simp only [goesOn, hid, hxid₂]
    have hkept : ∀ {db' : Database}, db'.ledger.records = (db₂.ledger.addRecords x rs).records →
        c.keeps db' := by
      intro db' h
      refine hkeeps db' (.stored hhas hrs ?_)
      rw [h, Ledger.addRecords_records_self, hrecords₂]
    refine alone_bind (alone_createAssets hσ₅ (by simp [hx₂]) (by simp [hd₂])
      (fun _ db₃ hstored ↦ hkept (by rw [hstored.filled.ledger]))
      (fun hfits db₃ drawn hstored ↦ ?_) fun hfits drawn ↦ ?_)
    · have hx₃ : db₃.scans.get x = some ((ScanPatch.running t).apply row) := by
        rw [hstored.scans, hx₂]
      have hcompleted : ∀ t', Settled db₂ x row.domainId .completed rs
          (db₃.settle x row.domainId (.completed t') .completed) :=
        fun t' ↦ hstored.filled.settled (settled_settle hx₃ .completed rfl)
      simp only [goesOn]
      refine alone_bind (alone_markScan (inStep_new db₃) hx₃ (fun t' ↦ ?_) fun t' σ₆ ht' hσ₆ ↦ ?_)
      · have hmarked := marked_updateScan hx₃ (p := ScanPatch.completed t') rfl
        exact hkept (by rw [← hstored.filled.ledger, ← hmarked.ledger]; rfl)
      · have hx₄ : (db₃.updateScan x (.completed t')).scans.get x =
            some ((ScanPatch.completed t').apply ((ScanPatch.running t).apply row)) := by
          rw [Database.scans_get_updateScan, if_pos rfl, hx₃]
          rfl
        simp only [goesOn]
        refine alone_settleDomain hσ₆ hup hx₄ ?_ fun pick q' σ' hq' ↦ ?_
        · have hrecords : (db₃.settle x row.domainId (.completed t') .completed).ledger.records =
              (db₂.ledger.addRecords x rs).records := by
            rw [(hcompleted t').ledger]
            rfl
          exact hkept hrecords
        · subst hdb
          have hdone : q₁.After _ 0 q' := ⟨hq'.queue, hq'.resolutions⟩
          have hafter := hq₁.then hdone
          exact .completed hx hactive ht (hsince.symm.trans_le ht') hrs hfits hstored rfl
            ⟨hafter.queue, hafter.resolutions⟩
    · simp only [goesOn]
      subst hdb
      refine alone_handleDiscoveryError_refused rfl rfl
        (Processed.unfit hx hactive ht hrs hfits ⟨?_, hq₁.resolutions⟩)
      exact hq₁.queue

/-- **A delivery that runs alone** ends in one of the ways of `Processed`, and can be stopped only
in the states of `Interim`. -/
theorem alone_processScan {cfg : Settings} {x r : Id} (hup : c.up = true)
    (hlookups : c.lookups = some lookups) (hkeeps : ∀ db', Interim lookups x db db' → c.keeps db') :
    Alone c (fun _ _ db' q' ↦ Processed cfg lookups ⟨x, r⟩ db q db' q')
      (processScan cfg x (some r)) new db q := by
  have hsame : q.After [] 0 q := ⟨(List.append_nil _).symm, rfl⟩
  refine alone_tryFinally_close (alone_bind (alone_getScan (inStep_new db) fun σ₁ hσ₁ ↦ ?_))
  simp only [goesOn]
  cases hx : db.scans.get x with
  | none =>
    refine alone_pure (Processed.dropped (fun row hrow ↦ ?_) hsame)
    rw [hx] at hrow
    exact absurd hrow (by simp)
  | some row =>
    simp only
    by_cases hactive : row.status.IsActive
    swap
    · rw [if_pos hactive]
      refine alone_pure (Processed.dropped (fun row' hrow' ↦ ?_) hsame)
      rw [hx] at hrow'
      rwa [← Option.some.inj hrow']
    rw [if_neg (not_not.2 hactive)]
    refine alone_bind (alone_getDomain hσ₁ fun σ₂ hσ₂ ↦ ?_)
    obtain ⟨domain, hdom⟩ := Database.exists_domain hx
    have hid : domain.id = row.domainId := Table.key_of_get hdom
    simp only [goesOn, hdom, hid]
    refine alone_bind (alone_bind (alone_select hσ₂.failed fun pick ↦ ?_))
    simp only [goesOn, Database.answer]
    refine alone_pure ?_
    simp only [goesOn]
    split
    · next hguard =>
      have hst : row.status = .pending := (ScanStatus.isActive_iff.1 hactive).resolve_right hguard.2
      exact alone_pure (Processed.deferred hx hst hguard.1 hsame)
    · exact alone_runDiscovery hσ₂ hup hlookups hx hactive hkeeps

end Py

end AssetDiscovery
