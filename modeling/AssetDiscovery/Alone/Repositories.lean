import AssetDiscovery.Alone.Rules
import AssetDiscovery.Protocol
import AssetDiscovery.Rows

/-!
# Repositories, run alone

One lemma for every repository function that a worker, a request or the recovery calls; it says row
by row what the function leaves. What that comes to on the board and in the ledger is said by
`Marked` for a `mark_scan_*`, `Assigned` for `set_domain_status` and `Filled` for `create_assets`.

A session that nothing interferes with is *in step* with the database (`Session.InStep`): what it
has loaded is what is stored. So it does not matter which reads are answered from the session.
-/

set_option autoImplicit false

namespace AssetDiscovery

open Effect

/-- The session is in order, and what it has loaded is what is stored. -/
structure Session.InStep (σ : Session) (db : Database) : Prop extends σ.Clean where
  scans : ∀ x row, σ.scans x = some row → db.scans.get x = some row
  domains : ∀ d row, σ.domains d = some row → db.domains.get d = some row

namespace Session

variable {σ : Session} {db : Database}

/-- A new session has loaded nothing. -/
theorem inStep_new (db : Database) : new.InStep db :=
  ⟨clean_new, fun _ _ h ↦ absurd h nofun, fun _ _ h ↦ absurd h nofun⟩

/-- Loading a row as it is keeps the session in step. -/
theorem InStep.loadScan (h : σ.InStep db) {row : Scan} (hrow : db.scans.get row.id = some row) :
    (σ.loadScan row).InStep db := by
  refine ⟨h.toClean.loadScan row, fun y row' hy ↦ ?_, h.domains⟩
  by_cases hyx : y = row.id
  · subst hyx
    rw [loadScan_scans_self] at hy
    rw [← Option.some.inj hy]
    exact hrow
  · simp only [Session.loadScan, if_neg hyx] at hy
    exact h.scans y row' hy

/-- So does loading that of a domain. -/
theorem InStep.loadDomain (h : σ.InStep db) {row : Domain}
    (hrow : db.domains.get row.id = some row) : (σ.loadDomain row).InStep db := by
  refine ⟨h.toClean.loadDomain row, h.scans, fun d row' hd ↦ ?_⟩
  by_cases hdd : d = row.id
  · subst hdd
    rw [loadDomain_domains_self] at hd
    rw [← Option.some.inj hd]
    exact hrow
  · simp only [Session.loadDomain, if_neg hdd] at hd
    exact h.domains d row' hd

end Session

/-! ### What the commits do -/

/-- Scan `x` has got the status `st`; nothing else on the board or in the ledger has changed. -/
structure Marked (db : Database) (x : Id) (st : ScanStatus) (db' : Database) : Prop where
  board : ∀ q, db'.board q = (db.board q).setScan x (some st)
  ledger : db'.ledger = db.ledger

/-- Domain `d` has got the status `st`; nothing else has changed. -/
structure Assigned (db : Database) (d : Id) (st : DomainStatus) (db' : Database) : Prop where
  board : ∀ q, db'.board q = db.board q
  ledger : db'.ledger = db.ledger.setDomain d st

/-- The records `rs` have been stored for scan `x`; nothing else has changed. -/
structure Filled (db : Database) (x : Id) (rs : List (AssetType × String)) (db' : Database) :
    Prop where
  board : ∀ q, db'.board q = db.board q
  ledger : db'.ledger = db.ledger.addRecords x rs

/-- The second of two assignments counts. -/
theorem Board.setScan_setScan (b : Board) (x : Id) (st st' : ScanStatus) :
    (b.setScan x (some st)).setScan x (some st') = b.setScan x (some st') := by
  ext1
  · funext y
    by_cases hy : y = x <;> simp [Board.setScan, hy, Option.map_map, Function.comp_def]
  · rfl

theorem Ledger.setDomain_self {l : Ledger} {d : Id} {st : DomainStatus}
    (h : l.domains d = some st) : l.setDomain d st = l := by
  ext1
  · funext d'
    by_cases hd : d' = d
    · subst hd
      simp [setDomain, h]
    · simp [setDomain, hd]
  · rfl
  · rfl

namespace Database

variable {db : Database} (now : Time)

theorem writeAll_singleton {w : Write} : db.writeAll now [w] = db.write now w := by
  rw [writeAll]
  split
  · next h => rw [h, writeAll]
  · next h => exact h.symm

/-- An `UPDATE` of a stored scan succeeds. -/
theorem writeAll_updateScan {x : Id} {row : Scan} (hx : db.scans.get x = some row)
    (p : ScanPatch) : db.writeAll now [.updateScan x p] = .ok (db.updateScan x p) := by
  simp [writeAll_singleton, write, hx]

/-- An `UPDATE` of a stored domain succeeds. -/
theorem writeAll_updateDomain {d : Id} {row : Domain} (hd : db.domains.get d = some row)
    (st : DomainStatus) :
    db.writeAll now [.updateDomain d st] = .ok (db.updateDomain d st) := by
  simp [writeAll_singleton, write, hd]

/-- A stored scan belongs to a stored domain. -/
theorem exists_domain {x : Id} {row : Scan} (hx : db.scans.get x = some row) :
    ∃ domain, db.domains.get row.domainId = some domain :=
  Option.isSome_iff_exists.1 (db.scan_domain row (Table.mem_of_get hx))

end Database

/-! ### Updates of single rows -/

section Updates

variable {db : Database} {σ : Session} {x d : Id} {now : Time}

/-- Patches that do the same to the stored row do the same to the database. -/
theorem Database.updateScan_congr {p p' : ScanPatch}
    (h : ∀ row, db.scans.get x = some row → p.apply row = p'.apply row) :
    db.updateScan x p = db.updateScan x p' :=
  ext rfl (Table.modify_congr p.apply_id p'.apply_id h) rfl

/-- A patch that changes nothing of the row changes nothing. -/
theorem Database.updateScan_eq_self {p : ScanPatch}
    (h : ∀ row, db.scans.get x = some row → p.apply row = row) : db.updateScan x p = db :=
  ext rfl (Table.modify_eq_self p.apply_id h) rfl

/-- Setting the status that a domain has changes nothing. -/
theorem Database.updateDomain_eq_self {row : Domain} (hd : db.domains.get d = some row) :
    db.updateDomain d row.status = db := by
  have hself : ∀ row', db.domains.get d = some row' →
      { row' with status := row.status } = row' := by
    intro row' hrow'
    rw [hd] at hrow'
    rw [← Option.some.inj hrow']
  have hdomains : (db.updateDomain d row.status).domains = db.domains :=
    Table.modify_eq_self (by intro; rfl) hself
  exact ext hdomains rfl rfl

/-- The statements of `mark_scan_*` in a session that is in step do what the full `UPDATE` does. -/
theorem writeAll_assignScan (hσ : σ.InStep db) {row : Scan} (hx : db.scans.get x = some row)
    (p : ScanPatch) : db.writeAll now (σ.assignScan x p).work = .ok (db.updateScan x p) := by
  have hdiff : ∀ row', db.scans.get x = some row' → (p.diff row).apply row' = p.apply row' := by
    intro row' hrow'
    rw [hx] at hrow'
    rw [← Option.some.inj hrow', p.diff_apply]
  unfold Session.assignScan
  split
  · simpa [Session.addWork, hσ.work] using Database.writeAll_updateScan now hx p
  · next row' hrow' =>
    obtain rfl : row' = row := Option.some.inj ((hσ.scans x row' hrow').symm.trans hx)
    split
    · next hnone =>
      rw [hσ.work, ← Database.updateScan_congr hdiff, hnone]
      exact congrArg Except.ok (Database.updateScan_eq_self fun _ _ ↦ rfl).symm
    · rw [← Database.updateScan_congr hdiff]
      simpa [Session.addWork, Session.loadScan, hσ.work] using
        Database.writeAll_updateScan now hx (p.diff row')

/-- So do those of `set_domain_status`. -/
theorem writeAll_assignDomain (hσ : σ.InStep db) {row : Domain}
    (hd : db.domains.get d = some row) (st : DomainStatus) :
    db.writeAll now (σ.assignDomain d st).work = .ok (db.updateDomain d st) := by
  unfold Session.assignDomain
  split
  · simpa [Session.addWork, hσ.work] using Database.writeAll_updateDomain now hd st
  · next row' hrow' =>
    obtain rfl : row' = row := Option.some.inj ((hσ.domains d row' hrow').symm.trans hd)
    split
    · next hst =>
      rw [hσ.work, ← hst, Database.updateDomain_eq_self hd]
      rfl
    · simpa [Session.addWork, Session.loadDomain, hσ.work] using
        Database.writeAll_updateDomain now hd st

/-- A patch that sets the status marks the scan. -/
theorem marked_updateScan {row : Scan} (hx : db.scans.get x = some row) {p : ScanPatch}
    {st : ScanStatus} (hst : p.status = some st) : Marked db x st (db.updateScan x p) := by
  have hdb := Database.writeAll_updateScan 0 hx p
  rw [Database.writeAll_singleton] at hdb
  exact ⟨fun q ↦ by rw [Database.board_updateScan hdb, hst], Database.ledger_updateScan hdb⟩

/-- Setting the status of a domain assigns it. -/
theorem assigned_updateDomain {row : Domain} (hd : db.domains.get d = some row)
    (st : DomainStatus) : Assigned db d st (db.updateDomain d st) := by
  have hdb := Database.writeAll_updateDomain 0 hd st
  refine ⟨fun q ↦ board_of_setDomain (Or.inr rfl) hdb, ?_⟩
  rw [Database.writeAll_singleton] at hdb
  exact Database.ledger_updateDomain hdb

end Updates

/-! ### New rows -/

/-- Every record fits the column it is stored in. -/
def Fits (rs : List (AssetType × String)) : Prop :=
  ∀ r ∈ rs, r.2.length ≤ valueWidth

instance : DecidablePred Fits := fun rs ↦
  inferInstanceAs (Decidable (∀ r ∈ rs, r.2.length ≤ valueWidth))

/-- The `INSERT`s of one asset row for each record. -/
def inserts (x d : Id) (ids : List Id) (rs : List (AssetType × String)) : List Write :=
  ids.zipWith (fun id r ↦ .insertAsset id x d r.1 r.2) rs

/-- The records `rs` have been stored as new assets of scan `x` of domain `d`. -/
structure Stored (db : Database) (x d : Id) (rs : List (AssetType × String)) (db' : Database) :
    Prop where
  domains : db'.domains = db.domains
  scans : db'.scans = db.scans
  assets : ∃ rows, db'.assets.rows = db.assets.rows ++ rows ∧ rows.map Database.recordOf = rs ∧
    ∀ a ∈ rows, a.scanId = x ∧ a.domainId = d

/-- Storing the records of a scan fills it. -/
theorem Stored.filled {db db' : Database} {x d : Id} {rs : List (AssetType × String)}
    (h : Stored db x d rs db') : Filled db x rs db' := by
  obtain ⟨rows, hassets, hrows, hof⟩ := h.assets
  -- scans and domains are untouched, and the assets of other scans too
  refine ⟨fun q ↦ ?_, ?_⟩
  · simp only [Database.board, h.scans]
  · ext1
    · show (fun d ↦ (db'.domains.get d).map Domain.status) = _
      rw [h.domains]
      rfl
    · show (fun d ↦ (db'.scansOf d).getLast?.map Scan.id) = _
      simp only [Database.scansOf, h.scans]
      rfl
    · funext y
      show (db'.assetsOf y).map Database.recordOf = _
      rw [Database.assetsOf, hassets, List.filter_append, List.map_append]
      by_cases hy : y = x
      · subst hy
        have hall : rows.filter (fun a ↦ a.scanId = y) = rows :=
          List.filter_eq_self.2 fun a ha ↦ by simp [(hof a ha).1]
        rw [hall, hrows]
        exact (if_pos rfl).symm
      · have hnone : rows.filter (fun a ↦ a.scanId = y) = [] :=
          List.filter_eq_nil_iff.2 fun a ha ↦ by simp [(hof a ha).1, Ne.symm hy]
        rw [hnone]
        simp only [Ledger.addRecords, if_neg hy, List.map_nil, List.append_nil]
        rfl

namespace Database

variable {db : Database} (now : Time)

/-- Inserting assets with new ids stores the records, unless one of them is too long. -/
theorem writeAll_inserts {x d : Id} {ids : List Id} {rs : List (AssetType × String)}
    (hlen : ids.length = rs.length) (hnodup : ids.Nodup)
    (hfree : ∀ id ∈ ids, db.assets.get id = none) (hx : (db.scans.get x).isSome)
    (hd : (db.domains.get d).isSome) :
    if Fits rs then ∃ db', db.writeAll now (inserts x d ids rs) = .ok db' ∧ Stored db x d rs db' ∧
        (∀ id, (db.assets.get id).isSome ∨ id ∈ ids → (db'.assets.get id).isSome)
      else db.writeAll now (inserts x d ids rs) = .error .data := by
  induction rs generalizing ids db with
  | nil =>
    obtain rfl := List.eq_nil_of_length_eq_zero hlen
    rw [if_pos (by simp [Fits])]
    refine ⟨db, rfl, ⟨rfl, rfl, [], by simp, rfl, by simp⟩, fun id h ↦ ?_⟩
    exact h.resolve_right List.not_mem_nil
  | cons r rs ih =>
    obtain ⟨id, ids, rfl⟩ := List.exists_cons_of_length_eq_add_one hlen
    obtain ⟨hid, hnodup⟩ := List.nodup_cons.1 hnodup
    have hwrites : inserts x d (id :: ids) (r :: rs) =
      .insertAsset id x d r.1 r.2 :: inserts x d ids rs := rfl
    rw [hwrites, writeAll]
    -- the first value that is too long refuses the whole transaction
    by_cases hr : r.2.length > valueWidth
    · have herror : db.write now (.insertAsset id x d r.1 r.2) = .error .data := by
        simp [write, hr]
      rw [herror, if_neg]
      intro hfits
      exact absurd (hfits r List.mem_cons_self) (by omega)
    · have hfree' := hfree id List.mem_cons_self
      have hins : db.write now (.insertAsset id x d r.1 r.2) =
          .ok (db.insertAsset ⟨id, x, d, r.1, r.2, now⟩ hfree' hx hd) := by
        simp [write, hr, hfree', hx, hd]
      rw [hins]
      have hget : ∀ k, (db.insertAsset ⟨id, x, d, r.1, r.2, now⟩ hfree' hx hd).assets.get k =
          if id = k then some ⟨id, x, d, r.1, r.2, now⟩ else db.assets.get k :=
        fun k ↦ Table.get_insert db.assets ⟨id, x, d, r.1, r.2, now⟩ hfree' k
      -- the remaining records are stored into the table that has this one
      have hrest := @ih (db.insertAsset ⟨id, x, d, r.1, r.2, now⟩ hfree' hx hd) ids
        (Nat.succ.inj hlen) hnodup (fun k hk ↦ ?_) hx hd
      · have hfits : Fits (r :: rs) ↔ Fits rs := by
          simp only [Fits, List.mem_cons, forall_eq_or_imp]
          exact and_iff_right (by omega)
        simp only [hfits]
        split at hrest
        · next hf =>
          rw [if_pos hf]
          obtain ⟨db', hdb', ⟨hdomains, hscans, rows, hrows, hrecords, hof⟩, hassets⟩ := hrest
          refine ⟨db', hdb', ⟨hdomains, hscans, ⟨id, x, d, r.1, r.2, now⟩ :: rows, ?_, ?_, ?_⟩,
            fun k hk ↦ hassets k ?_⟩
          · rw [hrows]
            exact List.append_assoc _ [_] rows
          · rw [List.map_cons, hrecords]
            rfl
          · exact List.forall_mem_cons.2 ⟨⟨rfl, rfl⟩, hof⟩
          · rw [hget]
            by_cases hk' : id = k
            · exact Or.inl (by simp [hk'])
            · rw [if_neg hk']
              refine hk.imp_right fun hmem ↦ ?_
              exact (List.mem_cons.1 hmem).resolve_left (Ne.symm hk')
        · next hf =>
          rw [if_neg hf]
          exact hrest
      · rw [hget, if_neg (fun h : id = k ↦ hid (h ▸ hk))]
        exact hfree k (List.mem_cons_of_mem _ hk)

end Database

namespace Py

open Session

variable {c : Conditions} {σ : Session} {db : Database} {q : Trail}

/-! ### Reads -/

/-- Reading a row keeps the session in step. -/
theorem alone_fetchScan {Q : Except Exn (Option Scan) → Session → Database → Trail → Prop}
    {x : Id} (hσ : σ.InStep db) (h : ∀ σ', σ'.InStep db → Q (.ok (db.scans.get x)) σ' db q) :
    Alone c Q (fetchScan x) σ db q := by
  refine alone_bind (alone_select hσ.failed fun pick ↦ ?_)
  simp only [goesOn, Database.answer]
  cases hx : db.scans.get x with
  | none =>
    rw [hx] at h
    exact alone_pure (h σ hσ)
  | some row =>
    rw [hx] at h
    have hrow : db.scans.get row.id = some row := by rw [Table.key_of_get hx, hx]
    exact alone_bind (alone_modify (alone_pure (h _ (hσ.loadScan hrow))))

/-- A scan is looked up in the session or in the database, which agree. -/
theorem alone_getScan {Q : Except Exn (Option Scan) → Session → Database → Trail → Prop}
    {x : Id} (hσ : σ.InStep db) (h : ∀ σ', σ'.InStep db → Q (.ok (db.scans.get x)) σ' db q) :
    Alone c Q (getScan x) σ db q := by
  refine alone_bind (alone_session ?_)
  simp only [goesOn]
  cases hx : σ.scans x with
  | none => exact alone_fetchScan hσ h
  | some row =>
    rw [hσ.scans x row hx] at h
    exact alone_pure (h σ hσ)

/-- Reading a stored scan gives its row. -/
theorem alone_readScan {Q : Except Exn Scan → Session → Database → Trail → Prop} {x : Id}
    {row : Scan} (hσ : σ.InStep db) (hx : db.scans.get x = some row)
    (h : ∀ σ', σ'.InStep db → Q (.ok row) σ' db q) : Alone c Q (readScan x) σ db q := by
  refine alone_bind (alone_getScan hσ fun σ' hσ' ↦ ?_)
  rw [hx]
  exact alone_pure (h σ' hσ')

/-- So does a refresh. -/
theorem alone_refreshScan {Q : Except Exn Scan → Session → Database → Trail → Prop} {x : Id}
    {row : Scan} (hσ : σ.InStep db) (hx : db.scans.get x = some row)
    (h : ∀ σ', σ'.InStep db → Q (.ok row) σ' db q) : Alone c Q (refreshScan x) σ db q := by
  refine alone_bind (alone_fetchScan hσ fun σ' hσ' ↦ ?_)
  rw [hx]
  exact alone_pure (h σ' hσ')

/-- Reading the row of a domain keeps the session in step. -/
theorem alone_fetchDomain {Q : Except Exn (Option Domain) → Session → Database → Trail → Prop}
    {d : Id} (hσ : σ.InStep db) (h : ∀ σ', σ'.InStep db → Q (.ok (db.domains.get d)) σ' db q) :
    Alone c Q (fetchDomain d) σ db q := by
  refine alone_bind (alone_select hσ.failed fun pick ↦ ?_)
  simp only [goesOn, Database.answer]
  cases hd : db.domains.get d with
  | none =>
    rw [hd] at h
    exact alone_pure (h σ hσ)
  | some row =>
    rw [hd] at h
    have hrow : db.domains.get row.id = some row := by rw [Table.key_of_get hd, hd]
    exact alone_bind (alone_modify (alone_pure (h _ (hσ.loadDomain hrow))))

/-- A domain is looked up in the session or in the database, which agree. -/
theorem alone_getDomain {Q : Except Exn (Option Domain) → Session → Database → Trail → Prop}
    {d : Id} (hσ : σ.InStep db) (h : ∀ σ', σ'.InStep db → Q (.ok (db.domains.get d)) σ' db q) :
    Alone c Q (getDomain d) σ db q := by
  refine alone_bind (alone_session ?_)
  simp only [goesOn]
  cases hd : σ.domains d with
  | none => exact alone_fetchDomain hσ h
  | some row =>
    rw [hσ.domains d row hd] at h
    exact alone_pure (h σ hσ)

/-- Reading a stored domain gives its row. -/
theorem alone_readDomain {Q : Except Exn Domain → Session → Database → Trail → Prop}
    {d : Id} {row : Domain} (hσ : σ.InStep db) (hd : db.domains.get d = some row)
    (h : ∀ σ', σ'.InStep db → Q (.ok row) σ' db q) : Alone c Q (readDomain d) σ db q := by
  refine alone_bind (alone_getDomain hσ fun σ' hσ' ↦ ?_)
  rw [hd]
  exact alone_pure (h σ' hσ')

/-- So does a refresh of it. -/
theorem alone_refreshDomain {Q : Except Exn Domain → Session → Database → Trail → Prop}
    {d : Id} {row : Domain} (hσ : σ.InStep db) (hd : db.domains.get d = some row)
    (h : ∀ σ', σ'.InStep db → Q (.ok row) σ' db q) : Alone c Q (refreshDomain d) σ db q := by
  refine alone_bind (alone_fetchDomain hσ fun σ' hσ' ↦ ?_)
  rw [hd]
  exact alone_pure (h σ' hσ')

/-! ### Commits -/

/-- A commit whose statements succeed. -/
theorem alone_commit_ok {site : Site}
    {Q : Except Exn Unit → Session → Database → Trail → Prop} (hfailed : σ.failed = false)
    {R : Database → Prop}
    (hwrites : ∀ now, ∃ db', db.writeAll now (σ.flushed ++ σ.work) = .ok db' ∧ R db')
    (hkeeps : ∀ db', R db' → c.keeps db') (h : ∀ db', R db' → Q (.ok ()) new db' q) :
    Alone c Q (commit site) σ db q := by
  refine alone_commit hfailed fun now ↦ ?_
  obtain ⟨db', hdb, hR⟩ := hwrites now
  rw [hdb]
  refine ⟨hkeeps db' hR, ?_⟩
  rw [expire_eq_of_failed hfailed]
  exact h db' hR

/-- `mark_scan_*` of a stored scan. -/
theorem alone_markScan {Q : Except Exn Scan → Session → Database → Trail → Prop}
    {site : Site} {x : Id} {row : Scan} {patch : Time → ScanPatch} (hσ : σ.InStep db)
    (hx : db.scans.get x = some row) (hkeeps : ∀ t, c.keeps (db.updateScan x (patch t)))
    (h : ∀ t σ', q.since ≤ t → σ'.InStep (db.updateScan x (patch t)) →
      Q (.ok ((patch t).apply row)) σ' (db.updateScan x (patch t)) (q.seen t)) :
    Alone c Q (ScanRepo.markScan site x patch) σ db q := by
  refine alone_bind (alone_now fun t ht ↦ ?_)
  refine alone_bind (alone_modify ?_)
  refine alone_bind (alone_commit_ok (R := (· = db.updateScan x (patch t))) (by simp [hσ.failed])
    (fun now ↦ ⟨_, ?_, rfl⟩) (by rintro _ rfl; exact hkeeps t) ?_)
  · rw [assignScan_flushed, hσ.flushed, List.nil_append]
    exact writeAll_assignScan hσ hx (patch t)
  · rintro _ rfl
    refine alone_refreshScan (inStep_new _) ?_ fun σ' hσ' ↦ h t σ' ht hσ'
    rw [Database.scans_get_updateScan, if_pos rfl, hx]
    rfl

/-- `set_domain_status` of a stored domain. -/
theorem alone_setDomainStatus {Q : Except Exn Domain → Session → Database → Trail → Prop}
    {d : Id} {row : Domain} {st : DomainStatus} (hσ : σ.InStep db)
    (hd : db.domains.get d = some row) (hkeeps : c.keeps (db.updateDomain d st))
    (h : ∀ σ', σ'.InStep (db.updateDomain d st) →
      Q (.ok { row with status := st }) σ' (db.updateDomain d st) q) :
    Alone c Q (ScanRepo.setDomainStatus d st) σ db q := by
  refine alone_bind (alone_modify ?_)
  refine alone_bind (alone_commit_ok (R := (· = db.updateDomain d st)) (by simp [hσ.failed])
    (fun now ↦ ⟨_, ?_, rfl⟩) (by rintro _ rfl; exact hkeeps) ?_)
  · rw [assignDomain_flushed, hσ.flushed, List.nil_append]
    exact writeAll_assignDomain hσ hd st
  · rintro _ rfl
    refine alone_refreshDomain (inStep_new _) ?_ h
    rw [Database.domains_get_updateDomain, if_pos rfl, hd]
    rfl

/-! ### `create_assets` -/

/-- `db.add_all` draws new ids and adds the `INSERT`s to the next flush. -/
theorem alone_addAssets {Q : Except Exn (List Id) → Session → Database → Trail → Prop}
    {x d : Id} {rs : List (AssetType × String)}
    (h : ∀ (ids : List Id) (drawn : ℕ), ids.length = rs.length → ids.Nodup →
      (∀ id ∈ ids, db.idBound ≤ id ∧ q.drawn ≤ id) →
      Q (.ok ids) { σ with work := σ.work ++ inserts x d ids rs } db { q with drawn := drawn }) :
    Alone c Q (AssetRepo.addAssets x d rs) σ db q := by
  induction rs generalizing σ q Q with
  | nil =>
    refine alone_pure ?_
    simpa [inserts] using h [] q.drawn rfl List.nodup_nil (by simp)
  | cons r rs ih =>
    refine alone_bind (alone_uuid4 fun id hbound hdrawn ↦ ?_)
    refine alone_bind (alone_modify (alone_bind (ih fun ids drawn hlen hnodup hids ↦ ?_)))
    have hlater : ∀ id' ∈ ids, id + 1 ≤ id' := fun id' hid' ↦ (hids id' hid').2
    have hdone := h (id :: ids) drawn (by simp [hlen]) (List.nodup_cons.2 ⟨fun hid ↦ ?_, hnodup⟩) ?_
    · refine alone_pure ?_
      simpa [addWork, inserts, Trail.draw] using hdone
    · exact absurd (hlater id hid) (by omega)
    · intro id' hid'
      rcases List.mem_cons.1 hid' with rfl | hid'
      · exact ⟨hbound, hdrawn⟩
      · exact ⟨(hids id' hid').1, by have := hlater id' hid'; omega⟩

/-- `create_assets` for a stored scan of a stored domain stores all records, or none of them if one
does not fit. -/
theorem alone_createAssets {Q : Except Exn Unit → Session → Database → Trail → Prop}
    {x d : Id} {rs : List (AssetType × String)} (hσ : σ.InStep db)
    (hx : (db.scans.get x).isSome) (hd : (db.domains.get d).isSome)
    (hkeeps : Fits rs → ∀ db', Stored db x d rs db' → c.keeps db')
    (hok : Fits rs → ∀ db' drawn, Stored db x d rs db' →
      Q (.ok ()) new db' { q with drawn := drawn })
    (hbad : ¬ Fits rs → ∀ drawn,
      Q (.error (.database .data)) { new with failed := true } db { q with drawn := drawn }) :
    Alone c Q (AssetRepo.createAssets x d rs) σ db q := by
  refine alone_bind (alone_addAssets fun ids drawn hlen hnodup hids ↦ ?_)
  have hfree : ∀ id ∈ ids, db.assets.get id = none :=
    fun id hid ↦ Database.assets_get_of_idBound_le (hids id hid).1
  have hwrites := fun now ↦ Database.writeAll_inserts now hlen hnodup hfree hx hd
  have hws : σ.flushed ++ (σ.work ++ inserts x d ids rs) = inserts x d ids rs := by
    rw [hσ.flushed, hσ.work]
    rfl
  by_cases hfits : Fits rs
  · simp only [if_pos hfits] at hwrites
    refine alone_bind (alone_commit_ok (R := fun db' ↦ Stored db x d rs db' ∧
      ∀ id ∈ ids, (db'.assets.get id).isSome) hσ.failed (fun now ↦ ?_)
      (fun db' h ↦ hkeeps hfits db' h.1) ?_)
    · obtain ⟨db', hdb', hstored, hassets⟩ := hwrites now
      exact ⟨db', (congrArg (Database.writeAll now · db) hws).trans hdb', hstored,
        fun id hid ↦ hassets id (Or.inr hid)⟩
    · rintro db' ⟨hstored, hassets⟩
      -- `db.refresh` of each asset in turn, which reads rows just committed
      refine (alone_forM (fun left σ db₁ q₁ ↦ σ = new ∧ db₁ = db' ∧
        q₁ = { q with drawn := drawn } ∧ ∀ id ∈ left, (db'.assets.get id).isSome) ?_ ids
        ⟨rfl, rfl, rfl, hassets⟩).mono ?_
      · rintro id left _ _ _ ⟨rfl, rfl, rfl, hleft⟩
        refine alone_bind (alone_select rfl fun pick ↦ ?_)
        obtain ⟨row, hrow⟩ := Option.isSome_iff_exists.1 (hleft id List.mem_cons_self)
        simp only [goesOn, Database.answer, hrow]
        exact alone_pure ⟨rfl, rfl, rfl, rfl, fun k hk ↦ hleft k (List.mem_cons_of_mem _ hk)⟩
      · rintro _ _ _ _ ⟨rfl, rfl, rfl, rfl, -⟩
        exact hok hfits _ drawn hstored
  · simp only [if_neg hfits] at hwrites
    -- the commit raises `DataError` and the session is left in need of a rollback
    refine alone_bind (alone_commit hσ.failed fun now ↦ ?_)
    rw [(congrArg (Database.writeAll now · db) hws).trans (hwrites now)]
    show Q _ { Session.expire { σ with work := _ } with failed := true } db _
    rw [expire_eq_of_failed (by exact hσ.failed)]
    exact hbad hfits drawn

end Py

end AssetDiscovery
