import AssetDiscovery.Mirroring

/-!
# Well-formed rows

Seven functions of the repositories write the columns of a scan, each of them a few. In a history of
complete operations, one after another, the columns nevertheless suit the status of the scan
(`Scan.WellFormed`), and only COMPLETED scans have assets (`Database.WellFormed`).

A delivery is the operation with an argument: between its commits a RUNNING scan has assets, so the
rows are compared before its first commit and after its last one (`Database.WellFormed.settle`).
-/

set_option autoImplicit false

namespace AssetDiscovery

/-- A job of the scan has started, and has ended no earlier. -/
def Scan.Ran (row : Scan) : Prop :=
  ∃ t t', row.startedAt = some t ∧ row.completedAt = some t' ∧ t ≤ t'

/-- The columns of a scan suit its status. -/
structure Scan.WellFormed (row : Scan) : Prop where
  pending : row.status = .pending → row.startedAt = none ∧ row.completedAt = none
  running : row.status = .running →
    row.startedAt.isSome ∧ row.completedAt = none ∧ row.errorMessage = none
  completed : row.status = .completed → row.Ran ∧ row.errorMessage = none
  failed : row.status = .failed → row.Ran ∧ ∃ text, row.errorMessage = some text ∧ text ≠ ""

/-- Every scan is well-formed, and every asset belongs to a COMPLETED scan and to its domain. -/
structure Database.WellFormed (db : Database) : Prop where
  scans : ∀ row ∈ db.scans, row.WellFormed
  /-- Only COMPLETED scans have assets. -/
  completed : ∀ row ∈ db.scans, db.assetsOf row.id ≠ [] → row.status = .completed
  /-- The scan and the domain of an asset are stored, and the domain is that of the scan. -/
  parents : ∀ a ∈ db.assets, ∃ row ∈ db.scans, ∃ domain ∈ db.domains,
    row.id = a.scanId ∧ domain.id = a.domainId ∧ a.domainId = row.domainId

/-! ### Rows -/

namespace Scan.WellFormed

variable {row : Scan}

/-- `mark_scan_running` of a scan that is not finished. -/
theorem markRunning (h : row.WellFormed) (hactive : row.status.IsActive) (t : Time) :
    ((ScanPatch.running t).apply row).WellFormed := by
  have hcompletedAt : row.completedAt = none := by
    rcases ScanStatus.isActive_iff.1 hactive with hst | hst
    · exact (h.pending hst).2
    · exact (h.running hst).2.1
  constructor
  · exact fun hst ↦ absurd hst (by simp [ScanPatch.running])
  · exact fun _ ↦ ⟨rfl, hcompletedAt, rfl⟩
  · exact fun hst ↦ absurd hst (by simp [ScanPatch.running])
  · exact fun hst ↦ absurd hst (by simp [ScanPatch.running])

/-- `mark_scan_completed` of a scan that has started. -/
theorem markCompleted {t t' : Time} (hrow : row.startedAt = some t) (ht : t ≤ t') :
    ((ScanPatch.completed t').apply row).WellFormed := by
  constructor
  · exact fun hst ↦ absurd hst (by simp [ScanPatch.completed])
  · exact fun hst ↦ absurd hst (by simp [ScanPatch.completed])
  · exact fun _ ↦ ⟨⟨t, t', hrow, rfl, ht⟩, rfl⟩
  · exact fun hst ↦ absurd hst (by simp [ScanPatch.completed])

/-- `mark_scan_failed` of a scan that has started. -/
theorem markFailed {t t' : Time} {text : String} (hrow : row.startedAt = some t) (ht : t ≤ t')
    (htext : text ≠ "") : ((ScanPatch.failed t' text).apply row).WellFormed := by
  constructor
  · exact fun hst ↦ absurd hst (by simp [ScanPatch.failed])
  · exact fun hst ↦ absurd hst (by simp [ScanPatch.failed])
  · exact fun hst ↦ absurd hst (by simp [ScanPatch.failed])
  · exact fun _ ↦ ⟨⟨t, t', hrow, rfl, ht⟩, text, rfl, htext⟩

/-- `create_scan`. -/
theorem new (x d : Id) (user : Option Id) (now : Time) :
    Scan.WellFormed ⟨x, d, .pending, user, none, none, none, now⟩ := by
  constructor
  · exact fun _ ↦ ⟨rfl, rfl⟩
  · exact fun hst ↦ absurd hst (by simp)
  · exact fun hst ↦ absurd hst (by simp)
  · exact fun hst ↦ absurd hst (by simp)

/-- `reset_interrupted_scans`. -/
theorem restart (h : row.WellFormed) : row.restart.WellFormed := by
  unfold Scan.restart
  split
  · next hrunning =>
    constructor
    · exact fun _ ↦ ⟨rfl, (h.running hrunning).2.1⟩
    · exact fun hst ↦ absurd hst (by simp [ScanRepo.interruptedPatch])
    · exact fun hst ↦ absurd hst (by simp [ScanRepo.interruptedPatch])
    · exact fun hst ↦ absurd hst (by simp [ScanRepo.interruptedPatch])
  · exact h

end Scan.WellFormed

/-! ### Tables -/

namespace Database.WellFormed

variable {db db' : Database}

/-- The scan of an asset is COMPLETED. -/
theorem status_of_asset (h : db.WellFormed) {a : Asset} (ha : a ∈ db.assets) {row : Scan}
    (hrow : db.scans.get a.scanId = some row) : row.status = .completed := by
  have hid : row.id = a.scanId := Table.key_of_get hrow
  refine h.completed row (Table.mem_of_get hrow) (List.ne_nil_of_mem (a := a) ?_)
  simpa [Database.assetsOf, hid, Table.mem_rows] using ha

/-- It is enough to know each asset's scan. -/
theorem of_assets (hscans : ∀ row ∈ db.scans, row.WellFormed)
    (hassets : ∀ a ∈ db.assets, ∃ row, db.scans.get a.scanId = some row ∧
      row.status = .completed ∧ row.domainId = a.domainId) : db.WellFormed := by
  refine ⟨hscans, fun row hrow hne ↦ ?_, fun a ha ↦ ?_⟩
  · obtain ⟨a, ha⟩ := List.exists_mem_of_ne_nil _ hne
    have ha : a ∈ db.assets ∧ a.scanId = row.id := by
      simpa [Database.assetsOf, Table.mem_rows] using ha
    obtain ⟨row', hrow', hst, -⟩ := hassets a ha.1
    rw [ha.2, Table.get_key hrow] at hrow'
    rwa [Option.some.inj hrow']
  · obtain ⟨row, hrow, -, hd⟩ := hassets a ha
    obtain ⟨domain, hdomain⟩ := Option.isSome_iff_exists.1 (db.asset_domain a ha)
    exact ⟨row, Table.mem_of_get hrow, domain, Table.mem_of_get hdomain, Table.key_of_get hrow,
      Table.key_of_get hdomain, hd.symm⟩

/-- The scan of an asset is completed, and of the same domain. -/
theorem exists_scan (h : db.WellFormed) {a : Asset} (ha : a ∈ db.assets) :
    ∃ row, db.scans.get a.scanId = some row ∧ row.status = .completed ∧
      row.domainId = a.domainId := by
  obtain ⟨row, hrow, domain, -, hid, -, hd⟩ := h.parents a ha
  have hget : db.scans.get a.scanId = some row := hid ▸ Table.get_key hrow
  exact ⟨row, hget, h.status_of_asset ha hget, hd.symm⟩

theorem empty : Database.empty.WellFormed :=
  of_assets (fun _ h ↦ absurd h (by simp [Database.empty]))
    fun _ h ↦ absurd h (by simp [Database.empty])

/-- A scan that is not finished gets new columns, after assets of it may have been stored that make
it COMPLETED. -/
theorem settle (h : db.WellFormed) {x d : Id} {row : Scan} {p : ScanPatch} {st : DomainStatus}
    (hx : db.scans.get x = some row) (hactive : row.status.IsActive)
    (hrow : (p.apply row).WellFormed) (hscans : db'.scans = db.scans)
    (hassets : ∀ a ∈ db'.assets, a ∈ db.assets ∨
      a.scanId = x ∧ a.domainId = row.domainId ∧ p.status = some .completed) :
    (db'.settle x d p st).WellFormed := by
  have hget := @Database.scans_get_settle db' x d p st
  rw [hscans] at hget
  refine of_assets (fun row' hrow' ↦ ?_) fun a ha ↦ ?_
  · have hrow' := Table.get_key hrow'
    rw [hget] at hrow'
    split at hrow'
    · next hid =>
      rw [hid, hx, Option.map_some] at hrow'
      rwa [← Option.some.inj hrow']
    · exact h.scans row' (Table.mem_of_get hrow')
  · rcases hassets a ha with ha | ⟨rfl, hd, hst⟩
    · obtain ⟨row', hrow', hst, hd⟩ := h.exists_scan ha
      refine ⟨row', ?_, hst, hd⟩
      rw [hget, if_neg, hrow']
      rintro hid
      rw [hid, hx] at hrow'
      rw [Option.some.inj hrow', hst] at hactive
      exact hactive
    · refine ⟨p.apply row, ?_, ?_, hd.symm⟩
      · rw [hget, if_pos rfl, hx]
        rfl
      · rw [ScanPatch.apply_status, hst]
        rfl

/-- A new PENDING scan. -/
theorem enrolled (h : db.WellFormed) {x d : Id} (h' : Enrolled db x d db') : db'.WellFormed := by
  obtain ⟨user, now, hrows⟩ := h'.scans
  have hmem : ∀ row, row ∈ db'.scans ↔
      row ∈ db.scans ∨ row = ⟨x, d, .pending, user, none, none, none, now⟩ := by
    intro row
    rw [← Table.mem_rows, hrows, List.mem_append, List.mem_singleton, Table.mem_rows]
  refine of_assets (fun row hrow ↦ ?_) fun a ha ↦ ?_
  · rcases (hmem row).1 hrow with hrow | rfl
    · exact h.scans row hrow
    · exact .new x d user now
  · rw [h'.assets] at ha
    obtain ⟨row, hrow, hst, hd⟩ := h.exists_scan ha
    refine ⟨row, ?_, hst, hd⟩
    rw [← Table.key_of_get hrow]
    exact Table.get_key ((hmem row).2 (Or.inl (Table.mem_of_get hrow)))

/-- A deletion takes whole scans away. -/
theorem deleteDomain (h : db.WellFormed) (d : Id) : (db.deleteDomain d).WellFormed := by
  refine of_assets (fun row hrow ↦ h.scans row (Table.mem_filter.1 hrow).1) fun a ha ↦ ?_
  obtain ⟨row, hrow, hst, hd⟩ := h.exists_scan (Table.mem_filter.1 ha).1
  refine ⟨row, ?_, hst, hd⟩
  obtain ⟨row', hrow'⟩ := Option.isSome_iff_exists.1 ((db.deleteDomain d).asset_scan a ha)
  have hsome := hrow'
  rw [Database.scans_get_deleteDomain] at hsome
  rw [hrow', ← hrow, Option.eq_some_of_filter_eq_some hsome]

/-- A recovery resets RUNNING scans, and leaves the others alone. -/
theorem recovered (h : db.WellFormed) {q q' : List Message} (h' : Recovered db q db' q') :
    db'.WellFormed := by
  refine of_assets (fun row hrow ↦ ?_) fun a ha ↦ ?_
  · have hget := Table.get_key hrow
    rw [h'.scans] at hget
    obtain ⟨row₀, hrow₀, rfl⟩ := Option.map_eq_some_iff.1 hget
    exact (h.scans row₀ (Table.mem_of_get hrow₀)).restart
  · rw [h'.assets] at ha
    obtain ⟨row, hrow, hst, hd⟩ := h.exists_scan ha
    have hsame : row.restart = row := if_neg (by rw [hst]; simp)
    exact ⟨row, by rw [h'.scans, hrow, Option.map_some, hsame], hst, hd⟩

end Database.WellFormed

/-! ### The text of a failure -/

/-- The class of the exception has a name. -/
def Lookup.Named : Lookup → Prop
  | .timeout className _ | .dnsError className _ | .otherError className _ => className ≠ ""
  | .answer _ | .nxdomain | .noAnswer | .noNameservers => True

instance : DecidablePred Lookup.Named := fun l ↦ by
  cases l <;> (unfold Lookup.Named; infer_instance)

/-- What `_fail_scan` stores is never empty: `str(exc) or exc.__class__.__name__`. -/
theorem Exn.message_ne {e : Exn} (h : e.className ≠ "") : e.message ≠ "" := by
  unfold Exn.message
  split
  · exact h
  · assumption

/-- An exception that the resolver raises has a class name. -/
theorem className_of_answers {lookups : AssetType → Lookup} (h : ∀ type, (lookups type).Named)
    {types : List AssetType} {results : List (AssetType × String)} {e : Exn}
    (he : answersFrom lookups types results = .error e) : e.className ≠ "" := by
  induction types generalizing results with
  | nil => exact absurd he (by simp [answersFrom])
  | cons type types ih =>
    have hnamed := h type
    unfold answersFrom at he
    cases hanswer : lookups type with
    | answer | nxdomain | noAnswer | noNameservers =>
      rw [hanswer] at he
      exact ih he
    | timeout | dnsError | otherError =>
      rw [hanswer] at he hnamed
      obtain rfl := Except.error.inj he
      exact hnamed

/-! ### Operations -/

/-- A delivery keeps the rows well-formed. -/
theorem Processed.wellFormed {cfg : Settings} {lookups : AssetType → Lookup} {m : Message}
    {db db' : Database} {q q' : Trail} (h : Processed cfg lookups m db q db' q')
    (hnamed : ∀ type, (lookups type).Named) (hdb : db.WellFormed) : db'.WellFormed := by
  -- `mark_scan_running` in all four cases that get past the guard
  have hbegun : ∀ {row : Scan} (t : Time), db.scans.get m.scan = some row → row.status.IsActive →
      (db.settle m.scan row.domainId (.running t) .running).WellFormed :=
    fun t hx hactive ↦ hdb.settle hx hactive
      ((hdb.scans _ (Table.mem_of_get hx)).markRunning hactive t) rfl fun _ ↦ Or.inl
  cases h with
  | dropped => exact hdb
  | deferred => exact hdb
  | retried hx hactive => exact hbegun _ hx hactive
  | unfit hx hactive => exact hbegun _ hx hactive
  | @completed row t t' rs db₁ db' pick q' hx hactive _ ht' _ _ hstored hdb' =>
    subst hdb'
    obtain ⟨rows, hassets, -, hof⟩ := hstored.assets
    have hx₁ : (db.settle m.scan row.domainId (.running t) .running).scans.get m.scan =
        some ((ScanPatch.running t).apply row) := Database.scans_get_settle_self hx
    refine (hbegun t hx hactive).settle hx₁ trivial (.markCompleted (t := t) rfl ht') hstored.scans
      fun a ha ↦ ?_
    rw [← Table.mem_rows, hassets, List.mem_append, Table.mem_rows] at ha
    rcases ha with ha | ha
    · exact Or.inl ha
    · exact Or.inr ⟨(hof a ha).1, (hof a ha).2, rfl⟩
  | @failed row t t' e db' pick q' hx hactive _ ht' he _ hdb' =>
    subst hdb'
    have hx₁ : (db.settle m.scan row.domainId (.running t) .running).scans.get m.scan =
        some ((ScanPatch.running t).apply row) := Database.scans_get_settle_self hx
    exact (hbegun t hx hactive).settle hx₁ trivial
      (.markFailed (t := t) rfl ht' (Exn.message_ne (className_of_answers hnamed he))) rfl
      fun _ ↦ Or.inl

namespace Operation

variable {cfg : Settings} {u : Unicode} {o : Operation} {a : Except Exn Response}
  {db db' : Database} {q q' : Trail}

/-- Every operation keeps the rows well-formed. -/
theorem Ends.wellFormed (h : o.Ends cfg u a db q db' q') (hnamed : ∀ type, (o.lookups type).Named)
    (hdb : db.WellFormed) : db'.WellFormed := by
  cases o with
  | request r =>
    cases r with
    | create payload user =>
      change Created u true payload db q a db' q' at h
      generalize q'.queue = ms at h
      cases h with
      | invalid => exact hdb
      | taken => exact hdb
      | created _ _ _ _ h => exact hdb.enrolled h.toEnrolled
      | unannounced hdown => exact absurd hdown (by simp)
    | trigger d user =>
      change Triggered true d db q a db' q' at h
      generalize q'.queue = ms at h
      cases h with
      | missing => exact hdb
      | occupied => exact hdb
      | accepted _ _ _ h => exact hdb.enrolled h.toEnrolled
      | unannounced hdown => exact absurd hdown (by simp)
    | delete d =>
      obtain ⟨h, -⟩ := h
      cases h with
      | missing => exact hdb
      | deleted => exact hdb.deleteDomain d
    | recover => exact hdb.recovered h.2
  | deliver m lookups => exact Processed.wellFormed h hnamed hdb

end Operation

namespace SerialRun

variable {cfg : Settings} {u : Unicode} {s : ℕ → Store} {o : ℕ → Operation} {n : ℕ}

/-- **The rows are well-formed in every state of a history.** -/
theorem rows_wellFormed (h : SerialRun cfg u s o n)
    (hnamed : ∀ k < n, ∀ type, ((o k).lookups type).Named) {k : ℕ} (hk : k ≤ n) :
    (s k).db.WellFormed := by
  induction k with
  | zero =>
    rw [h.start]
    exact .empty
  | succ k ih =>
    have hs := (h.latestActive (by omega : k ≤ n)).1
    obtain ⟨-, a, q', -, hends⟩ := (h.step k (by omega)).ends hs
    exact hends.wellFormed (hnamed k (by omega)) (ih (by omega))

/-- A domain is created, its scan meets a timeout, an API process starts, and of the two deliveries
that follow the first finds an address; a second scan fails. -/
def retriedAfterRecovery (k : ℕ) : Operation :=
  [.request (.create "a.b" 7), .deliver ⟨1, 0⟩ fun _ ↦ .timeout "LifetimeTimeout" "",
    .request .recover, .deliver ⟨1, 1⟩ fun _ ↦ .answer [⟨"192.0.2.1", "", ""⟩],
    .deliver ⟨1, 0⟩ fun _ ↦ .noAnswer, .request (.trigger 0 7),
    .deliver ⟨6, 0⟩ fun _ ↦ .otherError "OSError" ""].getD k (.request .recover)

/-- `rows_wellFormed` for a history with a COMPLETED and a FAILED scan. -/
theorem rows_wellFormed_retriedAfterRecovery :
    (states {} .plain retriedAfterRecovery 7).db.WellFormed := by
  have hrun : SerialRun {} .plain (states {} .plain retriedAfterRecovery) retriedAfterRecovery 7 :=
    of_states (by decide +kernel)
  refine rows_wellFormed hrun (fun k hk type ↦ ?_) le_rfl
  cases type <;> revert k <;> decide

end SerialRun

end AssetDiscovery
