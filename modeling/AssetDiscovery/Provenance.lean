import AssetDiscovery.Deletion

/-!
# Rows live as long as their domain

What a row is about is fixed when it is inserted (`Domain.origin`, `Scan.origin`; an asset never
changes at all), and nothing but the deletion of its domain removes it: `Database.Keeps` says that
of one domain and two states of the tables. It holds between any two states of a run in which the
domain is stored (`rows_kept`), with any requests, deliveries and failures.

An asset refers to its scan and, once more, to the domain; the two references agree
(`Database.Coherent`), because a worker stores assets under the domain that it has read from its
scan, and no other scan ever gets the id of that one.
-/

set_option autoImplicit false

namespace AssetDiscovery

open Effect Phase

/-- What is fixed about a domain: its name, who created it and when. -/
def Domain.origin (row : Domain) : String × Id × Time :=
  (row.name, row.createdBy, row.createdAt)

/-- What is fixed about a scan: its domain, who triggered it and when. -/
def Scan.origin (row : Scan) : Id × Option Id × Time :=
  (row.domainId, row.triggeredBy, row.createdAt)

namespace Database

variable {db db₁ db' : Database} {now : Time} {w : Write} {ws : List Write} {d x : Id}

/-- Every asset refers to the domain of its scan. -/
def Coherent (db : Database) : Prop :=
  ∀ a ∈ db.assets, ∀ row, db.scans.get a.scanId = some row → row.domainId = a.domainId

/-- Without assets there is nothing to contradict. -/
theorem coherent_empty : empty.Coherent :=
  fun _ h ↦ absurd h (Table.not_mem_empty _)

/-- The rows of domain `d` are still there, with the same origins. -/
structure Keeps (db db' : Database) (d : Id) : Prop where
  domain : ∀ row, db.domains.get d = some row →
    ∃ row', db'.domains.get d = some row' ∧ row'.origin = row.origin
  scans : ∀ x row, db.scans.get x = some row → row.domainId = d →
    ∃ row', db'.scans.get x = some row' ∧ row'.origin = row.origin
  assets : ∀ a ∈ db.assets, a.domainId = d → a ∈ db'.assets

theorem Keeps.refl (db : Database) (d : Id) : db.Keeps db d :=
  ⟨fun row h ↦ ⟨row, h, rfl⟩, fun _ row h _ ↦ ⟨row, h, rfl⟩, fun _ h _ ↦ h⟩

/-- What is kept twice is kept. -/
theorem Keeps.trans (h : db.Keeps db₁ d) (h' : db₁.Keeps db' d) : db.Keeps db' d := by
  refine ⟨fun row hrow ↦ ?_, fun x row hrow hd ↦ ?_,
    fun a ha hd ↦ h'.assets a (h.assets a ha hd) hd⟩
  · obtain ⟨row₁, hrow₁, horigin₁⟩ := h.domain row hrow
    obtain ⟨row', hrow', horigin'⟩ := h'.domain row₁ hrow₁
    exact ⟨row', hrow', horigin'.trans horigin₁⟩
  · obtain ⟨row₁, hrow₁, horigin₁⟩ := h.scans x row hrow hd
    have hd₁ : row₁.domainId = d := (congrArg Prod.fst horigin₁).trans hd
    obtain ⟨row', hrow', horigin'⟩ := h'.scans x row₁ hrow₁ hd₁
    exact ⟨row', hrow', horigin'.trans horigin₁⟩

/-! ### Statements -/

/-- Only the deletion of a domain removes rows of it, and no statement rewrites an origin. -/
theorem keeps_of_wrote (h : db.Wrote now w db')
    (hw : ∀ d', w = .deleteDomain d' → d ≠ d' ∧ db.Coherent) : db.Keeps db' d := by
  cases h with
  | insertDomain _ hid =>
    refine ⟨fun row hrow ↦ ⟨row, ?_, rfl⟩, fun _ row hrow _ ↦ ⟨row, hrow, rfl⟩, fun _ ha _ ↦ ha⟩
    rw [domains_get_insertDomain, if_neg, hrow]
    rintro rfl
    rw [hid] at hrow
    exact absurd hrow (by simp)
  | insertScan hid =>
    refine ⟨fun row hrow ↦ ⟨row, hrow, rfl⟩, fun y row hrow _ ↦ ⟨row, ?_, rfl⟩, fun _ ha _ ↦ ha⟩
    rw [scans_get_insertScan, if_neg, hrow]
    rintro rfl
    rw [hid] at hrow
    exact absurd hrow (by simp)
  | insertAsset _ hid =>
    exact ⟨fun row hrow ↦ ⟨row, hrow, rfl⟩, fun _ row hrow _ ↦ ⟨row, hrow, rfl⟩,
      fun _ ha _ ↦ (Table.mem_insert (h := hid)).2 (Or.inl ha)⟩
  | @updateScan y p =>
    refine ⟨fun row hrow ↦ ⟨row, hrow, rfl⟩, fun z row hrow _ ↦ ?_, fun _ ha _ ↦ ha⟩
    rw [scans_get_updateScan, hrow]
    split
    · exact ⟨p.apply row, rfl, rfl⟩
    · exact ⟨row, rfl, rfl⟩
  | @updateDomain d' st =>
    refine ⟨fun row hrow ↦ ?_, fun _ row hrow _ ↦ ⟨row, hrow, rfl⟩, fun _ ha _ ↦ ha⟩
    rw [domains_get_updateDomain, hrow]
    split
    · exact ⟨{ row with status := st }, rfl, rfl⟩
    · exact ⟨row, rfl, rfl⟩
  | @deleteDomain d' =>
    obtain ⟨hne, hdb⟩ := hw d' rfl
    refine ⟨fun row hrow ↦ ⟨row, ?_, rfl⟩, fun y row hrow hd ↦ ⟨row, ?_, rfl⟩, fun a ha hd ↦ ?_⟩
    · rw [domains_get_deleteDomain, if_neg hne, hrow]
    · rw [scans_get_deleteDomain, hrow, Option.filter_some_pos]
      exact decide_eq_true (hd ▸ hne)
    · refine Table.mem_filter.2 ⟨ha, decide_eq_true ⟨hd ▸ hne, ?_⟩⟩
      -- the scan of the asset is one of the domain too, so it stays
      obtain ⟨row, hrow⟩ := Option.isSome_iff_exists.1 (db.asset_scan a ha)
      rw [hrow, Option.filter_some_pos]
      · rfl
      · rw [hdb a ha row hrow, hd]
        exact decide_eq_true hne

/-- A transaction without a deletion keeps all rows. -/
theorem keeps_of_writeAll (h : db.writeAll now ws = .ok db')
    (hws : ∀ w ∈ ws, ∀ d', w ≠ .deleteDomain d') (d : Id) : db.Keeps db' d := by
  induction ws generalizing db with
  | nil =>
    rw [writeAll_nil h]
    exact .refl db d
  | cons w ws ih =>
    obtain ⟨db₁, h₁, h₂⟩ := writeAll_cons h
    have hfirst : db.Keeps db₁ d := keeps_of_wrote (wrote_of_write h₁) fun d' heq ↦
      absurd heq (hws w List.mem_cons_self d')
    exact hfirst.trans (ih h₂ fun w' hw' ↦ hws w' (List.mem_cons_of_mem _ hw'))

/-- An asset that the statement stores is attached to the domain of its scan. -/
def Attaches (db : Database) (w : Write) : Prop :=
  ∀ id x d type value, w = .insertAsset id x d type value →
    ∀ row, db.scans.get x = some row → row.domainId = d

/-- A statement that attaches its asset to the domain of the scan keeps the references coherent. -/
theorem coherent_of_wrote (h : db.Wrote now w db') (hdb : db.Coherent) (hw : db.Attaches w) :
    db'.Coherent := by
  intro a ha row hrow
  cases h with
  | insertDomain | updateDomain => exact hdb a ha row hrow
  | insertScan hid =>
    -- no asset refers to a scan that is not stored yet
    rw [scans_get_insertScan] at hrow
    split at hrow
    · next hscan =>
      have hstored := db.asset_scan a ha
      rw [← hscan, hid] at hstored
      exact absurd hstored (by simp)
    · exact hdb a ha row hrow
  | insertAsset _ hid =>
    rcases (Table.mem_insert (h := hid)).1 ha with ha | rfl
    · exact hdb a ha row hrow
    · exact hw _ _ _ _ _ rfl row hrow
  | updateScan =>
    rw [scans_get_updateScan] at hrow
    split at hrow
    · obtain ⟨row₀, hrow₀, rfl⟩ := Option.map_eq_some_iff.1 hrow
      exact hdb a ha row₀ hrow₀
    · exact hdb a ha row hrow
  | deleteDomain =>
    rw [scans_get_deleteDomain] at hrow
    exact hdb a (Table.mem_filter.1 ha).1 row (Option.eq_some_of_filter_eq_some hrow)

/-- What stays the same for the assets that a transaction is still to store. -/
theorem attaches_of_wrote (h : db.Wrote now w db') {w' : Write} (hw' : db.Attaches w')
    (hw : ∀ x d st user, w ≠ .insertScan x d st user) : db'.Attaches w' := by
  intro id x d type value heq row hrow
  rcases scan_of_wrote h hrow with ⟨row₀, hrow₀, hd⟩ | ⟨st, user, hinsert⟩
  · rw [← hd]
    exact hw' id x d type value heq row₀ hrow₀
  · exact absurd hinsert (hw _ _ _ _)

/-- A transaction that stores assets and inserts no scans, or stores none. -/
theorem coherent_of_writeAll (h : db.writeAll now ws = .ok db') (hdb : db.Coherent)
    (hws : (∀ w ∈ ws, ∀ id x d type value, w ≠ .insertAsset id x d type value) ∨
      ∀ w ∈ ws, db.Attaches w ∧ ∀ x d st user, w ≠ .insertScan x d st user) : db'.Coherent := by
  induction ws generalizing db with
  | nil => rwa [writeAll_nil h]
  | cons w ws ih =>
    obtain ⟨db₁, h₁, h₂⟩ := writeAll_cons h
    have hwrote := wrote_of_write h₁
    rcases hws with hnone | hall
    · refine ih h₂ (coherent_of_wrote hwrote hdb ?_) (Or.inl fun w' hw' ↦
        hnone w' (List.mem_cons_of_mem _ hw'))
      exact fun id x d type value heq ↦ absurd heq (hnone w List.mem_cons_self id x d type value)
    · obtain ⟨hattaches, hscan⟩ := hall w List.mem_cons_self
      refine ih h₂ (coherent_of_wrote hwrote hdb hattaches) (Or.inr fun w' hw' ↦ ?_)
      obtain ⟨hattaches', hscan'⟩ := hall w' (List.mem_cons_of_mem _ hw')
      exact ⟨attaches_of_wrote hwrote hattaches' hscan, hscan'⟩

end Database

namespace World

variable {cfg : Settings} {u : Unicode} {w w' : World} {a : Action} {d : Id}

/-- Coherence is kept by every step. -/
theorem coherent_act (h : w.Anchored) (hdb : w.shared.db.Coherent)
    (ha : w.act cfg u a = some w') : w'.shared.db.Coherent := by
  cases (h.disciplined.act ha).2 with
  | start hshared | take _ hshared | duplicate _ hshared => rwa [hshared]
  | @perform i e v o r _ hi _ hallowed hserve =>
    rcases serve_db hserve with hsame | ⟨site, ws, now, rfl, hws⟩
    · rwa [hsame]
    · cases hallowed with
      | commit hcommits =>
        rcases hcommits.kinds with ⟨d, -, rfl⟩ | ⟨x, r, d, snap, rfl, hall⟩ | hnone
        · exact Database.coherent_of_writeAll hws hdb (Or.inl (by simp))
        · refine Database.coherent_of_writeAll hws hdb (Or.inr fun st hst ↦ ?_)
          obtain ⟨id, type, value, rfl⟩ := hall st hst
          refine ⟨?_, nofun⟩
          rintro _ _ _ _ _ ⟨⟩
          exact (h.belongs _ (List.mem_of_getElem? hi) d rfl x (List.mem_singleton_self x)).domain
        · exact Database.coherent_of_writeAll hws hdb (Or.inl fun st hst ↦ (hnone st hst).2)

/-- Every step keeps the rows of a domain, or deletes it. -/
theorem keeps_act (h : w.Anchored) (hdb : w.shared.db.Coherent) (ha : w.act cfg u a = some w')
    (d : Id) : w'.shared.db.domains.get d = none ∨ w.shared.db.Keeps w'.shared.db d := by
  cases (h.disciplined.act ha).2 with
  | start hshared | take _ hshared | duplicate _ hshared =>
    rw [hshared]
    exact Or.inr (.refl _ d)
  | @perform i e v o r _ hi _ hallowed hserve =>
    rcases serve_db hserve with hsame | ⟨site, ws, now, rfl, hws⟩
    · rw [hsame]
      exact Or.inr (.refl _ d)
    · cases hallowed with
      | commit hcommits =>
        rcases hcommits.kinds with ⟨d', -, rfl⟩ | ⟨x, r, d', snap, -, hall⟩ | hnone
        · obtain ⟨db₁, h₁, h₂⟩ := Database.writeAll_cons hws
          rw [Database.writeAll_nil h₂]
          have hwrote := Database.wrote_of_write h₁
          by_cases hd : d = d'
          · subst hd
            cases hwrote with
            | deleteDomain => exact Or.inl (by rw [Database.domains_get_deleteDomain, if_pos rfl])
          · refine Or.inr (Database.keeps_of_wrote hwrote ?_)
            rintro _ ⟨⟩
            exact ⟨hd, hdb⟩
        · refine Or.inr (Database.keeps_of_writeAll hws (fun st hst ↦ ?_) d)
          obtain ⟨id, type, value, rfl⟩ := hall st hst
          exact nofun
        · exact Or.inr (Database.keeps_of_writeAll hws (fun st hst ↦ (hnone st hst).1) d)

/-- The invariant of this module. -/
structure Recorded (w : World) : Prop where
  anchored : w.Anchored
  coherent : w.shared.db.Coherent

/-- A deployment with coherent rows to begin with. -/
theorem recorded_boot {s : Store} (hs : s.db.idBound ≤ s.uuids) (hdb : s.db.Coherent) :
    (boot s).Recorded :=
  ⟨anchored_boot hs, hdb⟩

/-- A run keeps the rows coherent. -/
theorem Recorded.run (h : w.Recorded) (hrun : Run cfg u w w') : w'.Recorded :=
  hrun.invariant
    (fun _ _ _ hw _ ha ↦ ⟨hw.anchored.act ha, coherent_act hw.anchored hw.coherent ha⟩) h

/-- A run keeps the rows of a stored domain, or deletes it. -/
theorem Recorded.keeps (h : w.Recorded) (hrun : Run cfg u w w')
    (hd : (w.shared.db.domains.get d).isSome) :
    w'.shared.db.domains.get d = none ∨ w.shared.db.Keeps w'.shared.db d := by
  have hstored : w.shared.db.domains.get d ≠ none := Option.isSome_iff_ne_none.1 hd
  have hsettled : w.Settled d := Pool.Named.settled h.anchored.named (Or.inl hstored)
  refine (hrun.invariant (I := fun w₁ ↦ w₁.Recorded ∧ w₁.Settled d ∧
    (w₁.shared.db.domains.get d = none ∨ w.shared.db.Keeps w₁.shared.db d)) ?_
    ⟨h, hsettled, Or.inr (.refl _ d)⟩).2.2
  rintro w₁ a w₂ ⟨hw₁, hd₁, hkeeps⟩ - ha
  refine ⟨⟨hw₁.anchored.act ha, coherent_act hw₁.anchored hw₁.coherent ha⟩, hd₁.act ha, ?_⟩
  rcases hkeeps with hgone | hkeeps
  · exact Or.inl (domain_of_act hd₁ hw₁.anchored.disciplined ha hgone)
  · exact (keeps_act hw₁.anchored hw₁.coherent ha d).imp id hkeeps.trans

/-- **An asset belongs to the domain of its scan**, in every state of every run from an empty
deployment: the two references of the row never contradict each other. -/
theorem assets_coherent (cfg : Settings) (u : Unicode) {w : World}
    (hrun : Run cfg u (boot .empty) w) :
    ∀ a ∈ w.shared.db.assets, ∃ row, w.shared.db.scans.get a.scanId = some row ∧
      row.domainId = a.domainId := by
  have h := (recorded_boot (s := .empty) (by decide) Database.coherent_empty).run hrun
  intro a ha
  obtain ⟨row, hrow⟩ := Option.isSome_iff_exists.1 (w.shared.db.asset_scan a ha)
  exact ⟨row, hrow, h.coherent a ha row hrow⟩

/-- A domain is created and a worker stores what its scan finds. -/
def discovery : List Action :=
  .start (.create "a.b" 7) :: performs 0 13 ++ .take 0 :: List.replicate 25 (.perform 1 oneAddress)

theorem assets_coherent_discovery :
    ∃ w, Run {} .plain (boot .empty) w ∧ w.shared.db.assets.rows.length = 1 ∧
      ∀ a ∈ w.shared.db.assets, ∃ row, w.shared.db.scans.get a.scanId = some row ∧
        row.domainId = a.domainId := by
  obtain ⟨w, hrun, hrows⟩ := Runs.exists_reach (act {} .plain) (fun _ _ ↦ True)
    (fun w ↦ w.shared.db.assets.rows.length = 1) (s := boot .empty) discovery (by decide +kernel)
  exact ⟨w, hrun, hrows, assets_coherent {} .plain hrun⟩

/-- **Rows live as long as their domain.** Between any two states of a run, with any requests,
restarts, deliveries and failures: a domain that is stored in the first has been deleted with all
its scans and assets, or it is stored in the second with the same name, creator and time of
creation, each of its scans is stored with the same trigger and time of creation, and each of its
assets is stored unchanged. -/
theorem rows_kept (cfg : Settings) (u : Unicode) {w w' : World} (hrun : Run cfg u (boot .empty) w)
    (hrun' : Run cfg u w w') {d : Id} (hd : (w.shared.db.domains.get d).isSome) :
    w'.shared.db.Forgets d ∨ w.shared.db.Keeps w'.shared.db d := by
  have h := (recorded_boot (s := .empty) (by decide) Database.coherent_empty).run hrun
  exact (h.keeps hrun' hd).imp Database.forgets_of_get id

/-- The domain is scanned again. -/
def rescan : List Action :=
  .start (.trigger 0 8) :: performs 2 8

theorem rows_kept_rescan :
    ∃ w w', Run {} .plain (boot .empty) w ∧ Run {} .plain w w' ∧
      w.shared.db.assets.rows.length = 1 ∧ w'.shared.db.scans.rows.length = 2 ∧
      w.shared.db.Keeps w'.shared.db 0 := by
  obtain ⟨w, hrun, hd, hassets, hrescan⟩ := Runs.exists_reach (act {} .plain) (fun _ _ ↦ True)
    (fun w ↦ (w.shared.db.domains.get 0).isSome ∧ w.shared.db.assets.rows.length = 1 ∧
      (Runs.replay (act {} .plain) (fun _ _ ↦ True) rescan w).any fun w' ↦
        w'.shared.db.scans.rows.length = 2 ∧ (w'.shared.db.domains.get 0).isSome)
    (s := boot .empty) discovery (by decide +kernel)
  obtain ⟨w', hw', hrows⟩ := (Option.any_eq_true _ _).1 hrescan
  simp only [decide_eq_true_eq] at hrows
  have hrun' := Runs.reach_of_replay _ hw'
  refine ⟨w, w', hrun, hrun', hassets, hrows.1, (rows_kept {} .plain hrun hrun' hd).resolve_left ?_⟩
  intro hforgets
  rw [hforgets.domain] at hrows
  exact absurd hrows.2 (by simp)

end World

end AssetDiscovery
