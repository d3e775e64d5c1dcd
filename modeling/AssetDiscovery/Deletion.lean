import AssetDiscovery.Freshness

/-!
# Deleting a domain is final

The deletion of a domain takes its scans and their assets with it, and may come between any two
operations of a process that works on them. Such a process keeps to the rows it has begun with
(`Phase.Leads`), no row is ever inserted under an id that has been in use (`World.Settled`), and a
statement on a row that is gone fails. So whatever the process still does, it changes no row
(`delete_final`), and a message for a scan of the domain has no effect any more.

Runs are arbitrary here: any requests, also deletions, any deliveries and any failures.
-/

set_option autoImplicit false

namespace AssetDiscovery

open Effect Phase

/-- A process in this phase works for domain `d`: it names the domain, or one of its scans. -/
def Phase.WorksFor (db : Database) (d : Id) (v : Phase) : Prop :=
  v.domain = some d ∨ ∃ x ∈ v.scans, ∃ row, db.scans.get x = some row ∧ row.domainId = d

/-- No row refers to domain `d`. -/
structure Database.Forgets (db : Database) (d : Id) : Prop where
  domain : db.domains.get d = none
  scans : ∀ row ∈ db.scans, row.domainId ≠ d
  assets : ∀ a ∈ db.assets, a.domainId ≠ d
  /-- Nor does an asset refer to a scan of it. -/
  scansOfAssets : ∀ a ∈ db.assets, ∀ row, db.scans.get a.scanId = some row → row.domainId ≠ d

/-! ### Statements on rows that are gone -/

namespace Database

variable {db db' : Database} {now : Time} {ws : List Write} {d x : Id}

/-- The constraints leave no row that refers to a domain that is not stored. -/
theorem forgets_of_get (h : db.domains.get d = none) : db.Forgets d := by
  have hscans : ∀ row ∈ db.scans, row.domainId ≠ d := by
    rintro row hrow rfl
    have hd := db.scan_domain row hrow
    rw [h] at hd
    exact absurd hd (by simp)
  refine ⟨h, hscans, ?_, fun a _ row hrow ↦ hscans row (Table.mem_of_get hrow)⟩
  rintro a ha rfl
  have hd := db.asset_domain a ha
  rw [h] at hd
  exact absurd hd (by simp)

/-- A scan that is not stored cannot be updated. -/
theorem not_write_updateScan {p : ScanPatch} (hx : db.scans.get x = none) :
    db.write now (.updateScan x p) ≠ .ok db' := by
  simp [write, hx]

/-- Deleting a domain that is not stored changes nothing. -/
theorem deleteDomain_of_get (h : db.domains.get d = none) : db.deleteDomain d = db := by
  have hforgets := forgets_of_get h
  refine Database.ext ?_ ?_ ?_
  · refine Table.ext (List.filter_eq_self.2 fun row hrow ↦ decide_eq_true ?_)
    rintro rfl
    exact Table.get_eq_none_iff.1 h row hrow rfl
  · exact Table.ext (List.filter_eq_self.2 fun row hrow ↦ decide_eq_true (hforgets.scans row hrow))
  · refine Table.ext (List.filter_eq_self.2 fun a ha ↦ decide_eq_true ⟨hforgets.assets a ha, ?_⟩)
    obtain ⟨row, hrow⟩ := Option.isSome_iff_exists.1 (db.asset_scan a ha)
    rw [hrow, Option.filter_some_pos]
    · rfl
    · exact decide_eq_true (hforgets.scansOfAssets a ha row hrow)

/-- Setting the status of a domain that is not stored. -/
theorem eq_of_setDomain {st : DomainStatus} (h : ws = [] ∨ ws = [.updateDomain d st])
    (hd : db.domains.get d = none) (hdb : db.writeAll now ws = .ok db') : db' = db := by
  rcases h with rfl | rfl
  · exact writeAll_nil hdb
  · obtain ⟨db₁, h₁, -⟩ := writeAll_cons hdb
    exact absurd h₁ (by simp [write, hd])

/-- Storing assets of a domain that is not stored. -/
theorem eq_of_insertAssets (h : ∀ w ∈ ws, ∃ id type value, w = .insertAsset id x d type value)
    (hd : db.domains.get d = none) (hdb : db.writeAll now ws = .ok db') : db' = db := by
  cases ws with
  | nil => exact writeAll_nil hdb
  | cons w ws =>
    obtain ⟨db₁, h₁, -⟩ := writeAll_cons hdb
    obtain ⟨id, type, value, rfl⟩ := h w List.mem_cons_self
    cases wrote_of_write h₁ with
    | insertAsset _ _ _ hd' =>
      rw [hd] at hd'
      exact absurd hd' (by simp)

/-- A scan that has just been inserted. -/
theorem stored_of_insertScan {st : ScanStatus} {user : Option Id}
    (h : ws = [] ∨ ws = [.updateDomain d .pending])
    (hdb : db.writeAll now (.insertScan x d st user :: ws) = .ok db') :
    ∃ row, db'.scans.get x = some row ∧ row.domainId = d := by
  obtain ⟨db₁, h₁, h₂⟩ := writeAll_cons hdb
  have hscans : db'.scans = db₁.scans := by
    rcases h with rfl | rfl
    · rw [writeAll_nil h₂]
    · obtain ⟨db₂, h₃, h₄⟩ := writeAll_cons h₂
      rw [writeAll_nil h₄]
      cases wrote_of_write h₃ with
      | updateDomain => rfl
  cases wrote_of_write h₁ with
  | insertScan =>
    refine ⟨⟨x, d, st, user, none, none, none, now⟩, ?_, rfl⟩
    rw [hscans, scans_get_insertScan, if_pos rfl]

/-- A reset needs all of its scans. -/
theorem stored_of_reset {xs : List Id}
    (h : List.Forall₂ (fun x w ↦ ∃ p : ScanPatch, w = .updateScan x p ∧
      p.status = some .pending) xs ws) (hdb : db.writeAll now ws = .ok db') :
    ∀ x ∈ xs, db.scans.get x ≠ none := by
  induction h generalizing db with
  | nil => exact fun x hx ↦ absurd hx List.not_mem_nil
  | @cons x w xs ws hw _ ih =>
    obtain ⟨db₁, h₁, h₂⟩ := writeAll_cons hdb
    obtain ⟨p, rfl, -⟩ := hw
    refine List.forall_mem_cons.2 ⟨fun hx ↦ not_write_updateScan hx h₁, fun y hy hget ↦ ?_⟩
    cases wrote_of_write h₁ with
    | updateScan =>
      refine ih h₂ y hy ?_
      rw [scans_get_updateScan, hget]
      split <;> rfl

end Database

/-- Setting columns of a scan that is not stored. -/
theorem Phase.SetsScan.eq_of_get {x : Id} {st : Option ScanStatus} {ws : List Write}
    (h : SetsScan x st ws) {db db' : Database} {now : Time} (hx : db.scans.get x = none)
    (hdb : db.writeAll now ws = .ok db') : db' = db := by
  rcases h with ⟨rfl, -⟩ | ⟨p, rfl, -⟩
  · exact Database.writeAll_nil hdb
  · obtain ⟨db₁, h₁, -⟩ := Database.writeAll_cons hdb
    exact absurd h₁ (Database.not_write_updateScan hx)

namespace World

variable {cfg : Settings} {u : Unicode} {w w' : World} {a : Action} {d x : Id} {v : Phase}

/-! ### Scans keep to their domain -/

/-- If there is a scan `x`, now or later, it is one of domain `d`. -/
structure Belongs (w : World) (x d : Id) : Prop where
  settled : w.Settled x
  domain : ∀ row, w.shared.db.scans.get x = some row → row.domainId = d

/-- The rows of a step: what its statements do not insert was there before. -/
theorem scan_of_act (hx : w.Settled x) (hw : w.Disciplined) (ha : w.act cfg u a = some w')
    {row' : Scan} (hrow' : w'.shared.db.scans.get x = some row') :
    ∃ row, w.shared.db.scans.get x = some row ∧ row.domainId = row'.domainId := by
  cases (hw.act ha).2 with
  | start hshared | take _ hshared | duplicate _ hshared =>
    rw [hshared] at hrow'
    exact ⟨row', hrow', rfl⟩
  | perform _ hasks _ hserve =>
    rcases serve_db hserve with hdb | ⟨site, ws, now, rfl, hdb⟩
    · rw [hdb] at hrow'
      exact ⟨row', hrow', rfl⟩
    · rcases Database.scan_of_writeAll hdb hrow' with hrow | ⟨st, user, hmem⟩
      · exact hrow
      · exact absurd (List.mem_singleton_self x) (hx.not_mem_inserts hasks hmem)

/-- A scan stays with its domain. -/
theorem Belongs.act (h : w.Belongs x d) (hw : w.Disciplined) (ha : w.act cfg u a = some w') :
    w'.Belongs x d := by
  refine ⟨h.settled.act ha, fun row' hrow' ↦ ?_⟩
  obtain ⟨row, hrow, hd⟩ := scan_of_act h.settled hw ha hrow'
  rw [← hd, h.domain row hrow]

/-- A stored scan belongs to its domain for good. -/
theorem Named.belongs (h : w.Named) {row : Scan} (hrow : w.shared.db.scans.get x = some row) :
    w.Belongs x row.domainId := by
  refine ⟨Pool.Named.settled h (Or.inr (by simp [hrow])), fun row' hrow' ↦ ?_⟩
  rw [hrow] at hrow'
  rw [Option.some.inj hrow']

/-- A scan of a domain that is not stored is not stored either. -/
theorem Belongs.get_eq_none (h : w.Belongs x d) (hd : w.shared.db.domains.get d = none) :
    w.shared.db.scans.get x = none := by
  cases hrow : w.shared.db.scans.get x with
  | none => rfl
  | some row =>
    exact absurd (h.domain row hrow)
      ((Database.forgets_of_get hd).scans row (Table.mem_of_get hrow))

/-- A domain that is gone stays gone. -/
theorem domain_of_act (hd : w.Settled d) (hw : w.Disciplined) (ha : w.act cfg u a = some w')
    (hgone : w.shared.db.domains.get d = none) : w'.shared.db.domains.get d = none := by
  cases (hw.act ha).2 with
  | start hshared | take _ hshared | duplicate _ hshared => rwa [hshared]
  | perform _ hasks _ hserve =>
    rcases serve_db hserve with hdb | ⟨site, ws, now, rfl, hdb⟩
    · rwa [hdb]
    · by_contra hne
      obtain ⟨name, st, user, hmem⟩ := Database.new_domain_of_writeAll hdb hgone hne
      exact hd.not_mem_inserts hasks hmem (List.mem_singleton_self d)

/-! ### Processes keep to their domain -/

/-- The invariant: the scans a process has in hand are scans of the domain it works for. -/
structure Anchored (w : World) : Prop where
  disciplined : w.Disciplined
  named : w.Named
  belongs : ∀ v ∈ w.views, ∀ d, v.domain = some d → ∀ x ∈ v.scans, w.Belongs x d

/-- Before a process is started nothing is to be anchored. -/
theorem anchored_boot {s : Store} (hs : s.db.idBound ≤ s.uuids) : (boot s).Anchored where
  disciplined _ h := absurd h List.not_mem_nil
  named := named_boot hs
  belongs _ h := absurd h List.not_mem_nil

/-- The row that a query has found is stored. -/
theorem get_of_serve {i : ℕ} {e : Env} {s s' : Store} {row : Scan}
    (h : serve i (.query (.scan x)) e s = some (.ok (some row), s')) :
    s.db.scans.get x = some row := by
  rcases (serve_query h).2.2 with ⟨err, herr⟩ | hok
  · exact absurd herr (by simp)
  · exact (Except.ok.inj hok).symm

/-- A new process has no scan in hand that it takes for one of a domain. -/
theorem Anchored.append (h : w.Anchored) (ha : w.act cfg u a = some w')
    (hviews : w'.views = w.views ++ [v]) (hv : v.scans = [] ∨ v.domain = none) : w'.Anchored := by
  refine ⟨(h.disciplined.act ha).1, h.named.act ha, fun v' hv' d hd x hx ↦ ?_⟩
  rw [hviews] at hv'
  rcases List.mem_append.1 hv' with hv' | hv'
  · exact (h.belongs v' hv' d hd x hx).act h.disciplined ha
  · rw [List.mem_singleton.1 hv'] at hd hx
    rcases hv with hv | hv
    · exact absurd hx (by simp [hv])
    · exact absurd hd (by simp [hv])

/-- A step keeps every process anchored. -/
theorem Anchored.act (h : w.Anchored) (ha : w.act cfg u a = some w') : w'.Anchored := by
  cases (h.disciplined.act ha).2 with
  | @start r _ hshared hviews =>
    exact h.append ha hviews (Or.inl (by cases r <;> rfl))
  | take hm hshared hviews => exact h.append ha hviews (Or.inr rfl)
  | duplicate hm hshared hviews =>
    refine ⟨(h.disciplined.act ha).1, h.named.act ha, fun v hv d hd x hx ↦ ?_⟩
    rw [hviews] at hv
    exact (h.belongs v hv d hd x hx).act h.disciplined ha
  | @perform i e v o r _ hi hasks hallowed hserve hviews =>
    refine ⟨(h.disciplined.act ha).1, h.named.act ha, fun v' hv' d hd x hx ↦ ?_⟩
    rw [hviews] at hv'
    rcases List.mem_or_eq_of_mem_set hv' with hv' | rfl
    · exact (h.belongs v' hv' d hd x hx).act h.disciplined ha
    · have hmem := List.mem_of_getElem? hi
      have hleads := leads_of_allowed (r := r) hallowed
      generalize v.observe o r = v' at hleads hd hx
      cases hleads with
      | stay hdomain hscans =>
        rw [hdomain] at hd
        rw [hscans] at hx
        exact (h.belongs v hmem d hd x hx).act h.disciplined ha
      | quiet hquiet => exact absurd hd (by simp [hquiet.domain_eq])
      | opened => exact absurd hx List.not_mem_nil
      -- the scan just committed is of the domain that its statement names
      | enrolled _ hws =>
        obtain rfl := Option.some.inj hd
        obtain rfl := List.mem_singleton.1 hx
        rcases (serve_commit hserve).2 with ⟨⟨err, herr⟩, -⟩ | ⟨-, -, now, hdb⟩
        · exact absurd herr (by simp)
        · obtain ⟨row, hrow, hrow'⟩ := Database.stored_of_insertScan hws hdb
          rw [← hrow']
          exact (h.named.act ha).belongs hrow
      -- so is a scan that is read: the row names the domain
      | @read _ y row _ hscans hdomain' hscans' =>
        rw [hdomain'] at hd
        obtain rfl := Option.some.inj hd
        rw [hscans', List.mem_singleton] at hx
        subst hx
        exact (h.named.belongs (get_of_serve hserve)).act h.disciplined ha
      | orphan => exact absurd hd (by simp [Phase.domain])
      | interrupted => exact absurd hd (by simp [Phase.domain])

/-- A process that has worked for domain `d` works for it still, or changes no row any more. -/
def Devoted (w : World) (d : Id) (v : Phase) : Prop :=
  v.Quiet ∨ v.domain = some d ∨ (v.domain = none ∧ ∃ x ∈ v.scans, w.Belongs x d)

/-- A process that works for a domain has nothing to do with another. -/
theorem Anchored.devoted (h : w.Anchored) (hv : v ∈ w.views)
    (hd : v.WorksFor w.shared.db d) : w.Devoted d v := by
  rcases hd with hd | ⟨x, hx, row, hrow, hd⟩
  · exact Or.inr (Or.inl hd)
  · cases hdomain : v.domain with
    | none => exact Or.inr (Or.inr ⟨hdomain, x, hx, hd ▸ h.named.belongs hrow⟩)
    | some d' =>
      have hd' := (h.belongs v hv d' hdomain x hx).domain row hrow
      exact Or.inr (Or.inl (by rw [hdomain, ← hd', hd]))

/-- A process that is devoted to `d` has a scan of `d` in hand, if any. -/
theorem Devoted.belongs (hv : w.Devoted d v)
    (hbelongs : ∀ d, v.domain = some d → ∀ x ∈ v.scans, w.Belongs x d) (hscans : v.scans = [x]) :
    w.Belongs x d := by
  rcases hv with hquiet | hdomain | ⟨-, y, hy, hbelongs'⟩
  · exact absurd (hquiet.scans_eq.symm.trans hscans) (by simp)
  · exact hbelongs d hdomain x (by simp [hscans])
  · rw [hscans, List.mem_singleton] at hy
    rwa [← hy]

/-- Every answer leaves a process devoted to its domain. -/
theorem Devoted.leads (hv : w.Devoted d v)
    (hbelongs : ∀ d, v.domain = some d → ∀ x ∈ v.scans, w.Belongs x d) {i : ℕ} {o : Op} {e : Env}
    {r : o.Res} {s : Store} (hserve : serve i o e w.shared = some (r, s)) {v' : Phase}
    (h : v.Leads o r v') : w.Devoted d v' := by
  cases h with
  | stay hdomain hscans _ hquiet =>
    rw [Devoted, hdomain, hscans]
    exact hv.imp_left hquiet
  | quiet hquiet => exact Or.inl hquiet
  | opened =>
    rcases hv with hquiet | hdomain | ⟨-, x, hx, -⟩
    · exact absurd hquiet id
    · exact absurd hdomain (by simp [Phase.domain])
    · exact absurd hx List.not_mem_nil
  | enrolled hdomain' =>
    rcases hv with hquiet | hdomain | ⟨hdomain, -⟩
    · exact absurd (hquiet.domain_eq.symm.trans hdomain') (by simp)
    · exact Or.inr (Or.inl (hdomain'.symm.trans hdomain))
    · exact absurd (hdomain.symm.trans hdomain') (by simp)
  | read hscans hdomain' =>
    refine Or.inr (Or.inl (hdomain'.trans (congrArg some ?_)))
    exact (hv.belongs hbelongs hscans).domain _ (get_of_serve hserve)
  | orphan =>
    exact Or.inr (Or.inr ⟨rfl, _, List.mem_singleton_self _, hv.belongs hbelongs rfl⟩)
  | interrupted =>
    rcases hv with hquiet | hdomain | ⟨-, x, hx, -⟩
    · exact absurd hquiet id
    · exact absurd hdomain (by simp [Phase.domain])
    · exact absurd hx List.not_mem_nil

/-- A process that works for a domain goes on doing so. -/
theorem Devoted.act (hv : w.Devoted d v) (hw : w.Disciplined) (ha : w.act cfg u a = some w') :
    w'.Devoted d v := by
  rcases hv with hquiet | hdomain | ⟨hdomain, x, hx, hbelongs⟩
  · exact Or.inl hquiet
  · exact Or.inr (Or.inl hdomain)
  · exact Or.inr (Or.inr ⟨hdomain, x, hx, hbelongs.act hw ha⟩)

/-- **What a process does for a domain that is gone changes no row.** -/
theorem Devoted.eq_of_writeAll (hv : w.Devoted d v)
    (hbelongs : ∀ d, v.domain = some d → ∀ x ∈ v.scans, w.Belongs x d)
    (hgone : w.shared.db.domains.get d = none) {site : Site} {ws : List Write}
    (h : v.Commits site ws) {now : Time} {db : Database}
    (hdb : w.shared.db.writeAll now ws = .ok db) : db = w.shared.db := by
  have hscan : ∀ {x : Id}, v.scans = [x] → w.shared.db.scans.get x = none := fun hscans ↦
    (hv.belongs hbelongs hscans).get_eq_none hgone
  have hdomain : ∀ {d' : Id}, v.domain = some d' → d' = d := by
    intro d' hd'
    rcases hv with hquiet | hd | ⟨hd, -⟩
    · exact absurd h hquiet.not_commits
    · exact Option.some.inj (hd'.symm.trans hd)
    · exact absurd (hd.symm.trans hd') (by simp)
  cases h with
  | createDomain =>
    rcases hv with hquiet | hd | ⟨-, x, hx, -⟩
    · exact absurd hquiet id
    · exact absurd hd (by simp [Phase.domain])
    · exact absurd hx List.not_mem_nil
  | createScan | triggerManualScan =>
    obtain rfl := hdomain rfl
    obtain ⟨db₁, h₁, -⟩ := Database.writeAll_cons hdb
    exact absurd h₁ (by simp [Database.write, hgone])
  | announcing hws | runningDomain hws | finishedDomain hws | lostDomain hws =>
    obtain rfl := hdomain rfl
    exact Database.eq_of_setDomain hws hgone hdb
  | deleteDomain =>
    obtain rfl := hdomain rfl
    obtain ⟨db₁, h₁, h₂⟩ := Database.writeAll_cons hdb
    rw [Database.writeAll_nil h₂, ← Except.ok.inj h₁, Database.deleteDomain_of_get hgone]
  | reset hws =>
    rcases hv with hquiet | hd | ⟨-, x, hx, hbelongs'⟩
    · exact absurd hquiet id
    · exact absurd hd (by simp [Phase.domain])
    · exact absurd (hbelongs'.get_eq_none hgone) (Database.stored_of_reset hws hdb x hx)
  | createAssets hws =>
    obtain rfl := hdomain rfl
    exact Database.eq_of_insertAssets hws hgone hdb
  | orphaned hws | markScanRunning hws | markScanCompleted hws | markScanFailed hws | faulted hws
  | lostScan hws => exact hws.eq_of_get (hscan rfl) hdb

/-! ### Runs -/

/-- What a step does to the view of one process. -/
theorem view_of_act (hw : w.Disciplined) (ha : w.act cfg u a = some w') {j : ℕ}
    (hj : w.views[j]? = some v) :
    w'.views[j]? = some v ∨ ∃ e o r, a = .perform j e ∧ v.Allowed o ∧
      serve j o e w.shared = some (r, w'.shared) ∧ w'.views[j]? = some (v.observe o r) := by
  have hlt := (List.getElem?_eq_some_iff.1 hj).1
  cases (hw.act ha).2 with
  | start _ hviews | take _ _ hviews =>
    rw [hviews, List.getElem?_append_left hlt]
    exact Or.inl hj
  | duplicate _ _ hviews =>
    rw [hviews]
    exact Or.inl hj
  | @perform i e v' o r _ hi hasks hallowed hserve hviews =>
    rw [hviews]
    rcases eq_or_ne i j with rfl | hij
    · rw [hj] at hi
      obtain rfl := Option.some.inj hi
      exact Or.inr ⟨e, o, r, rfl, hallowed, hserve, List.getElem?_set_self hlt⟩
    · rw [List.getElem?_set_ne hij]
      exact Or.inl hj

/-- A run without any restriction. -/
abbrev Run (cfg : Settings) (u : Unicode) : World → World → Prop :=
  Reach cfg u fun _ _ ↦ True

/-- A run keeps every process anchored. -/
theorem Anchored.run (h : w.Anchored) (hrun : Run cfg u w w') : w'.Anchored :=
  hrun.invariant (fun _ _ _ hw _ ha ↦ Anchored.act hw ha) h

/-- In a run a scan stays with its domain. -/
theorem Belongs.run (h : w.Belongs x d) (hw : w.Anchored) (hrun : Run cfg u w w') :
    w'.Belongs x d :=
  (hrun.invariant (I := fun w ↦ w.Anchored ∧ w.Belongs x d)
    (fun _ _ _ hw _ ha ↦ ⟨hw.1.act ha, hw.2.act hw.1.disciplined ha⟩) ⟨hw, h⟩).2

/-- A domain that has been stored and is gone stays gone. -/
theorem gone_of_run (hw : w.Anchored) (hd : w.Settled d)
    (hgone : w.shared.db.domains.get d = none) (hrun : Run cfg u w w') :
    w'.shared.db.domains.get d = none :=
  (hrun.invariant (I := fun w ↦ w.Anchored ∧ w.Settled d ∧ w.shared.db.domains.get d = none)
    (fun _ _ _ hw _ ha ↦ ⟨hw.1.act ha, hw.2.1.act ha,
      domain_of_act hw.2.1 hw.1.disciplined ha hw.2.2⟩) ⟨hw, hd, hgone⟩).2.2

/-- A process that works for a domain at one time is devoted to it ever after. -/
theorem devoted_of_run (hw : w.Anchored) {j : ℕ} (hj : w.views[j]? = some v)
    (hv : w.Devoted d v) (hrun : Run cfg u w w') :
    ∃ v', w'.views[j]? = some v' ∧ w'.Devoted d v' := by
  refine (hrun.invariant
    (I := fun w ↦ w.Anchored ∧ ∃ v, w.views[j]? = some v ∧ w.Devoted d v) ?_ ⟨hw, v, hj, hv⟩).2
  rintro w a w' ⟨hw, v, hj, hv⟩ - ha
  refine ⟨hw.act ha, ?_⟩
  rcases view_of_act hw.disciplined ha hj with hj' | ⟨e, o, r, -, hallowed, hserve, hj'⟩
  · exact ⟨v, hj', hv.act hw.disciplined ha⟩
  · refine ⟨_, hj', ?_⟩
    have hleads := leads_of_allowed (r := r) hallowed
    exact (hv.leads (hw.belongs v (List.mem_of_getElem? hj)) hserve hleads).act hw.disciplined ha

/-- A process that is devoted to a domain that is gone changes no row. -/
theorem Devoted.db_eq (hw : w.Anchored) {j : ℕ} (hj : w.views[j]? = some v)
    (hv : w.Devoted d v) (hgone : w.shared.db.domains.get d = none) {e : Env}
    (ha : w.act cfg u (.perform j e) = some w') : w'.shared.db = w.shared.db := by
  cases (hw.disciplined.act ha).2 with
  | perform hi _ hallowed hserve =>
    rw [hj] at hi
    obtain rfl := Option.some.inj hi
    rcases serve_db hserve with hdb | ⟨site, ws, now, rfl, hdb⟩
    · exact hdb
    · cases hallowed with
      | commit hcommits =>
        exact hv.eq_of_writeAll (hw.belongs v (List.mem_of_getElem? hj)) hgone hcommits hdb

/-! ### Later deliveries -/

/-- A worker that has taken a message for a scan that is gone, or has dropped it. -/
inductive Drops (x : Id) : Phase → Prop
  | taken {r} : Drops x (.taken x r)
  | idle : Drops x .idle

/-- Such a worker changes no row and publishes nothing. -/
theorem Drops.serve (hv : Drops x v) {i : ℕ} {o : Op} {e : Env} {s s' : Store} {r : o.Res}
    (ho : v.Allowed o) (h : serve i o e s = some (r, s')) :
    s'.db = s.db ∧ s'.queue = s.queue := by
  cases ho with
  | query _ => exact ⟨(serve_query h).1, (serve_query h).2.1⟩
  | flush | rollback | closeAnnounced => cases hv
  | commit hcommits => cases hv <;> cases hcommits
  | publish hpub => cases hv <;> cases hpub
  | close | lookup | now | uuid4 =>
    obtain ⟨-, rfl⟩ := Prod.mk.inj (Option.some.inj h)
    exact ⟨rfl, rfl⟩

/-- It finds no scan. -/
theorem Drops.observe (hv : Drops x v) {i : ℕ} {o : Op} {e : Env} {s s' : Store} {r : o.Res}
    (ho : v.Allowed o) (hx : s.db.scans.get x = none)
    (h : AssetDiscovery.serve i o e s = some (r, s')) : Drops x (v.observe o r) := by
  cases ho with
  | query hreads =>
    rcases (serve_query h).2.2 with ⟨err, rfl⟩ | rfl
    · cases hv with
      | taken => exact .idle
      | idle => exact .idle
    · cases hv with
      | taken =>
        cases hreads with
        | taken =>
          show Drops x ((Phase.taken x _).readScan (s.db.scans.get x))
          rw [hx]
          exact .idle
      | idle =>
        cases hreads with
        | idle => exact .idle
  | flush | rollback | closeAnnounced => cases hv
  | commit hcommits => cases hv <;> cases hcommits
  | publish hpub => cases hv <;> cases hpub
  | close hcloses =>
    show Drops x v.closed
    rw [hcloses.closed]
    exact .idle
  | lookup | now | uuid4 => exact hv

/-- A process that has dropped its scan never takes it up again. -/
theorem drops_of_run (hw : w.Anchored) (hd : w.Settled d) (hx : w.Belongs x d)
    (hgone : w.shared.db.domains.get d = none) {j : ℕ} (hj : w.views[j]? = some v)
    (hv : Drops x v) (hrun : Run cfg u w w') : ∃ v', w'.views[j]? = some v' ∧ Drops x v' := by
  refine (hrun.invariant (I := fun w ↦ w.Anchored ∧ w.Settled d ∧ w.Belongs x d ∧
    w.shared.db.domains.get d = none ∧ ∃ v, w.views[j]? = some v ∧ Drops x v) ?_
    ⟨hw, hd, hx, hgone, v, hj, hv⟩).2.2.2.2
  rintro w a w' ⟨hw, hd, hx, hgone, v, hj, hv⟩ - ha
  refine ⟨hw.act ha, hd.act ha, hx.act hw.disciplined ha, domain_of_act hd hw.disciplined ha hgone,
    ?_⟩
  rcases view_of_act hw.disciplined ha hj with hj' | ⟨e, o, r, -, hallowed, hserve, hj'⟩
  · exact ⟨v, hj', hv⟩
  · exact ⟨_, hj', hv.observe hallowed (hx.get_eq_none hgone) hserve⟩

/-! ### The deletion of a domain -/

/-- In a run from `s` to `w`, process `j` has worked for domain `d`. -/
def WorkedFor (cfg : Settings) (u : Unicode) (s : Store) (w : World) (d : Id) (j : ℕ) : Prop :=
  ∃ w₀ v, Run cfg u (boot s) w₀ ∧ Run cfg u w₀ w ∧ w₀.views[j]? = some v ∧
    v.WorksFor w₀.shared.db d

/-- In a run from `s` to `w`, domain `d` has had a scan `x`. -/
def HadScan (cfg : Settings) (u : Unicode) (s : Store) (w : World) (d x : Id) : Prop :=
  ∃ w₀ row, Run cfg u (boot s) w₀ ∧ Run cfg u w₀ w ∧ w₀.shared.db.scans.get x = some row ∧
    row.domainId = d

/-- In this step a call of `delete_domain` commits the deletion of `d`. -/
structure Deletes (cfg : Settings) (u : Unicode) (d : Id) (w w' : World) : Prop where
  step : ∃ i e, w.asks i = some (.commit (.deleteDomain d) [.deleteDomain d]) ∧
    w.act cfg u (.perform i e) = some w'
  stored : w.shared.db.domains.get d ≠ none
  gone : w'.shared.db.domains.get d = none

/-- A scan that the domain has had belongs to it ever after. -/
theorem HadScan.belongs {s : Store} (hs : s.db.idBound ≤ s.uuids) (h : HadScan cfg u s w d x) :
    w.Belongs x d := by
  obtain ⟨w₀, row, hboot, hrun, hrow, rfl⟩ := h
  have hw₀ := (anchored_boot hs).run hboot
  exact (hw₀.named.belongs hrow).run hw₀ hrun

/-- **Deleting a domain is final.** Of a store whose ids `uuid4` has handed out: in every state
after the deletion of `d` has committed, no row refers to `d`, and the scans it has had are gone
with their assets; no step of a process that has ever worked for `d` changes a row; and no step of a
worker that has taken a message for one of its scans since then changes a row or publishes
anything. -/
theorem delete_final {s : Store} (hs : s.db.idBound ≤ s.uuids) {w₁ w₂ : World}
    (hrun : Run cfg u (boot s) w) (hdelete : Deletes cfg u d w w₁) (hlater : Run cfg u w₁ w₂) :
    w₂.shared.db.Forgets d ∧
    (∀ x, HadScan cfg u s w₂ d x →
      w₂.shared.db.scans.get x = none ∧ ∀ a ∈ w₂.shared.db.assets, a.scanId ≠ x) ∧
    (∀ j, WorkedFor cfg u s w₂ d j → ∀ e w₃, w₂.act cfg u (.perform j e) = some w₃ →
      w₃.shared.db = w₂.shared.db) ∧
    ∀ n m w₃ w₄, Run cfg u w₁ w₃ → w₃.shared.queue[n]? = some m → HadScan cfg u s w₃ d m.scan →
      w₃.act cfg u (.take n) = some w₄ → Run cfg u w₄ w₂ →
      ∀ e w₅, w₂.act cfg u (.perform w₃.threads.length e) = some w₅ →
        w₅.shared.db = w₂.shared.db ∧ w₅.shared.queue = w₂.shared.queue := by
  have hw := (anchored_boot hs).run hrun
  obtain ⟨⟨i, e, -, ha⟩, hstored, hgone⟩ := hdelete
  have hw₁ := hw.act ha
  -- `d` is handed out already, so no later domain gets its id
  have hsettled : w.Settled d := Pool.Named.settled hw.named (Or.inl hstored)
  have hd := hsettled.act ha
  have hgone₂ := gone_of_run hw₁ hd hgone hlater
  have hw₂ := hw₁.run hlater
  refine ⟨Database.forgets_of_get hgone₂, fun x hx ↦ ?_, fun j hj e w₃ ha₃ ↦ ?_,
    fun n m w₃ w₄ hrun₃ hm hx ha₄ hrun₂ e w₅ ha₅ ↦ ?_⟩
  · have hnone := (hx.belongs hs).get_eq_none hgone₂
    refine ⟨hnone, fun a hmem hax ↦ ?_⟩
    have hscan := w₂.shared.db.asset_scan a hmem
    rw [hax, hnone] at hscan
    exact absurd hscan (by simp)
  -- whoever has worked for `d` stays devoted to it, and has no row left to write
  · obtain ⟨w₀, v, hboot, hrun₀, hv, hworks⟩ := hj
    have hw₀ := (anchored_boot hs).run hboot
    have hdevoted := hw₀.devoted (List.mem_of_getElem? hv) hworks
    obtain ⟨v', hv', hdevoted'⟩ := devoted_of_run hw₀ hv hdevoted hrun₀
    exact hdevoted'.db_eq hw₂ hv' hgone₂ ha₃
  · have hw₃ := hw₁.run hrun₃
    have hd₃ : w₃.Settled d :=
      hrun₃.invariant (fun _ _ _ hd _ ha ↦ Settled.act hd ha) hd
    have hgone₃ := gone_of_run hw₁ hd hgone hrun₃
    -- the worker that takes the message starts as `taken`, and drops it from then on
    have hview : w₄.views[w₃.threads.length]? = some m.phase := by
      cases (hw₃.disciplined.act ha₄).2 with
      | take hm' _ hviews =>
        rw [hm] at hm'
        obtain rfl := Option.some.inj hm'
        rw [hviews, List.getElem?_append_right (by simp [Pool.views])]
        simp [Pool.views]
    obtain ⟨v, hv, hdrops⟩ := drops_of_run (hw₃.act ha₄) (hd₃.act ha₄)
      ((hx.belongs hs).act hw₃.disciplined ha₄) (domain_of_act hd₃ hw₃.disciplined ha₄ hgone₃) hview
      .taken hrun₂
    cases (hw₂.disciplined.act ha₅).2 with
    | perform hi _ hallowed hserve =>
      rw [hv] at hi
      obtain rfl := Option.some.inj hi
      exact hdrops.serve hallowed hserve

/-- A domain is created, the message for its scan is delivered while it stays queued, the worker
comes before `mark_scan_running`, and a deletion before its commit. -/
def deletionDuringScan : List Action :=
  [.start (.create "a.b" 7)] ++ performs 0 13 ++ [.duplicate 0, .take 0] ++ performs 1 3 ++
    [.start (.delete 0)] ++ performs 2 3

/-- The states to which `deletionDuringScan` leads. -/
def AwaitsDeletion (w : World) : Prop :=
  w.asks 2 = some (.commit (.deleteDomain 0) [.deleteDomain 0]) ∧
  w.shared.db.domains.get 0 ≠ none ∧
  w.views[1]? = some (.claiming 1 0 0 .pending) ∧
  (∃ row ∈ w.shared.db.scans.get 1, row.domainId = 0) ∧
  ∃ w₁ ∈ w.act {} .plain (.perform 2 {}), w₁.shared.db.domains.get 0 = none ∧
    w₁.shared.queue[0]? = some ⟨1, 0⟩ ∧ w₁.threads.length = 3

instance : DecidablePred AwaitsDeletion := fun _ ↦
  inferInstanceAs (Decidable (_ ∧ _ ∧ _ ∧ _ ∧ _))

/-- `delete_final` for a worker that is about to mark its scan, and for a later delivery. -/
theorem delete_final_deletionDuringScan :
    ∃ w₂ : World, Run {} .plain (boot .empty) w₂ ∧ w₂.shared.db.Forgets 0 ∧
      (∀ e w₃, w₂.act {} .plain (.perform 1 e) = some w₃ → w₃.shared.db = w₂.shared.db) ∧
      ∀ e w₃, w₂.act {} .plain (.perform 3 e) = some w₃ →
        w₃.shared.db = w₂.shared.db ∧ w₃.shared.queue = w₂.shared.queue := by
  obtain ⟨w, hrun, hasks, hstored, hview, ⟨row, hrow, hrow'⟩, w₁, ha₁, hgone, hqueue, hlen⟩ :=
    Runs.exists_reach (act {} .plain) (fun _ _ ↦ True) AwaitsDeletion
      (s := boot .empty) deletionDuringScan (by decide +kernel)
  obtain ⟨w₂, ha₂⟩ : ∃ w₂, w₁.act {} .plain (.take 0) = some w₂ := by
    simp only [World.act, hqueue]
    exact ⟨_, rfl⟩
  have hdelete : Deletes {} .plain 0 w w₁ := ⟨⟨2, {}, hasks, ha₁⟩, hstored, hgone⟩
  have hlast : Run {} .plain w w₁ := .single ⟨.perform 2 {}, trivial, ha₁⟩
  have htake : Run {} .plain w₁ w₂ := .single ⟨.take 0, trivial, ha₂⟩
  obtain ⟨hforgets, -, hworkers, hdeliveries⟩ :=
    delete_final (by decide : Store.empty.db.idBound ≤ Store.empty.uuids) hrun hdelete htake
  refine ⟨w₂, (hrun.trans hlast).trans htake, hforgets, ?_, fun e w₃ ha₃ ↦ ?_⟩
  · exact hworkers 1 ⟨w, _, hrun, hlast.trans htake, hview, Or.inl rfl⟩
  · have hscan : HadScan {} .plain .empty w₁ 0 1 := ⟨w, row, hrun, hlast, hrow, hrow'⟩
    exact hdeliveries 0 ⟨1, 0⟩ w₁ w₂ .refl hqueue hscan ha₂ .refl e w₃ (by rwa [hlen])

end World

end AssetDiscovery
