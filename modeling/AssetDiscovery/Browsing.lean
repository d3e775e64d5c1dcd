import AssetDiscovery.ReadOnly

/-!
# Listings while the service works

What a client is shown while requests, workers and restarts change the tables between the statements
of its request. Rows last as long as their domain and keep what they are about (`Lasting`), so a
listing never mixes things up: its items are rows that were stored together at one moment, an asset
is shown under the name of its own domain, or under the id of a domain that has been deleted
meanwhile, and a page falls short of the total only if a domain has been deleted between the count
and the page (`assets_listed`, `scans_listed`).
-/

set_option autoImplicit false

namespace AssetDiscovery

open Effect ReadOnly

/-- The rows of a domain last from moment to moment, unless it is deleted. -/
def Lasting (history : ℕ → Database) : Prop :=
  ∀ i j, i ≤ j → ∀ d, ((history i).domains.get d).isSome →
    (history j).domains.get d = none ∨ (history i).Keeps (history j) d

/-- How an asset that has been fetched at moment `k` is shown when its domain is looked up at moment
`m`. -/
inductive Shows (history : ℕ → Database) (k m : ℕ) (a : Asset) : AssetResponse → Prop
  /-- Under the name of its domain. -/
  | name {row} (h : (history k).domains.get a.domainId = some row) :
    Shows history k m a ⟨a.id, .inl row.name, a.type, a.value⟩
  /-- Under the id of its domain, which has been deleted by then. -/
  | id (hlater : k < m) (h : (history m).Forgets a.domainId) :
    Shows history k m a ⟨a.id, .inr a.domainId, a.type, a.value⟩

/-- A response whose total is that of moment `k` and whose items are a page of the rows of the
next. -/
structure Listed {Item : Type} (ilike : String → String → Bool) (history : ℕ → Database)
    (c : Clause) (shows : List c.Row → List Item → Prop) (k : ℕ) (response : ListResponse Item) :
    Prop where
  total : response.total = (c.rows ilike (history k)).length
  items : ∃ o : OrderBy c.createdAt, shows (o.page (c.rows ilike (history (k + 1)))
    response.limit.toNat (response.page - 1).toNat) response.items

/-- Items that are made of the rows of a page. -/
theorem listed_map {Item : Type} {c : Clause} (item : c.Row → Item) (ilike : String → String → Bool)
    (history : ℕ → Database) (k : ℕ) (o : OrderBy c.createdAt) (page limit : ℤ) :
    Listed ilike history c (List.Forall₂ fun row i ↦ i = item row) k
      ⟨(o.page (c.rows ilike (history (k + 1))) limit.toNat (page - 1).toNat).map item, page, limit,
        (c.rows ilike (history k)).length⟩ :=
  ⟨rfl, o, List.forall₂_map_right_iff.2 (List.forall₂_same.2 fun _ _ ↦ rfl)⟩

/-- The response has as many items as its total promises for its page. -/
def ListResponse.Full {Item : Type} (response : ListResponse Item) : Prop :=
  min response.limit.toNat
    (response.total - (response.page - 1).toNat * response.limit.toNat) ≤ response.items.length

/-- A page is full if there are no fewer rows when it is fetched than when they were counted. -/
theorem Listed.full {Item : Type} {ilike : String → String → Bool} {history : ℕ → Database}
    {c : Clause} {shows : List c.Row → List Item → Prop} {k : ℕ} {response : ListResponse Item}
    (h : Listed ilike history c shows k response)
    (hshows : ∀ rows items, shows rows items → rows.length = items.length)
    (hle : (c.rows ilike (history k)).length ≤ (c.rows ilike (history (k + 1))).length) :
    response.Full := by
  obtain ⟨o, hitems⟩ := h.items
  rw [ListResponse.Full, h.total, ← hshows _ _ hitems, OrderBy.length_page]
  omega

namespace Lasting

variable {ilike : String → String → Bool} {history : ℕ → Database} {i j : ℕ}

/-- Assets are shown under the names of their own domains. -/
theorem reports (h : Lasting history) : Reports history
    (fun k row ↦ ∃ row₀, (history k).domains.get row.id = some row₀ ∧ row₀.name = row.name)
    (Shows history) where
  known {k a m row} ha hle hrow := by
    have hstored := (history k).asset_domain a ha
    obtain ⟨row₀, hrow₀⟩ := Option.isSome_iff_exists.1 hstored
    refine ⟨row₀, by rwa [Table.key_of_get hrow], ?_⟩
    rcases h k m hle a.domainId hstored with hgone | hkeeps
    · rw [hgone] at hrow
      exact absurd hrow (by simp)
    · obtain ⟨row', hrow', horigin⟩ := hkeeps.domain row₀ hrow₀
      rw [Option.some.inj (hrow.symm.trans hrow')]
      exact (congrArg Prod.fst horigin).symm
  found := by
    rintro k a m row - ⟨row₀, hrow₀, hname⟩ hid
    rw [← hname]
    rw [hid] at hrow₀
    exact .name hrow₀
  gone {k a m} ha hle hnone := by
    refine .id (hle.lt_of_ne ?_) (Database.forgets_of_get hnone)
    rintro rfl
    have hstored := (history k).asset_domain a ha
    rw [hnone] at hstored
    exact absurd hstored (by simp)

/-- While no domain of them is deleted, matching assets only become more. -/
theorem length_assets_le (h : Lasting history) (hij : i ≤ j) {domainId : Option Id}
    {assetType : Option AssetType}
    (hkept : ∀ a ∈ (Clause.assets domainId assetType).rows ilike (history i),
      ((history j).domains.get a.domainId).isSome) :
    ((Clause.assets domainId assetType).rows ilike (history i)).length ≤
      ((Clause.assets domainId assetType).rows ilike (history j)).length := by
  have hnodup : ((Clause.assets domainId assetType).rows ilike (history i)).Nodup :=
    ((history i).assets.nodup.of_map _).filter _
  refine (hnodup.subperm fun a ha ↦ ?_).length_le
  obtain ⟨hmem, hmatches⟩ := List.mem_filter.1 ha
  have hkeeps := (h i j hij a.domainId ((history i).asset_domain a hmem)).resolve_left
    (Option.isSome_iff_ne_none.1 (hkept a ha))
  exact List.mem_filter.2 ⟨hkeeps.assets a hmem rfl, hmatches⟩

/-- So do the scans of a domain. -/
theorem length_scans_le (h : Lasting history) (hij : i ≤ j) {d : Id}
    (hkept : ((history j).domains.get d).isSome) :
    ((Clause.scans d).rows ilike (history i)).length ≤
      ((Clause.scans d).rows ilike (history j)).length := by
  have hnodup : (((Clause.scans d).rows ilike (history i)).map Scan.id).Nodup :=
    (history i).scans.nodup.sublist (List.filter_sublist.map _)
  have hsub : ((Clause.scans d).rows ilike (history i)).map Scan.id ⊆
      ((Clause.scans d).rows ilike (history j)).map Scan.id := by
    intro x hx
    obtain ⟨row, hrow, rfl⟩ := List.mem_map.1 hx
    obtain ⟨hmem, hd⟩ := List.mem_filter.1 hrow
    have hd : row.domainId = d := beq_iff_eq.1 hd
    have hstored := (history i).scan_domain row hmem
    rw [hd] at hstored
    have hkeeps := (h i j hij d hstored).resolve_left (Option.isSome_iff_ne_none.1 hkept)
    obtain ⟨row', hrow', horigin⟩ := hkeeps.scans row.id row (Table.get_key hmem) hd
    refine List.mem_map.2 ⟨row', List.mem_filter.2 ⟨Table.mem_of_get hrow', ?_⟩,
      Table.key_of_get hrow'⟩
    exact beq_iff_eq.2 ((congrArg Prod.fst horigin).trans hd)
  have hle := (hnodup.subperm hsub).length_le
  rwa [List.length_map, List.length_map] at hle

end Lasting

namespace World

variable {cfg : Settings} {u : Unicode} {w : ℕ → World}

/-- The states in which the statements of one request are carried out: anything can happen between
two of them. -/
structure During (cfg : Settings) (u : Unicode) (w : ℕ → World) : Prop where
  start : Run cfg u (boot .empty) (w 0)
  next : ∀ m, Run cfg u (w m) (w (m + 1))

/-- Later states are reached by runs. -/
theorem During.run (h : During cfg u w) {i j : ℕ} (hij : i ≤ j) : Run cfg u (w i) (w j) := by
  induction hij with
  | refl => exact .refl
  | step _ ih => exact ih.trans (h.next _)

/-- Rows stay, or their domain is forgotten. -/
theorem During.lasting (h : During cfg u w) : Lasting fun m ↦ (w m).shared.db := by
  intro i j hij d hd
  have hrecorded : (w i).Recorded :=
    (recorded_boot (s := .empty) (by decide) Database.coherent_empty).run
      (h.start.trans (h.run (Nat.zero_le i)))
  exact hrecorded.keeps (h.run hij) hd

/-- **`list_assets` while the service works.** In any run, with anything happening between the
statements of the request: if a domain is given that is not stored, the request is answered 404.
Otherwise the total is the number of matching assets at one moment, and the items are a page of the
matching assets of the next, newest first, each under the name that its domain has then, or under
the id of its domain, which has been deleted by the moment at which it is looked up: the domains are
looked up one after another from the next moment on. If none of the domains is deleted between the
count and the page, the page has as many items as the total promises. -/
theorem assets_listed (cfg : Settings) (u : Unicode) (ilike : String → String → Bool)
    (h : During cfg u w) {maxPageSize : ℤ} (hmax : 0 ≤ maxPageSize) {ω : ℕ → SelectEnv}
    (hω : ∀ k, (ω k).fails = false) (page limit : ℤ) (domainId : Option Id)
    (assetType : Option AssetType) :
    ∃ r ω' m', (ReadOnly.AssetService.listAssets maxPageSize page limit domainId assetType).answers
        ilike (fun m ↦ (w m).shared.db) ω 0 = some (r, ω', m') ∧
      ((∃ d, domainId = some d ∧ (w 0).shared.db.Forgets d ∧
          r = .error (.http 404 "Domain not found")) ∨
        ∃ response k, r = .ok response ∧ (k = if domainId.isSome then 1 else 0) ∧
          response.page = max page 1 ∧ response.limit = min (max limit 1) maxPageSize ∧
          Listed ilike (fun m ↦ (w m).shared.db) (.assets domainId assetType)
            (InTurn (Shows (fun m ↦ (w m).shared.db) (k + 1)) (k + 2)) k response ∧
          ((∀ a ∈ (Clause.assets domainId assetType).rows ilike (w k).shared.db,
            ((w (k + 1)).shared.db.domains.get a.domainId).isSome) → response.Full)) := by
  obtain ⟨r, ω', m', hrun, hr⟩ := (answers_listAssets ilike 0 (fun _ he ↦ he) h.lasting.reports
    hmax page limit domainId assetType).run hω
  refine ⟨r, ω', m', hrun, ?_⟩
  -- a domain asked for is looked up first; then come the count, the page and the names
  rcases hr with ⟨d, hd, hnone, rfl⟩ | ⟨-, k, hk, e, -, items, rfl, hitems⟩
  · exact Or.inl ⟨d, hd, Database.forgets_of_get hnone, rfl⟩
  · have hlisted : Listed ilike (fun m ↦ (w m).shared.db) (.assets domainId assetType)
        (InTurn (Shows (fun m ↦ (w m).shared.db) (k + 1)) (k + 2)) k ⟨items, max page 1,
          min (max limit 1) maxPageSize, _⟩ :=
      ⟨rfl, e.order _, hitems⟩
    exact Or.inr ⟨_, k, rfl, hk, rfl, rfl, hlisted,
      fun hkept ↦ hlisted.full (fun _ _ hturn ↦ hturn.length_eq)
        (h.lasting.length_assets_le (Nat.le_succ k) hkept)⟩

/-- The domain of `discovery` is deleted. -/
def removal : List Action :=
  .start (.delete 0) :: performs 2 5

/-- The states of a request whose first two statements come before `w`. -/
def before (w₀ w : World) (m : ℕ) : World :=
  if m ≤ 1 then w₀ else w

theorem during_before {w₀ w : World} (h₀ : Run cfg u (boot .empty) w₀) (h : Run cfg u w₀ w) :
    During cfg u (before w₀ w) := by
  refine ⟨h₀, fun m ↦ ?_⟩
  rcases m with _ | _ | m
  · exact .refl
  · exact h
  · exact .refl

/-- The domain is deleted when the page has been fetched. -/
theorem assets_listed_removal :
    ∃ w, During {} .plain w ∧ (w 2).shared.db.Forgets 0 ∧ ∃ response ω' m',
      (ReadOnly.AssetService.listAssets 100 1 20 none none).answers (fun _ _ ↦ false)
        (fun m ↦ (w m).shared.db) (fun _ ↦ SelectEnv.asStored) 0 = some (.ok response, ω', m') ∧
      response.total = 1 ∧ response.Full := by
  obtain ⟨w₀, hrun₀, hrows, hremoval⟩ := Runs.exists_reach (act {} .plain) (fun _ _ ↦ True)
    (fun w ↦ w.shared.db.assets.rows.length = 1 ∧
      (Runs.replay (act {} .plain) (fun _ _ ↦ True) removal w).any fun w' ↦
        w'.shared.db.domains.get 0 = none)
    (s := boot .empty) discovery (by decide +kernel)
  obtain ⟨w₁, hw₁, hgone⟩ := (Option.any_eq_true _ _).1 hremoval
  simp only [decide_eq_true_eq] at hgone
  have hduring := during_before hrun₀ (Runs.reach_of_replay _ hw₁)
  obtain ⟨r, ω', m', hanswers, hr⟩ := assets_listed {} .plain (fun _ _ ↦ false) hduring
    (show (0 : ℤ) ≤ 100 by decide) (ω := fun _ ↦ SelectEnv.asStored) (fun _ ↦ rfl) 1 20 none none
  rcases hr with ⟨d, hd, -⟩ | ⟨response, k, rfl, rfl, -, -, hlisted, hfull⟩
  · exact absurd hd (by simp)
  · refine ⟨_, hduring, Database.forgets_of_get hgone, response, ω', m', hanswers, ?_,
      hfull fun a ha ↦ w₀.shared.db.asset_domain a (List.mem_of_mem_filter ha)⟩
    rw [hlisted.total, ← hrows]
    exact congrArg List.length (List.filter_eq_self.2 fun _ _ ↦ rfl)

/-- **`list_scans` while the service works.** If the domain is not stored the request is answered
404. Otherwise the total is the number of its scans at one moment, and the items are a page of its
scans as they are at the next, newest first; if the domain has not been deleted by then, the page
has as many items as the total promises, and if it has, it is empty. -/
theorem scans_listed (cfg : Settings) (u : Unicode) (ilike : String → String → Bool)
    (h : During cfg u w) {maxPageSize : ℤ} (hmax : 0 ≤ maxPageSize) {ω : ℕ → SelectEnv}
    (hω : ∀ k, (ω k).fails = false) (d : Id) (page limit : ℤ) :
    ∃ r ω' m', (ReadOnly.ScanService.listScans maxPageSize d page limit).answers ilike
        (fun m ↦ (w m).shared.db) ω 0 = some (r, ω', m') ∧
      ((w 0).shared.db.Forgets d ∧ r = .error (.http 404 "Domain not found") ∨
        ((w 0).shared.db.domains.get d).isSome ∧ ∃ response, r = .ok response ∧
          response.page = max page 1 ∧ response.limit = min (max limit 1) maxPageSize ∧
          Listed ilike (fun m ↦ (w m).shared.db) (.scans d) (List.Forall₂ fun s item ↦
            item = ⟨s.id, s.status, s.startedAt, s.completedAt, s.errorMessage⟩) 1 response ∧
          if ((w 2).shared.db.domains.get d).isSome then response.Full
          else response.items = []) := by
  obtain ⟨r, ω', m', hrun, hr⟩ := (answers_listScans ilike (fun m ↦ (w m).shared.db) 0
    (fun _ he ↦ he) hmax d page limit).run hω
  refine ⟨r, ω', m', hrun, ?_⟩
  rcases hr with ⟨hnone, rfl⟩ | ⟨hsome, e, -, rfl⟩
  · exact Or.inl ⟨Database.forgets_of_get hnone, rfl⟩
  · have hlisted := listed_map (c := .scans d) (fun s ↦ (⟨s.id, s.status, s.startedAt,
      s.completedAt, s.errorMessage⟩ : ScanHistoryItem)) ilike (fun m ↦ (w m).shared.db) 1
      (e.order _) (max page 1) (min (max limit 1) maxPageSize)
    refine Or.inr ⟨hsome, _, rfl, rfl, rfl, hlisted, ?_⟩
    split
    · next hkept =>
      exact hlisted.full (fun _ _ ↦ List.Forall₂.length_eq)
        (h.lasting.length_scans_le (Nat.le_succ 1) hkept)
    · next hgone =>
      have hforgets := Database.forgets_of_get (Option.not_isSome_iff_eq_none.1 hgone)
      have hnone : (Clause.scans d).rows ilike (w 2).shared.db = [] :=
        List.filter_eq_nil_iff.2 fun s hs hd ↦ hforgets.scans s hs (beq_iff_eq.1 hd)
      obtain ⟨o, hitems⟩ := hlisted.items
      refine List.length_eq_zero_iff.1 (hitems.length_eq.symm.trans ?_)
      rw [OrderBy.length_page, hnone, List.length_nil, Nat.zero_sub, Nat.min_zero]

/-- The domain is deleted before the page is fetched. -/
theorem scans_listed_removal :
    ∃ w, During {} .plain w ∧ ∃ response ω' m',
      (ReadOnly.ScanService.listScans 100 0 1 20).answers (fun _ _ ↦ false)
        (fun m ↦ (w m).shared.db) (fun _ ↦ SelectEnv.asStored) 0 = some (.ok response, ω', m') ∧
      response.total = 1 ∧ response.items = [] := by
  obtain ⟨w₀, hrun₀, ⟨hstored, hrows⟩, hremoval⟩ := Runs.exists_reach (act {} .plain)
    (fun _ _ ↦ True) (fun w ↦ ((w.shared.db.domains.get 0).isSome ∧
        ((Clause.scans 0).rows (fun _ _ ↦ false) w.shared.db).length = 1) ∧
      (Runs.replay (act {} .plain) (fun _ _ ↦ True) removal w).any fun w' ↦
        w'.shared.db.domains.get 0 = none)
    (s := boot .empty) discovery (by decide +kernel)
  obtain ⟨w₁, hw₁, hgone⟩ := (Option.any_eq_true _ _).1 hremoval
  simp only [decide_eq_true_eq] at hgone
  have hduring := during_before hrun₀ (Runs.reach_of_replay _ hw₁)
  obtain ⟨r, ω', m', hanswers, hr⟩ := scans_listed {} .plain (fun _ _ ↦ false) hduring
    (show (0 : ℤ) ≤ 100 by decide) (ω := fun _ ↦ SelectEnv.asStored) (fun _ ↦ rfl) 0 1 20
  rcases hr with ⟨hforgets, -⟩ | ⟨-, response, rfl, -, -, hlisted, hitems⟩
  · have hnone : w₀.shared.db.domains.get 0 = none := hforgets.domain
    rw [hnone] at hstored
    exact absurd hstored (by simp)
  · refine ⟨_, hduring, response, ω', m', hanswers, hlisted.total.trans hrows, ?_⟩
    rwa [if_neg (by rw [show (before w₀ w₁ 2).shared.db.domains.get 0 = none from hgone]; simp)]
      at hitems

/-- **`list_domains` while the service works.** The total is the number of matching domains at one
moment, and the items are a page of those of the next, newest first. -/
theorem domains_listed (w : ℕ → World) (ilike : String → String → Bool) {maxPageSize : ℤ}
    (hmax : 0 ≤ maxPageSize) {ω : ℕ → SelectEnv} (hω : ∀ k, (ω k).fails = false) (u : Unicode)
    (page limit : ℤ) (status : Option DomainStatus) (search : Option String) :
    ∃ response ω' m', (ReadOnly.DomainService.listDomains maxPageSize u page limit status
        search).answers ilike (fun m ↦ (w m).shared.db) ω 0 = some (.ok response, ω', m') ∧
      response.page = max page 1 ∧ response.limit = min (max limit 1) maxPageSize ∧
      Listed ilike (fun m ↦ (w m).shared.db) (.domains status (DomainRepo.pattern u search))
        (List.Forall₂ fun d item ↦ item = ⟨d.id, d.name, d.status⟩) 0 response := by
  obtain ⟨_, ω', m', hrun, e, -, rfl⟩ := (answers_listDomains ilike (fun m ↦ (w m).shared.db) 0
    (fun _ he ↦ he) hmax u page limit status search).run hω
  exact ⟨_, ω', m', hrun, rfl, rfl, listed_map (c := .domains status (DomainRepo.pattern u search))
    (fun d ↦ (⟨d.id, d.name, d.status⟩ : DomainResponse)) ilike (fun m ↦ (w m).shared.db) 0
    (e.order _) (max page 1) (min (max limit 1) maxPageSize)⟩

end World

end AssetDiscovery
