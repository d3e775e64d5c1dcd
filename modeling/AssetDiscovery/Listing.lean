import AssetDiscovery.Fqdn
import AssetDiscovery.Library.Paging
import AssetDiscovery.Redelivery

/-!
# Listings

`list_assets`, `list_domains` and `list_scans` fetch one page of the rows that match a filter,
newest first, and count all of them. The order is that of `created_at` alone, and `create_assets`
inserts all the assets of a scan in one transaction, so that they are created at the same time.

A `Database` stands for the store, and an `OrderBy` for the order that the database chooses in one
request. `walks_once_iff` says when walking through all pages gives every matching row once.
-/

set_option autoImplicit false

namespace AssetDiscovery

/-! ### Repositories -/

/-- What the three listings of the repositories do: count the rows of one statement, and fetch a
page of those of another, newest first. PostgreSQL refuses a negative `OFFSET` or `LIMIT`. -/
def listRows {Row : Type} {createdAt : Row → Time} (order : OrderBy createdAt) (rows : List Row)
    (stmt countStmt : Row → Bool) (page limit : ℤ) : Except Exn (List Row × ℕ) :=
  let total := rows.countP countStmt
  let offset := (page - 1) * limit
  if offset < 0 ∨ limit < 0 then .error (.database .data)
  else .ok (((order.order (rows.filter stmt)).drop offset.toNat).take limit.toNat, total)

/-- `list_assets` of the repository. -/
def AssetRepo.listAssets (db : Database) (order : OrderBy Asset.createdAt) (page limit : ℤ)
    (domainId : Option Id) (assetType : Option AssetType) : Except Exn (List Asset × ℕ) :=
  let stmt (a : Asset) := domainId.all (a.domainId == ·) && assetType.all (a.type == ·)
  let countStmt (a : Asset) := domainId.all (a.domainId == ·) && assetType.all (a.type == ·)
  listRows order db.assets.rows stmt countStmt page limit

/-- `list_domains` of the repository. `ilike` is PostgreSQL's operator, with the name and the
pattern. -/
def DomainRepo.listDomains (u : Unicode) (ilike : String → String → Bool) (db : Database)
    (order : OrderBy Domain.createdAt) (page limit : ℤ) (status : Option DomainStatus)
    (search : Option String) : Except Exn (List Domain × ℕ) :=
  let pattern (search : String) := "%" ++ String.ofList (u.strip (u.lower search.toList)) ++ "%"
  let stmt (d : Domain) := status.all (d.status == ·) &&
    (search.filter (· ≠ "")).all fun search ↦ ilike d.name (pattern search)
  let countStmt (d : Domain) := status.all (d.status == ·) &&
    (search.filter (· ≠ "")).all fun search ↦ ilike d.name (pattern search)
  listRows order db.domains.rows stmt countStmt page limit

/-- `list_scans_for_domain`. -/
def ScanRepo.listScansForDomain (db : Database) (order : OrderBy Scan.createdAt) (domainId : Id)
    (page limit : ℤ) : Except Exn (List Scan × ℕ) :=
  listRows order db.scans.rows (·.domainId == domainId) (·.domainId == domainId) page limit

/-! ### Services -/

/-- `AssetListResponse`, `DomainListResponse` and `ScanListResponse`. -/
structure ListResponse (Item : Type) where
  items : List Item
  page : ℤ
  limit : ℤ
  total : ℕ

/-- `AssetResponse`. -/
structure AssetResponse where
  id : Id
  /-- The name of the domain, or else its id. -/
  domain : String ⊕ Id
  type : AssetType
  value : String

/-- `DomainResponse`. -/
structure DomainResponse where
  id : Id
  name : String
  status : DomainStatus

/-- `ScanHistoryItem`. -/
structure ScanHistoryItem where
  scanId : Id
  status : ScanStatus
  startedAt : Option Time
  completedAt : Option Time
  errorMessage : Option String

/-- What the three listings of the services do: clamp the page and the limit, fetch the page, and
show its rows. -/
def listResponse {Row Item : Type} (maxPageSize : ℤ)
    (fetch : ℤ → ℤ → Except Exn (List Row × ℕ)) (item : Row → Item) (page limit : ℤ) :
    Except Exn (ListResponse Item) :=
  let page := max page 1
  let limit := min (max limit 1) maxPageSize
  match fetch page limit with
  | .error e => .error e
  | .ok (rows, total) => .ok ⟨rows.map item, page, limit, total⟩

/-- The response for one asset. -/
def AssetResponse.of (db : Database) (a : Asset) : AssetResponse :=
  ⟨a.id, ((db.domains.get a.domainId).map (.inl ·.name)).getD (.inr a.domainId), a.type, a.value⟩

/-- `list_assets` of the service. -/
def AssetService.listAssets (maxPageSize : ℤ) (db : Database) (order : OrderBy Asset.createdAt)
    (page limit : ℤ) (domainId : Option Id) (assetType : Option AssetType) :
    Except Exn (ListResponse AssetResponse) :=
  if domainId.any fun d ↦ (db.domains.get d).isNone then .error (.http 404 "Domain not found")
  else
    listResponse maxPageSize
      (fun page limit ↦ AssetRepo.listAssets db order page limit domainId assetType)
      (AssetResponse.of db) page limit

/-- `list_domains` of the service. -/
def DomainService.listDomains (maxPageSize : ℤ) (u : Unicode) (ilike : String → String → Bool)
    (db : Database) (order : OrderBy Domain.createdAt) (page limit : ℤ)
    (statusFilter : Option DomainStatus) (search : Option String) :
    Except Exn (ListResponse DomainResponse) :=
  listResponse maxPageSize
    (fun page limit ↦ DomainRepo.listDomains u ilike db order page limit statusFilter search)
    (fun d ↦ ⟨d.id, d.name, d.status⟩) page limit

/-- `list_scans` of the service. -/
def ScanService.listScans (maxPageSize : ℤ) (db : Database) (order : OrderBy Scan.createdAt)
    (domainId : Id) (page limit : ℤ) : Except Exn (ListResponse ScanHistoryItem) :=
  match db.domains.get domainId with
  | none => .error (.http 404 "Domain not found")
  | some _ =>
    listResponse maxPageSize
      (fun page limit ↦ ScanRepo.listScansForDomain db order domainId page limit)
      (fun s ↦ ⟨s.id, s.status, s.startedAt, s.completedAt, s.errorMessage⟩) page limit

/-! ### Walking through the pages -/

/-- The walk through the pages of a listing, with `l` items each: every response has the right
total, and the items of all pages are those that are expected, each of them once. Each request has
an order of its own. -/
def WalksOnce {Row Item : Type} {createdAt : Row → Time}
    (list : OrderBy createdAt → ℤ → Except Exn (ListResponse Item)) (l : ℕ)
    (expected : List Item) : Prop :=
  (∀ order page response, list order page = .ok response → response.total = expected.length) ∧
    ∀ order : ℕ → OrderBy createdAt, ∃ pages : ℕ → ListResponse Item,
      (∀ p < expected.length ⌈/⌉ l, list (order p) (p + 1) = .ok (pages p)) ∧
      ((List.range (expected.length ⌈/⌉ l)).flatMap fun p ↦ (pages p).items).Perm expected

section Walk

variable {Row Item : Type} {createdAt : Row → Time} {rows : List Row} {stmt : Row → Bool}
  {item : Row → Item} {maxPageSize limit : ℤ}

/-- One response of a listing whose two statements have the same filter. -/
theorem listResponse_eq (order : OrderBy createdAt) (hlimit : 1 ≤ limit) (hmax : 1 ≤ maxPageSize)
    (p : ℕ) : listResponse maxPageSize (listRows order rows stmt stmt) item (p + 1) limit =
      .ok ⟨(order.page (rows.filter stmt) (min limit maxPageSize).toNat p).map item, p + 1,
        min limit maxPageSize, (rows.filter stmt).length⟩ := by
  have hpage : max ((p : ℤ) + 1) 1 = p + 1 := by omega
  have hclamp : min (max limit 1) maxPageSize = min limit maxPageSize := by omega
  obtain ⟨l, hl⟩ : ∃ l : ℕ, min limit maxPageSize = l :=
    Int.eq_ofNat_of_zero_le (by omega)
  have hoffset : ((p : ℤ) + 1 - 1) * l = (p * l : ℕ) := by
    rw [Int.add_sub_cancel, Int.natCast_mul]
  have hneg : ¬ (((p * l : ℕ) : ℤ) < 0 ∨ (l : ℤ) < 0) := by omega
  simp only [listResponse, listRows, hpage, hclamp, hl, hoffset, if_neg hneg, Int.toNat_natCast,
    List.countP_eq_length_filter]
  rfl

/-- The total is the number of matching rows. -/
theorem total_of_listResponse {order : OrderBy createdAt} {page : ℤ} {response : ListResponse Item}
    (h : listResponse maxPageSize (listRows order rows stmt stmt) item page limit = .ok response) :
    response.total = (rows.filter stmt).length := by
  simp only [listResponse, listRows] at h
  split at h
  · exact absurd h (by simp)
  · next hfetch =>
    split at hfetch
    · exact absurd hfetch (by simp)
    · obtain rfl := Except.ok.inj h
      rw [← List.countP_eq_length_filter]
      exact (Prod.mk.inj (Except.ok.inj hfetch)).2.symm

/-- A listing that answers whenever there is a matching row. -/
theorem walksOnce_iff {list : OrderBy createdAt → ℤ → Except Exn (ListResponse Item)}
    (hlimit : 1 ≤ limit) (hmax : 1 ≤ maxPageSize) (hnodup : ((rows.filter stmt).map item).Nodup)
    (hlist : ∀ order page, list order page =
        listResponse maxPageSize (listRows order rows stmt stmt) item page limit ∨
      rows.filter stmt = [] ∧ ∃ e, list order page = .error e) :
    WalksOnce list (min limit maxPageSize).toNat ((rows.filter stmt).map item) ↔
      OrderBy.CutsPages createdAt (rows.filter stmt) (min limit maxPageSize).toNat := by
  have hl : 0 < (min limit maxPageSize).toNat := by omega
  -- every page reports the number of matching rows
  have htotal : ∀ order page response, list order page = .ok response →
      response.total = (rows.filter stmt).length := by
    intro order page response h
    rcases hlist order page with heq | ⟨-, e, heq⟩
    · exact total_of_listResponse (heq.symm.trans h)
    · rw [heq] at h
      exact absurd h (by simp)
  -- the pages up to the last one are cut out of the order that this request has used
  have hpage : ∀ order, ∀ p < (rows.filter stmt).length ⌈/⌉ (min limit maxPageSize).toNat,
      list order (p + 1) =
        .ok ⟨(order.page (rows.filter stmt) (min limit maxPageSize).toNat p).map item, p + 1,
          min limit maxPageSize, (rows.filter stmt).length⟩ := by
    intro order p hp
    rcases hlist order (p + 1) with heq | ⟨hnone, -⟩
    · rw [heq, listResponse_eq order hlimit hmax]
    · rw [hnone, List.length_nil, zero_ceilDiv] at hp
      exact absurd hp (Nat.not_lt_zero p)
  rw [← OrderBy.walk_perm_iff hnodup hl, WalksOnce, List.length_map]
  constructor
  · rintro ⟨-, h⟩ order
    obtain ⟨pages, hpages, hperm⟩ := h order
    have hitems : ∀ p ∈ List.range ((rows.filter stmt).length ⌈/⌉ (min limit maxPageSize).toNat),
        ((order p).page (rows.filter stmt) (min limit maxPageSize).toNat p).map item =
          (pages p).items := by
      intro p hp
      have hsame := (hpage (order p) p (List.mem_range.1 hp)).symm.trans
        (hpages p (List.mem_range.1 hp))
      rw [← Except.ok.inj hsame]
    rwa [List.flatMap_congr hitems]
  · intro h
    exact ⟨htotal, fun order ↦ ⟨_, fun p hp ↦ hpage (order p) p hp, h order⟩⟩

end Walk

/-! ### The three listings -/

namespace Database

variable (db : Database)

/-- The assets of a domain and of a type, if these are given. -/
def matchingAssets (domainId : Option Id) (assetType : Option AssetType) : List Asset :=
  db.assets.rows.filter fun a ↦
    (∀ d ∈ domainId, a.domainId = d) ∧ ∀ type ∈ assetType, a.type = type

/-- The domains with a status and with a text in their name, if these are given; an empty text is
as good as none. -/
def matchingDomains (u : Unicode) (ilike : String → String → Bool) (status : Option DomainStatus)
    (search : Option String) : List Domain :=
  db.domains.rows.filter fun d ↦ (∀ st ∈ status, d.status = st) ∧
    ∀ text ∈ search, text ≠ "" →
      ilike d.name ("%" ++ String.ofList (u.strip (u.lower text.toList)) ++ "%")

end Database

variable {db : Database} {maxPageSize limit : ℤ}

/-- Rows that are shown with their keys are shown differently. -/
theorem nodup_map_of_key {Row Key Item : Type} {key : Row → Key} [DecidableEq Key] (t : Table key)
    (stmt : Row → Bool) {item : Row → Item} (shown : Item → Key)
    (hshown : ∀ row, shown (item row) = key row) : ((t.rows.filter stmt).map item).Nodup := by
  have hkeys : (t.rows.filter stmt).map (shown ∘ item) = (t.rows.filter stmt).map key :=
    List.map_congr_left fun row _ ↦ hshown row
  refine List.Nodup.of_map shown ?_
  rw [List.map_map, hkeys]
  exact t.nodup.sublist (List.filter_sublist.map key)

/-- The pages of `list_assets` list each asset once if and only if every page boundary falls between
different creation times. -/
theorem listAssets_walksOnce_iff (hlimit : 1 ≤ limit) (hmax : 1 ≤ maxPageSize)
    (domainId : Option Id) (assetType : Option AssetType) :
    WalksOnce (fun order page ↦
        AssetService.listAssets maxPageSize db order page limit domainId assetType)
        (min limit maxPageSize).toNat
        ((db.matchingAssets domainId assetType).map (AssetResponse.of db)) ↔
      OrderBy.CutsPages Asset.createdAt (db.matchingAssets domainId assetType)
        (min limit maxPageSize).toNat := by
  have hstmt : db.matchingAssets domainId assetType = db.assets.rows.filter fun a ↦
      domainId.all (a.domainId == ·) && assetType.all (a.type == ·) := by
    refine List.filter_congr fun a _ ↦ Bool.eq_iff_iff.2 ?_
    cases domainId <;> cases assetType <;> simp
  rw [hstmt]
  refine walksOnce_iff hlimit hmax (nodup_map_of_key db.assets _ AssetResponse.id fun _ ↦ rfl)
    fun order page ↦ ?_
  unfold AssetService.listAssets
  split
  · next hnone =>
    refine Or.inr ⟨?_, _, rfl⟩
    cases domainId with
    | none => exact absurd hnone (by simp)
    | some d =>
      refine List.filter_eq_nil_iff.2 fun a ha hmatch ↦ ?_
      have hd : a.domainId = d := by
        simp only [Option.all_some, Bool.and_eq_true, beq_iff_eq] at hmatch
        exact hmatch.1
      have hstored := db.asset_domain a (Table.mem_rows.1 ha)
      rw [hd] at hstored
      exact absurd hnone (by simpa using Option.isSome_iff_ne_none.1 hstored)
  · exact Or.inl rfl

/-- The same of `list_domains`. -/
theorem listDomains_walksOnce_iff (hlimit : 1 ≤ limit) (hmax : 1 ≤ maxPageSize) (u : Unicode)
    (ilike : String → String → Bool) (status : Option DomainStatus) (search : Option String) :
    WalksOnce (fun order page ↦
        DomainService.listDomains maxPageSize u ilike db order page limit status search)
        (min limit maxPageSize).toNat
        ((db.matchingDomains u ilike status search).map fun d ↦ ⟨d.id, d.name, d.status⟩) ↔
      OrderBy.CutsPages Domain.createdAt (db.matchingDomains u ilike status search)
        (min limit maxPageSize).toNat := by
  have hstmt : db.matchingDomains u ilike status search = db.domains.rows.filter fun d ↦
      status.all (d.status == ·) && (search.filter (· ≠ "")).all fun text ↦
        ilike d.name ("%" ++ String.ofList (u.strip (u.lower text.toList)) ++ "%") := by
    refine List.filter_congr fun d _ ↦ Bool.eq_iff_iff.2 ?_
    cases search with
    | none => cases status <;> simp
    | some text => by_cases htext : text = "" <;> cases status <;> simp [Option.filter, htext]
  rw [hstmt]
  exact walksOnce_iff hlimit hmax (nodup_map_of_key db.domains _ DomainResponse.id fun _ ↦ rfl)
    fun order page ↦ Or.inl rfl

/-- The same of `list_scans`. -/
theorem listScans_walksOnce_iff (hlimit : 1 ≤ limit) (hmax : 1 ≤ maxPageSize) (domainId : Id) :
    WalksOnce (fun order page ↦ ScanService.listScans maxPageSize db order domainId page limit)
        (min limit maxPageSize).toNat ((db.scansOf domainId).map fun s ↦
          (⟨s.id, s.status, s.startedAt, s.completedAt, s.errorMessage⟩ : ScanHistoryItem)) ↔
      OrderBy.CutsPages Scan.createdAt (db.scansOf domainId) (min limit maxPageSize).toNat := by
  have hstmt : db.scansOf domainId = db.scans.rows.filter (·.domainId == domainId) := rfl
  rw [hstmt]
  refine walksOnce_iff hlimit hmax (nodup_map_of_key db.scans _ ScanHistoryItem.scanId fun _ ↦ rfl)
    fun order page ↦ ?_
  unfold ScanService.listScans
  cases hd : db.domains.get domainId with
  | some => exact Or.inl rfl
  | none =>
    refine Or.inr ⟨List.filter_eq_nil_iff.2 fun s hs hmatch ↦ ?_, _, rfl⟩
    have hstored := db.scan_domain s (Table.mem_rows.1 hs)
    rw [beq_iff_eq.1 hmatch, hd] at hstored
    exact absurd hstored (by simp)

/-- **Walking through the pages of a listing gives every matching row once, and every total is
right**, if and only if no two matching rows that were created at the same time lie on both sides of
a page boundary. -/
theorem listings_walk_once_iff (hlimit : 1 ≤ limit) (hmax : 1 ≤ maxPageSize) :
    (∀ domainId assetType, WalksOnce (fun order page ↦
        AssetService.listAssets maxPageSize db order page limit domainId assetType)
        (min limit maxPageSize).toNat
        ((db.matchingAssets domainId assetType).map (AssetResponse.of db)) ↔
      OrderBy.CutsPages Asset.createdAt (db.matchingAssets domainId assetType)
        (min limit maxPageSize).toNat) ∧
    (∀ u ilike status search, WalksOnce (fun order page ↦
        DomainService.listDomains maxPageSize u ilike db order page limit status search)
        (min limit maxPageSize).toNat
        ((db.matchingDomains u ilike status search).map fun d ↦ ⟨d.id, d.name, d.status⟩) ↔
      OrderBy.CutsPages Domain.createdAt (db.matchingDomains u ilike status search)
        (min limit maxPageSize).toNat) ∧
    (∀ domainId, WalksOnce (fun order page ↦
        ScanService.listScans maxPageSize db order domainId page limit)
        (min limit maxPageSize).toNat ((db.scansOf domainId).map fun s ↦
          (⟨s.id, s.status, s.startedAt, s.completedAt, s.errorMessage⟩ : ScanHistoryItem)) ↔
      OrderBy.CutsPages Scan.createdAt (db.scansOf domainId) (min limit maxPageSize).toNat) :=
  ⟨listAssets_walksOnce_iff hlimit hmax, listDomains_walksOnce_iff hlimit hmax,
    listScans_walksOnce_iff hlimit hmax⟩

/-! ### Scans with assets -/

/-- Two addresses, and nothing else. -/
def twoAddresses (type : AssetType) : Lookup :=
  if type = .a then .answer [⟨"192.0.2.1", "", ""⟩, ⟨"192.0.2.2", "", ""⟩] else .noAnswer

/-- The database after a scan has found two addresses. -/
def twoAssets : Database :=
  (aftermath {} .plain 1 .awaiting (fun _ ↦ .deliver 0 twoAddresses 40 fun _ ↦ {}) 1).db

/-- The database after a first worker has stored two addresses and died, and a second one has stored
them once more. -/
def fourAssets : Database :=
  (aftermath {} .plain 1 .awaiting
    (fun k ↦ .deliver 0 twoAddresses (if k = 0 then 16 else 40) fun _ ↦ { tick := 1 }) 2).db

/-- `listings_walk_once_iff` for two pages, of the assets of the second worker and of the first. -/
theorem listings_walk_once_fourAssets : (fourAssets.matchingAssets (some 0) none).length = 4 ∧
    WalksOnce
      (fun order page ↦ AssetService.listAssets 100 fourAssets order page 2 (some 0) none) 2
      ((fourAssets.matchingAssets (some 0) none).map (AssetResponse.of fourAssets)) := by
  have hlen : (fourAssets.matchingAssets (some 0) none).length = 4 := by decide +kernel
  refine ⟨hlen,
    ((listings_walk_once_iff (by decide) (by decide)).1 (some 0) none).2 fun k hk hlt ↦ ?_⟩
  have hlimit : (min (2 : ℤ) 100).toNat = 2 := rfl
  rw [hlimit] at hlt ⊢
  rw [hlen] at hlt
  -- the only boundary between two assets is that of the first page
  obtain rfl : k = 1 := by omega
  exact ⟨16, by decide +kernel⟩

/-- The two assets have been created at the same time, so that the second page of one row can show
the same one as the first. -/
theorem not_listings_walk_once :
    ¬ ∀ (db : Database) (maxPageSize limit : ℤ) (domainId : Option Id)
      (assetType : Option AssetType), 1 ≤ limit → 1 ≤ maxPageSize →
      WalksOnce (fun order page ↦
          AssetService.listAssets maxPageSize db order page limit domainId assetType)
        (min limit maxPageSize).toNat
        ((db.matchingAssets domainId assetType).map (AssetResponse.of db)) := by
  intro h
  let asStored : OrderBy Asset.createdAt := .stable _ id fun _ ↦ .refl _
  let reversed : OrderBy Asset.createdAt := .stable _ List.reverse List.reverse_perm
  obtain ⟨pages, hpages, hperm⟩ := (h twoAssets 100 1 none none (by decide) (by decide)).2
    fun p ↦ if p = 0 then asStored else reversed
  have hlen : ((twoAssets.matchingAssets none none).map (AssetResponse.of twoAssets)).length ⌈/⌉
      (min (1 : ℤ) 100).toNat = 2 := by
    decide +kernel
  rw [hlen] at hpages hperm
  have hfirst : ((AssetService.listAssets 100 twoAssets asStored 1 1 none none).toOption.map
      fun r ↦ r.items.map AssetResponse.id) = some [2] := by
    decide +kernel
  have hsecond : ((AssetService.listAssets 100 twoAssets reversed 2 1 none none).toOption.map
      fun r ↦ r.items.map AssetResponse.id) = some [2] := by
    decide +kernel
  have hexpected : ((twoAssets.matchingAssets none none).map (AssetResponse.of twoAssets)).map
      AssetResponse.id = [2, 3] := by
    decide +kernel
  have h₀ : AssetService.listAssets 100 twoAssets asStored 1 1 none none = .ok (pages 0) :=
    hpages 0 (by decide)
  have h₁ : AssetService.listAssets 100 twoAssets reversed 2 1 none none = .ok (pages 1) :=
    hpages 1 (by decide)
  have hitems₀ : (pages 0).items.map AssetResponse.id = [2] := by
    rw [h₀] at hfirst
    exact Option.some.inj hfirst
  have hitems₁ : (pages 1).items.map AssetResponse.id = [2] := by
    rw [h₁] at hsecond
    exact Option.some.inj hsecond
  have hids := hperm.map AssetResponse.id
  rw [List.map_flatMap, hexpected] at hids
  have hwalk : ((List.range 2).flatMap fun p ↦ (pages p).items.map AssetResponse.id) = [2, 2] := by
    show (pages 0).items.map AssetResponse.id ++ ((pages 1).items.map AssetResponse.id ++ []) = _
    rw [hitems₀, hitems₁]
    rfl
  rw [hwalk] at hids
  exact absurd hids (by decide)

end AssetDiscovery
