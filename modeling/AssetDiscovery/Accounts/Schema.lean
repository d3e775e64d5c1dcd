import AssetDiscovery.Accounts.Principals
import AssetDiscovery.Library.Constraints
import AssetDiscovery.Migrations

/-!
# Rows and the schema

The tables of the model carry their constraints as fields. Here they are compared with the schema
that the migrations create: rows are those of a `Database` and of a table of `Users`, are attributed
to stored users and fit their columns, if and only if they satisfy every constraint of the head
(`holds_iff`). So the head is satisfied in every state of every run (`rows_satisfy_schema`).
-/

set_option autoImplicit false

namespace AssetDiscovery

open Sql Migrations Runs Effect

/-! ### Rows as the database stores them -/

/-- `DomainStatus` as a label. -/
def DomainStatus.value : DomainStatus → String
  | pending => "PENDING"
  | running => "RUNNING"
  | completed => "COMPLETED"
  | failed => "FAILED"

/-- `ScanStatus` as a label. -/
def ScanStatus.value : ScanStatus → String
  | pending => "PENDING"
  | running => "RUNNING"
  | completed => "COMPLETED"
  | failed => "FAILED"

/-- `AssetType` as a label. -/
def AssetType.value : AssetType → String
  | a => "A"
  | aaaa => "AAAA"
  | ns => "NS"
  | mx => "MX"

/-- The stored row of a user; `stamps` are the two columns that no function reads. -/
def User.row (stamps : Time × Time) (user : User) : Row
  | "id" => some (.uuid user.id)
  | "email" => some (.text user.email)
  | "password_hash" => some (.text user.passwordHash)
  | "full_name" => some (.text user.fullName)
  | "role" => some (.label user.role.value)
  | "is_active" => some (.boolean user.isActive)
  | "created_at" => some (.stamp stamps.1)
  | "updated_at" => some (.stamp stamps.2)
  | _ => none

/-- The stored row of a domain, with the column `updated_at`, which no function reads. -/
def Domain.row (updatedAt : Time) (d : Domain) : Row
  | "id" => some (.uuid d.id)
  | "name" => some (.text d.name)
  | "status" => some (.label d.status.value)
  | "created_by" => some (.uuid d.createdBy)
  | "created_at" => some (.stamp d.createdAt)
  | "updated_at" => some (.stamp updatedAt)
  | _ => none

/-- The stored row of a scan. -/
def Scan.row (x : Scan) : Row
  | "id" => some (.uuid x.id)
  | "domain_id" => some (.uuid x.domainId)
  | "status" => some (.label x.status.value)
  | "triggered_by" => x.triggeredBy.map .uuid
  | "started_at" => x.startedAt.map .stamp
  | "completed_at" => x.completedAt.map .stamp
  | "error_message" => x.errorMessage.map .text
  | "created_at" => some (.stamp x.createdAt)
  | _ => none

/-- The stored row of an asset. -/
def Asset.row (a : Asset) : Row
  | "id" => some (.uuid a.id)
  | "scan_id" => some (.uuid a.scanId)
  | "domain_id" => some (.uuid a.domainId)
  | "type" => some (.label a.type.value)
  | "value" => some (.text a.value)
  | "created_at" => some (.stamp a.createdAt)
  | _ => none

/-- Rows of the four tables, with the columns that the model leaves out. -/
structure Rows where
  users : List User
  domains : List Domain
  scans : List Scan
  assets : List Asset
  userStamps : Id → Time × Time
  domainUpdatedAt : Id → Time

/-- The tables as the database stores them. -/
def Rows.contents (rows : Rows) : Contents
  | "users" => rows.users.map fun user ↦ user.row (rows.userStamps user.id)
  | "domains" => rows.domains.map fun d ↦ d.row (rows.domainUpdatedAt d.id)
  | "scans" => rows.scans.map Scan.row
  | "assets" => rows.assets.map Asset.row
  | _ => []

/-! ### The head -/

/-- The catalog of the head on an empty database. -/
def head : Catalog :=
  (versions.stage .empty 3).getD .empty

/-- The last stage of the chain on an empty database. -/
theorem stage_head : versions.stage .empty 3 = some head := by
  obtain ⟨s, hs⟩ := Option.isSome_iff_exists.1 versions.runs
  have hstage : versions.stage .empty 3 = some s := hs
  rw [head, hstage]
  rfl

/-- The tables of the last revision. -/
theorem head_tables : head.tables.rows = [usersTable, domainsTable, scansTable, assetsTable] := by
  decide +kernel

/-- The unique indexes. -/
theorem head_unique : head.indexes.rows.filter Index.unique =
    [⟨"ix_users_email", "users", ["email"], true⟩,
      ⟨"ix_domains_name", "domains", ["name"], true⟩] := by
  decide +kernel

theorem get_userRole : head.enums.get "user_role" = some userRoleEnum := by decide +kernel

theorem get_domainStatus : head.enums.get "domain_status" = some domainStatusEnum := by
  decide +kernel

theorem get_scanStatus : head.enums.get "scan_status" = some scanStatusEnum := by decide +kernel

theorem get_assetType : head.enums.get "asset_type" = some assetTypeEnum := by decide +kernel

/-- Each role has a label of its type. -/
theorem UserRole.value_mem (role : UserRole) : role.value ∈ userRoleEnum.labels := by
  cases role <;> decide

/-- Each status of a domain has one. -/
theorem DomainStatus.value_mem (st : DomainStatus) : st.value ∈ domainStatusEnum.labels := by
  cases st <;> decide

/-- Each status of a scan has one. -/
theorem ScanStatus.value_mem (st : ScanStatus) : st.value ∈ scanStatusEnum.labels := by
  cases st <;> decide

/-- Each type of an asset has one. -/
theorem AssetType.value_mem (type : AssetType) : type.value ∈ assetTypeEnum.labels := by
  cases type <;> decide

/-! ### The constraints of each table -/

section Tables

variable {rows : Rows}

/-- A column in which `NULL` is allowed. -/
theorem accepts_map {α : Type} (type : ColumnType) (f : α → Value)
    {enums : Table EnumType.name} {name : String} (hfits : ∀ a, type.Fits enums (f a))
    (o : Option α) : (Column.mk name type true none).Accepts enums (o.map f) := by
  cases o with
  | none => rfl
  | some a => exact hfits a

/-- A column without `NULL` that is unique. -/
theorem pairwise_row {α β : Type} (l : List α) {row : α → Row} {name : String} (key : α → β)
    {value : β → Value} (hrow : ∀ a, row a name = some (value (key a)))
    (hvalue : ∀ b b', value b = value b' → b = b') :
    ((l.map row).Pairwise fun r r' ↦ r name ≠ r' name) ↔ (l.map key).Nodup := by
  rw [List.pairwise_map, List.Nodup, List.pairwise_map]
  refine List.Pairwise.iff fun a b ↦ not_congr ?_
  rw [hrow, hrow, Option.some_inj]
  exact ⟨hvalue _ _, congrArg value⟩

/-- A primary key. -/
theorem id_iff {α : Type} (l : List α) {row : α → Row} (key : α → Id)
    (hrow : ∀ a, row a "id" = some (.uuid (key a))) :
    ((l.map row).Pairwise fun r r' ↦ r "id" ≠ r' "id") ↔ (l.map key).Nodup :=
  pairwise_row l key hrow fun _ _ ↦ Value.uuid.inj

/-- A unique index on one text column. -/
theorem unique_iff {α : Type} {l : List α} {row : α → Row} {name table column : String}
    {contents : Contents} (key : α → String) (hcontents : contents table = l.map row)
    (hrow : ∀ a, row a column = some (.text (key a))) :
    (Index.mk name table [column] true).Unique contents ↔ (l.map key).Nodup := by
  rw [← pairwise_row l key hrow fun _ _ ↦ Value.text.inj, Index.Unique, hcontents,
    List.pairwise_map, List.pairwise_map]
  refine List.Pairwise.iff fun a b ↦ ?_
  simp [hrow]

/-- A foreign key to a column `id`. -/
theorem refers_iff {α β : Type} {l : List α} {l' : List β} {row : α → Row} {row' : β → Row}
    {name table column : String} {onDelete : OnDelete} {contents : Contents} (ref : α → Option Id)
    (key : β → Id) (hcontents : contents name = l.map row)
    (hcontents' : contents table = l'.map row')
    (hrow : ∀ a, row a column = (ref a).map .uuid)
    (hrow' : ∀ b, row' b "id" = some (.uuid (key b))) :
    (ForeignKey.mk column table "id" onDelete).Refers contents name ↔
      ∀ a ∈ l, ∀ x ∈ ref a, ∃ b ∈ l', key b = x := by
  rw [ForeignKey.Refers, hcontents, hcontents', List.forall_mem_map]
  refine forall₂_congr fun a _ ↦ ?_
  rw [hrow]
  constructor
  · intro h x hx
    obtain ⟨_, hb, hid⟩ := h (.uuid x) (Option.mem_map_of_mem _ hx)
    obtain ⟨b, hmem, rfl⟩ := List.mem_map.1 hb
    exact ⟨b, hmem, Value.uuid.inj (Option.some.inj ((hrow' b).symm.trans hid))⟩
  · rintro h _ hv
    obtain ⟨x, hx, rfl⟩ := Option.mem_map.1 hv
    obtain ⟨b, hb, rfl⟩ := h x hx
    exact ⟨row' b, List.mem_map_of_mem hb, hrow' b⟩

variable (rows)

/-- The constraints of `users`, as far as the rows do not meet them by their types. -/
theorem holdsOf_users : head.HoldsOf rows.contents usersTable ↔
    (∀ user ∈ rows.users, user.email.length ≤ 320 ∧ user.passwordHash.length ≤ 255 ∧
      user.fullName.length ≤ 255) ∧ (rows.users.map User.id).Nodup := by
  refine Catalog.holdsOf_iff.trans (and_congr ?_ ((and_iff_left ?_).trans
    (id_iff rows.users User.id fun _ ↦ rfl)))
  · refine List.forall_mem_map.trans (forall₂_congr fun user _ ↦ ?_)
    simp [usersTable, idColumn, stampColumn, User.row, Column.Accepts, ColumnType.Fits,
      get_userRole, user.role.value_mem]
  · exact fun _ hfk ↦ absurd hfk List.not_mem_nil

/-- Those of `domains`. -/
theorem holdsOf_domains : head.HoldsOf rows.contents domainsTable ↔
    (∀ d ∈ rows.domains, d.name.length ≤ nameWidth) ∧ (rows.domains.map Domain.id).Nodup ∧
      ∀ d ∈ rows.domains, ∃ user ∈ rows.users, user.id = d.createdBy := by
  refine Catalog.holdsOf_iff.trans (and_congr ?_ (and_congr
    (id_iff rows.domains Domain.id fun _ ↦ rfl) ?_))
  · refine List.forall_mem_map.trans (forall₂_congr fun d _ ↦ ?_)
    simp [domainsTable, idColumn, stampColumn, Domain.row, Column.Accepts, ColumnType.Fits,
      get_domainStatus, d.status.value_mem, nameWidth]
  · refine List.forall_mem_singleton.trans ((refers_iff (fun d ↦ some d.createdBy) User.id rfl rfl
      (fun _ ↦ rfl) fun _ ↦ rfl).trans ?_)
    simp

/-- Those of `scans`. -/
theorem holdsOf_scans : head.HoldsOf rows.contents scansTable ↔
    (rows.scans.map Scan.id).Nodup ∧
      (∀ x ∈ rows.scans, ∃ d ∈ rows.domains, d.id = x.domainId) ∧
      ∀ x ∈ rows.scans, ∀ y ∈ x.triggeredBy, ∃ user ∈ rows.users, user.id = y := by
  refine Catalog.holdsOf_iff.trans ((and_iff_right ?_).trans (and_congr
    (id_iff rows.scans Scan.id fun _ ↦ rfl) (List.forall_mem_cons.trans (and_congr ?_
      (List.forall_mem_singleton.trans (refers_iff Scan.triggeredBy User.id rfl rfl
        (fun _ ↦ rfl) fun _ ↦ rfl))))))
  · refine List.forall_mem_map.2 fun x _ ↦ ?_
    have hstatus : (Column.mk "status" (.enum "scan_status") false none).Accepts head.enums
        (some (.label x.status.value)) :=
      ⟨_, get_scanStatus, x.status.value_mem⟩
    simp only [scansTable, List.forall_mem_cons]
    exact ⟨trivial, trivial, hstatus, accepts_map .uuid .uuid (fun _ ↦ trivial) x.triggeredBy,
      accepts_map .timestamptz .stamp (fun _ ↦ trivial) x.startedAt,
      accepts_map .timestamptz .stamp (fun _ ↦ trivial) x.completedAt,
      accepts_map .text .text (fun _ ↦ trivial) x.errorMessage, trivial,
      fun _ h ↦ absurd h List.not_mem_nil⟩
  · refine (refers_iff (fun x ↦ some x.domainId) Domain.id rfl rfl (fun _ ↦ rfl)
      fun _ ↦ rfl).trans ?_
    simp

/-- Those of `assets`. -/
theorem holdsOf_assets : head.HoldsOf rows.contents assetsTable ↔
    (∀ a ∈ rows.assets, a.value.length ≤ valueWidth) ∧ (rows.assets.map Asset.id).Nodup ∧
      (∀ a ∈ rows.assets, ∃ x ∈ rows.scans, x.id = a.scanId) ∧
      ∀ a ∈ rows.assets, ∃ d ∈ rows.domains, d.id = a.domainId := by
  refine Catalog.holdsOf_iff.trans (and_congr ?_ (and_congr
    (id_iff rows.assets Asset.id fun _ ↦ rfl) (List.forall_mem_cons.trans (and_congr ?_
      (List.forall_mem_singleton.trans ?_)))))
  · refine List.forall_mem_map.trans (forall₂_congr fun a _ ↦ ?_)
    simp [assetsTable, idColumn, stampColumn, Asset.row, Column.Accepts, ColumnType.Fits,
      get_assetType, a.type.value_mem, valueWidth]
  · refine (refers_iff (fun a ↦ some a.scanId) Scan.id rfl rfl (fun _ ↦ rfl) fun _ ↦ rfl).trans ?_
    simp
  · refine (refers_iff (fun a ↦ some a.domainId) Domain.id rfl rfl (fun _ ↦ rfl)
      fun _ ↦ rfl).trans ?_
    simp

end Tables

/-! ### The tables of the model -/

/-- The texts of the rows fit into their columns. -/
structure Rows.Fit (rows : Rows) : Prop where
  users : ∀ user ∈ rows.users, user.email.length ≤ 320 ∧ user.passwordHash.length ≤ 255 ∧
    user.fullName.length ≤ 255
  domains : ∀ d ∈ rows.domains, d.name.length ≤ nameWidth
  assets : ∀ a ∈ rows.assets, a.value.length ≤ valueWidth

/-- The users that the rows name are stored. -/
structure Rows.Attributed (rows : Rows) : Prop where
  domains : ∀ d ∈ rows.domains, ∃ user ∈ rows.users, user.id = d.createdBy
  scans : ∀ x ∈ rows.scans, ∀ y ∈ x.triggeredBy, ∃ user ∈ rows.users, user.id = y

/-- A column is unique if and only if no two rows of a table agree in it. -/
theorem nodup_map_iff {Row Key Value : Type} {key : Row → Key} {f : Row → Value} {l : List Row}
    (hkey : (l.map key).Nodup) :
    (l.map f).Nodup ↔ ∀ r ∈ l, ∀ r' ∈ l, f r = f r' → r = r' :=
  ⟨fun h _ hr _ hr' hsame ↦ List.inj_on_of_nodup_map h hr hr' hsame,
    fun h ↦ (hkey.of_map _).map_on h⟩

/-- The rows of a table of users. -/
theorem exists_users_iff {l : List User} : (∃ users : Users, users.table.rows = l) ↔
    (l.map User.id).Nodup ∧ (l.map User.email).Nodup := by
  constructor
  · rintro ⟨users, rfl⟩
    exact ⟨users.table.nodup, (nodup_map_iff users.table.nodup).2 users.email_unique⟩
  · rintro ⟨hid, hemail⟩
    exact ⟨⟨⟨l, hid⟩, (nodup_map_iff hid).1 hemail⟩, rfl⟩

/-- A key finds a row exactly if a row has it. -/
theorem isSome_get_iff {Row : Type} {key : Row → Id} {t : Table key} {x : Id} :
    (t.get x).isSome ↔ ∃ r ∈ t.rows, key r = x := by
  rw [Option.isSome_iff_exists]
  exact exists_congr fun r ↦ Table.get_eq_some_iff

/-- The rows of a database. -/
theorem exists_database_iff {domains : List Domain} {scans : List Scan} {assets : List Asset} :
    (∃ db : Database, db.domains.rows = domains ∧ db.scans.rows = scans ∧
      db.assets.rows = assets) ↔
    ((domains.map Domain.id).Nodup ∧ (domains.map Domain.name).Nodup) ∧
    ((scans.map Scan.id).Nodup ∧ ∀ x ∈ scans, ∃ d ∈ domains, d.id = x.domainId) ∧
    (assets.map Asset.id).Nodup ∧ (∀ a ∈ assets, ∃ x ∈ scans, x.id = a.scanId) ∧
      ∀ a ∈ assets, ∃ d ∈ domains, d.id = a.domainId := by
  constructor
  · rintro ⟨db, rfl, rfl, rfl⟩
    exact ⟨⟨db.domains.nodup, (nodup_map_iff db.domains.nodup).2 db.name_unique⟩,
      ⟨db.scans.nodup, fun x hx ↦ isSome_get_iff.1 (db.scan_domain x hx)⟩, db.assets.nodup,
      fun a ha ↦ isSome_get_iff.1 (db.asset_scan a ha),
      fun a ha ↦ isSome_get_iff.1 (db.asset_domain a ha)⟩
  · rintro ⟨⟨hdomains, hnames⟩, ⟨hscans, hscan⟩, hassets, hasset, hasset'⟩
    exact ⟨{ domains := ⟨domains, hdomains⟩
             scans := ⟨scans, hscans⟩
             assets := ⟨assets, hassets⟩
             name_unique := (nodup_map_iff hdomains).1 hnames
             scan_domain := fun x hx ↦ isSome_get_iff.2 (hscan x hx)
             asset_scan := fun a ha ↦ isSome_get_iff.2 (hasset a ha)
             asset_domain := fun a ha ↦ isSome_get_iff.2 (hasset' a ha) }, rfl, rfl, rfl⟩

/-- The unique indexes of the head. -/
theorem unique_head_iff (contents : Contents) :
    (∀ i ∈ head.indexes, i.unique = true → i.Unique contents) ↔
      (Index.mk "ix_users_email" "users" ["email"] true).Unique contents ∧
      (Index.mk "ix_domains_name" "domains" ["name"] true).Unique contents := by
  have hrows : (∀ i ∈ head.indexes, i.unique = true → i.Unique contents) ↔
      ∀ i ∈ head.indexes.rows.filter Index.unique, i.Unique contents := by
    simp only [List.mem_filter, and_imp, Table.mem_rows]
  rw [hrows, head_unique]
  simp

/-- The constraints of the head, one after the other. -/
theorem holds_head_iff (rows : Rows) : head.Holds rows.contents ↔
    (head.HoldsOf rows.contents usersTable ∧ head.HoldsOf rows.contents domainsTable ∧
      head.HoldsOf rows.contents scansTable ∧ head.HoldsOf rows.contents assetsTable) ∧
    (rows.users.map User.email).Nodup ∧ (rows.domains.map Domain.name).Nodup := by
  have htables : (∀ t ∈ head.tables, head.HoldsOf rows.contents t) ↔
      head.HoldsOf rows.contents usersTable ∧ head.HoldsOf rows.contents domainsTable ∧
      head.HoldsOf rows.contents scansTable ∧ head.HoldsOf rows.contents assetsTable := by
    simp only [← Table.mem_rows, head_tables, List.forall_mem_cons, List.not_mem_nil, false_imp_iff,
      implies_true, and_true]
  have hunique := unique_head_iff rows.contents
  rw [unique_iff (l := rows.users) User.email rfl fun _ ↦ rfl,
    unique_iff (l := rows.domains) Domain.name rfl fun _ ↦ rfl] at hunique
  rw [← htables, ← hunique]
  exact ⟨fun h ↦ ⟨h.tables, h.unique⟩, fun h ↦ ⟨h.1, h.2⟩⟩

/-- Rows of the model that name stored users and fit satisfy the head. -/
theorem holds_of_model {rows : Rows} (users : Users) (db : Database)
    (husers : users.table.rows = rows.users) (hdomains : db.domains.rows = rows.domains)
    (hscans : db.scans.rows = rows.scans) (hassets : db.assets.rows = rows.assets)
    (hattributed : rows.Attributed) (hfit : rows.Fit) : head.Holds rows.contents := by
  obtain ⟨huser, hemails⟩ := exists_users_iff.1 ⟨users, husers⟩
  obtain ⟨⟨hdomain, hnames⟩, ⟨hscan, hscanDomain⟩, hasset⟩ :=
    exists_database_iff.1 ⟨db, hdomains, hscans, hassets⟩
  rw [holds_head_iff, holdsOf_users, holdsOf_domains, holdsOf_scans, holdsOf_assets]
  exact ⟨⟨⟨hfit.users, huser⟩, ⟨hfit.domains, hdomain, hattributed.domains⟩,
    ⟨hscan, hscanDomain, hattributed.scans⟩, hfit.assets, hasset⟩, hemails, hnames⟩

/-- **The constraints of the model are those of the head.** Rows satisfy every constraint of the
schema that the migrations create if and only if they are the rows of a table of users and of a
database of the model, name stored users, and fit into their columns. -/
theorem holds_iff (rows : Rows) : head.Holds rows.contents ↔
    (∃ users : Users, users.table.rows = rows.users) ∧
    (∃ db : Database, db.domains.rows = rows.domains ∧ db.scans.rows = rows.scans ∧
      db.assets.rows = rows.assets) ∧ rows.Attributed ∧ rows.Fit := by
  constructor
  · intro h
    rw [holds_head_iff, holdsOf_users, holdsOf_domains, holdsOf_scans, holdsOf_assets] at h
    obtain ⟨⟨⟨hfit, huser⟩, ⟨hnames, hdomain, hcreator⟩, ⟨hscan, hscanDomain, htrigger⟩, hvalues,
      hasset⟩, hemails, hname⟩ := h
    exact ⟨exists_users_iff.2 ⟨huser, hemails⟩,
      exists_database_iff.2 ⟨⟨hdomain, hname⟩, ⟨hscan, hscanDomain⟩, hasset⟩,
      ⟨hcreator, htrigger⟩, ⟨hfit, hnames, hvalues⟩⟩
  · rintro ⟨⟨users, husers⟩, ⟨db, hdomains, hscans, hassets⟩, hattributed, hfit⟩
    exact holds_of_model users db husers hdomains hscans hassets hattributed hfit

/-! ### Along a run -/

/-- The texts of the domains and the assets fit into their columns. -/
structure Database.Fits (db : Database) : Prop where
  domains : ∀ d ∈ db.domains, d.name.length ≤ nameWidth
  assets : ∀ a ∈ db.assets, a.value.length ≤ valueWidth

namespace Database

variable {db db' : Database} {now : Time} {ws : List Write}

/-- A statement keeps the texts within their columns. -/
theorem Fits.wrote {w : Write} (h : db.Fits) (hwrote : db.Wrote now w db') : db'.Fits := by
  cases hwrote with
  | insertDomain hwidth hid =>
    refine ⟨fun d hd ↦ ?_, h.assets⟩
    rcases (Table.mem_insert (h := hid)).1 hd with hd | rfl
    · exact h.domains d hd
    · exact hwidth
  | insertScan | updateScan => exact ⟨h.domains, h.assets⟩
  | insertAsset hwidth hid =>
    refine ⟨h.domains, fun a ha ↦ ?_⟩
    rcases (Table.mem_insert (h := hid)).1 ha with ha | rfl
    · exact h.assets a ha
    · exact hwidth
  -- a status write leaves the name as it is
  | updateDomain =>
    refine ⟨fun d hd ↦ ?_, h.assets⟩
    have hget := Table.get_key hd
    rw [Database.domains_get_updateDomain] at hget
    split at hget
    · obtain ⟨row, hrow, rfl⟩ := Option.map_eq_some_iff.1 hget
      exact h.domains row (Table.mem_of_get hrow)
    · exact h.domains d (Table.mem_of_get hget)
  | deleteDomain =>
    exact ⟨fun d hd ↦ h.domains d (Table.mem_filter.1 hd).1,
      fun a ha ↦ h.assets a (Table.mem_filter.1 ha).1⟩

/-- So does a transaction. -/
theorem Fits.writeAll (h : db.Fits) (hws : db.writeAll now ws = .ok db') : db'.Fits := by
  induction ws generalizing db with
  | nil => rwa [writeAll_nil hws]
  | cons w ws ih =>
    obtain ⟨db₁, h₁, h₂⟩ := writeAll_cons hws
    exact ih (h.wrote (wrote_of_write h₁)) h₂

end Database

namespace ApiWorld

variable {cfg : Settings} {auth : AuthSettings} {u : UnicodeTables} {c : Crypto} {w w' : ApiWorld}

/-- A step changes the tables of the service by one transaction at most. -/
theorem db_of_act {a : ApiAction} (ha : w.act cfg auth u c a = some w') :
    w'.shared.store.db = w.shared.store.db ∨
      ∃ ws now, w.shared.store.db.writeAll now ws = .ok w'.shared.store.db := by
  cases a with
  | start r | edit users =>
    obtain rfl := Option.some.inj ha
    exact Or.inl rfl
  | take n | duplicate n =>
    simp only [ApiWorld.act] at ha
    split at ha
    · obtain rfl := Option.some.inj ha
      exact Or.inl rfl
    · exact absurd ha (by simp)
  | perform i e =>
    obtain ⟨o, next, st, r, s, -, hserve, rfl⟩ := Pool.step_eq_some ha
    cases changes_of_serveApi hserve with
    | nothing _ _ hdb | commitUser _ hdb | encode _ _ hdb => exact Or.inl hdb
    | @service _ _ ws now _ _ _ hdb => exact Or.inr ⟨ws, now, hdb⟩

/-- The rows that are stored, with the columns that the model leaves out. -/
def rows (w : ApiWorld) (userStamps : Id → Time × Time) (domainUpdatedAt : Id → Time) : Rows where
  users := w.shared.users.table.rows
  domains := w.shared.store.db.domains.rows
  scans := w.shared.store.db.scans.rows
  assets := w.shared.store.db.assets.rows
  userStamps := userStamps
  domainUpdatedAt := domainUpdatedAt

/-- **Every state satisfies the schema.** From a deployment whose rows fit into their columns and
name stored users, in every state of every interleaved run in which no user is removed by hand, the
rows satisfy every constraint of the schema that the migrations create, as long as the texts of the
users fit. -/
theorem rows_satisfy_schema (cfg : Settings) (auth : AuthSettings) (u : UnicodeTables) (c : Crypto)
    {s : Deployment} {w : ℕ → ApiWorld} {a : ℕ → ApiAction} {n : ℕ}
    (hrun : Trace (act cfg auth u c) (boot s) w a n)
    (hkeeps : ∀ k < n, (w k).KeepsUsers (a k))
    (hs : s.store.db.Attributed (boot s).IsUser) (hfits : s.store.db.Fits)
    (husers : ∀ k ≤ n, ∀ user ∈ (w k).shared.users.table, user.email.length ≤ 320 ∧
      user.passwordHash.length ≤ 255 ∧ user.fullName.length ≤ 255)
    (userStamps : Id → Time × Time) (domainUpdatedAt : Id → Time) :
    ∀ k ≤ n, head.Holds ((w k).rows userStamps domainUpdatedAt).contents := by
  have hstill : ∀ k ≤ n, (w k).shared.store.db.Fits := by
    refine hrun.invariant ?_ fun k _ ha h ↦ ?_
    · rw [hrun.start]
      exact hfits
    · rcases db_of_act ha with hsame | ⟨ws, now, hws⟩
      · rwa [hsame]
      · exact h.writeAll hws
  intro k hk
  have hattributed := (attributed_of_trace hrun hkeeps hs k hk).rows
  exact holds_of_model (w k).shared.users (w k).shared.store.db rfl rfl rfl rfl
    ⟨fun d hd ↦ (hattributed.domains d.id d (Table.get_key hd)).2,
      fun x hx ↦ hattributed.scans x.id x (Table.get_key hx)⟩
    ⟨husers k hk, (hstill k hk).domains, (hstill k hk).assets⟩

theorem rows_satisfy_schema_loginAndSpell : spelled.length = 1 ∧
    head.Holds ((states (act {} {} asciiTables .plain) loginAndSpell (boot .oneUser) 18).rows
      (fun _ ↦ (0, 0)) fun _ ↦ 0).contents := by
  have husers : ∀ k ≤ 18, ∀ user ∈ (states (act {} {} asciiTables .plain) loginAndSpell
      (boot .oneUser) k).shared.users.table.rows, user.email.length ≤ 320 ∧
        user.passwordHash.length ≤ 255 ∧ user.fullName.length ≤ 255 := by
    decide +kernel
  refine ⟨by decide +kernel, rows_satisfy_schema {} {} asciiTables .plain trace_loginAndSpell
    ?_ ⟨?_, ?_⟩ ⟨?_, ?_⟩ (fun k hk user huser ↦ husers k hk user huser) _ _ 18 (Nat.le_refl 18)⟩
  · intro k _
    simp only [loginAndSpell]
    split_ifs <;> trivial
  · exact fun d row h ↦ absurd (Table.mem_of_get h) (Table.not_mem_empty _)
  · exact fun x row h ↦ absurd (Table.mem_of_get h) (Table.not_mem_empty _)
  · exact fun _ h ↦ absurd h (Table.not_mem_empty _)
  · exact fun _ h ↦ absurd h (Table.not_mem_empty _)

end ApiWorld

end AssetDiscovery
