import AssetDiscovery.Library.Migration

/-!
# Migrations

`migrations/versions`: three revisions, each with the scripts that its `upgrade` and its `downgrade`
carry out, and the tables that `Base.metadata` has from the models. Starting the service upgrades to
the head, and the tests create the tables of the models instead.

Whatever upgrades and downgrades are made, the catalog is that of its revision, and the base is what
was there before (`schema_of_run`); the tables of the head are those of the models
(`head_agrees_with_models`).
-/

set_option autoImplicit false

namespace AssetDiscovery

open Sql

namespace Migrations

/-- `sa.Column("id", postgresql.UUID(as_uuid=False), primary_key=True, nullable=False)`. -/
def idColumn : Column := ⟨"id", .uuid, false, none⟩

/-- A timestamp with the server default `now()`. -/
def stampColumn (name : String) : Column := ⟨name, .timestamptz, false, some .now⟩

/-! ### 0001_create_users -/

/-- The roles of a user. -/
def userRoleEnum : EnumType := ⟨"user_role", ["ADMIN", "ANALYST", "VIEWER"]⟩

/-- The table of the users; the defaults are those of the server. -/
def usersTable : TableDef where
  name := "users"
  columns := [idColumn, ⟨"email", .varchar 320, false, none⟩,
    ⟨"password_hash", .varchar 255, false, none⟩, ⟨"full_name", .varchar 255, false, none⟩,
    ⟨"role", .enum "user_role", false, none⟩, ⟨"is_active", .boolean, false, some .true⟩,
    stampColumn "created_at", stampColumn "updated_at"]
  primaryKey := "id"

/-- The first revision: the users, who are found by their address. -/
def createUsers : Migration where
  up := [.enum userRoleEnum, .table usersTable,
    .index ⟨"ix_users_email", "users", ["email"], true⟩]
  down := [.index "ix_users_email", .table "users", .enum "user_role"]

/-! ### 0002_create_domains -/

/-- The states of a domain. -/
def domainStatusEnum : EnumType := ⟨"domain_status", ["PENDING", "RUNNING", "COMPLETED", "FAILED"]⟩

/-- The table of the domains. A user who has created one cannot be deleted. -/
def domainsTable : TableDef where
  name := "domains"
  columns := [idColumn, ⟨"name", .varchar 253, false, none⟩,
    ⟨"status", .enum "domain_status", false, none⟩, ⟨"created_by", .uuid, false, none⟩,
    stampColumn "created_at", stampColumn "updated_at"]
  primaryKey := "id"
  foreignKeys := [⟨"created_by", "users", "id", .restrict⟩]

/-- The second revision: the domains, which are found by their name and by their creator. -/
def createDomains : Migration where
  up := [.enum domainStatusEnum, .table domainsTable,
    .index ⟨"ix_domains_name", "domains", ["name"], true⟩,
    .index ⟨"ix_domains_created_by", "domains", ["created_by"], false⟩]
  down := [.index "ix_domains_created_by", .index "ix_domains_name", .table "domains",
    .enum "domain_status"]

/-! ### 0003_create_scans_assets -/

/-- The states of a scan. -/
def scanStatusEnum : EnumType := ⟨"scan_status", ["PENDING", "RUNNING", "COMPLETED", "FAILED"]⟩

/-- The types of records that are looked up. -/
def assetTypeEnum : EnumType := ⟨"asset_type", ["A", "AAAA", "NS", "MX"]⟩

/-- The table of the scans, which are deleted with their domain and outlive the user who triggered
them. -/
def scansTable : TableDef where
  name := "scans"
  columns := [idColumn, ⟨"domain_id", .uuid, false, none⟩,
    ⟨"status", .enum "scan_status", false, none⟩, ⟨"triggered_by", .uuid, true, none⟩,
    ⟨"started_at", .timestamptz, true, none⟩, ⟨"completed_at", .timestamptz, true, none⟩,
    ⟨"error_message", .text, true, none⟩, stampColumn "created_at"]
  primaryKey := "id"
  foreignKeys := [⟨"domain_id", "domains", "id", .cascade⟩,
    ⟨"triggered_by", "users", "id", .setNull⟩]

/-- The table of the assets, which are deleted with their scan and with their domain. -/
def assetsTable : TableDef where
  name := "assets"
  columns := [idColumn, ⟨"scan_id", .uuid, false, none⟩, ⟨"domain_id", .uuid, false, none⟩,
    ⟨"type", .enum "asset_type", false, none⟩, ⟨"value", .varchar 1000, false, none⟩,
    stampColumn "created_at"]
  primaryKey := "id"
  foreignKeys := [⟨"scan_id", "scans", "id", .cascade⟩, ⟨"domain_id", "domains", "id", .cascade⟩]

/-- The index that only the migrations create. -/
def typeIndex : Index := ⟨"ix_assets_domain_id_type", "assets", ["domain_id", "type"], false⟩

/-- The third revision: the scans and the assets. -/
def createScansAssets : Migration where
  up := [.enum scanStatusEnum, .enum assetTypeEnum, .table scansTable,
    .index ⟨"ix_scans_domain_id", "scans", ["domain_id"], false⟩, .table assetsTable,
    .index ⟨"ix_assets_scan_id", "assets", ["scan_id"], false⟩,
    .index ⟨"ix_assets_domain_id", "assets", ["domain_id"], false⟩, .index typeIndex]
  down := [.index "ix_assets_domain_id_type", .index "ix_assets_domain_id",
    .index "ix_assets_scan_id", .table "assets", .index "ix_scans_domain_id", .table "scans",
    .enum "asset_type", .enum "scan_status"]

/-- The revisions in the order of `down_revision`. -/
def versions : Chain where
  migrations := [createUsers, createDomains, createScansAssets]
  reverses := by decide
  nodup := by decide
  runs := by decide +kernel

/-! ### The tables of the models -/

/-- `mapped_column`: `foreignKey` is the referenced table and column with its `ondelete`. -/
structure MappedColumn where
  name : String
  type : ColumnType
  primaryKey : Bool := false
  nullable : Bool := false
  unique : Bool := false
  index : Bool := false
  serverDefault : Option ServerDefault := none
  foreignKey : Option (String × String × OnDelete) := none

/-- A model, with the `Enum` types of its columns. -/
structure Model where
  tablename : String
  columns : List MappedColumn
  enums : List EnumType

namespace Model

variable (m : Model)

/-- The table of a model, column by column. -/
def table : TableDef where
  name := m.tablename
  columns := m.columns.map fun c ↦ ⟨c.name, c.type, c.nullable, c.serverDefault⟩
  primaryKey := ((m.columns.find? MappedColumn.primaryKey).map MappedColumn.name).getD ""
  foreignKeys := m.columns.filterMap fun c ↦
    c.foreignKey.map fun fk ↦ ⟨c.name, fk.1, fk.2.1, fk.2.2⟩

/-- `index=True` makes an index of the column, a unique one with `unique=True`. -/
def indexes : List Index :=
  (m.columns.filter MappedColumn.index).map fun c ↦
    ⟨"ix_" ++ m.tablename ++ "_" ++ c.name, m.tablename, [c.name], c.unique⟩

/-- What `create_all` emits for a model whose table does not exist. -/
def create : List Create :=
  m.enums.map .enum ++ [.table m.table] ++ m.indexes.map .index

end Model

/-- `models/user.py`. -/
def User : Model where
  tablename := "users"
  columns := [
    { name := "id", type := .uuid, primaryKey := true },
    { name := "email", type := .varchar 320, unique := true, index := true },
    { name := "password_hash", type := .varchar 255 },
    { name := "full_name", type := .varchar 255 },
    { name := "role", type := .enum "user_role" },
    { name := "is_active", type := .boolean, serverDefault := some .true },
    { name := "created_at", type := .timestamptz, serverDefault := some .now },
    { name := "updated_at", type := .timestamptz, serverDefault := some .now }]
  enums := [⟨"user_role", ["ADMIN", "ANALYST", "VIEWER"]⟩]

/-- `models/domain.py`. -/
def Domain : Model where
  tablename := "domains"
  columns := [
    { name := "id", type := .uuid, primaryKey := true },
    { name := "name", type := .varchar 253, unique := true, index := true },
    { name := "status", type := .enum "domain_status" },
    { name := "created_by", type := .uuid, index := true,
      foreignKey := some ("users", "id", .restrict) },
    { name := "created_at", type := .timestamptz, serverDefault := some .now },
    { name := "updated_at", type := .timestamptz, serverDefault := some .now }]
  enums := [⟨"domain_status", ["PENDING", "RUNNING", "COMPLETED", "FAILED"]⟩]

/-- `models/scan.py`. -/
def Scan : Model where
  tablename := "scans"
  columns := [
    { name := "id", type := .uuid, primaryKey := true },
    { name := "domain_id", type := .uuid, index := true,
      foreignKey := some ("domains", "id", .cascade) },
    { name := "status", type := .enum "scan_status" },
    { name := "triggered_by", type := .uuid, nullable := true,
      foreignKey := some ("users", "id", .setNull) },
    { name := "started_at", type := .timestamptz, nullable := true },
    { name := "completed_at", type := .timestamptz, nullable := true },
    { name := "error_message", type := .text, nullable := true },
    { name := "created_at", type := .timestamptz, serverDefault := some .now }]
  enums := [⟨"scan_status", ["PENDING", "RUNNING", "COMPLETED", "FAILED"]⟩]

/-- `models/asset.py`. -/
def Asset : Model where
  tablename := "assets"
  columns := [
    { name := "id", type := .uuid, primaryKey := true },
    { name := "scan_id", type := .uuid, index := true,
      foreignKey := some ("scans", "id", .cascade) },
    { name := "domain_id", type := .uuid, index := true,
      foreignKey := some ("domains", "id", .cascade) },
    { name := "type", type := .enum "asset_type" },
    { name := "value", type := .varchar 1000 },
    { name := "created_at", type := .timestamptz, serverDefault := some .now }]
  enums := [⟨"asset_type", ["A", "AAAA", "NS", "MX"]⟩]

/-- `Base.metadata`, each table after those that it refers to. -/
def metadata : List Model :=
  [User, Domain, Scan, Asset]

/-! ### Any sequence of commands -/

variable {s₀ s : Catalog}

/-- **Upgrades and downgrades never lead astray.** On a database in which the names are free,
whatever commands are given, in whatever order: the catalog is that of its revision, which is what
the migrations make of an empty database, beside what was there before. Upgrading to the head leads
to the catalog of the head, and downgrading to the base to the catalog before the first command. -/
theorem schema_of_run (h : versions.Untaken s₀) (commands : List Command) :
    ∃ k ≤ 3, ∃ s head alone, versions.run commands ⟨0, s₀⟩ = ⟨k, s⟩ ∧
      versions.stage s₀ k = some s ∧ versions.stage .empty k = some alone ∧
      Catalog.Beside s₀ alone s ∧ versions.stage s₀ 3 = some head ∧
      versions.command (.upgrade 3) ⟨k, s⟩ = some ⟨3, head⟩ ∧
      versions.command (.downgrade 0) ⟨k, s⟩ = some ⟨0, s₀⟩ := by
  have hat := Chain.run_commands h commands
  have hempty : versions.Untaken .empty := by decide +kernel
  obtain ⟨alone, halone⟩ := Chain.exists_stage hempty (versions.run commands ⟨0, s₀⟩).revision
  have hfree : ∀ c ∈ ups (versions.migrations.take (versions.run commands ⟨0, s₀⟩).revision),
      s₀.CreatesFree c := by
    intro c hc
    obtain ⟨m, hm, hcm⟩ := List.mem_flatMap.1 hc
    exact h c (List.mem_flatMap.2 ⟨m, List.mem_of_mem_take hm, hcm⟩)
  obtain ⟨s, hs, hbeside⟩ := Catalog.createAll_beside halone s₀ hfree
  obtain rfl := Option.some.inj (hs.symm.trans hat.2)
  obtain ⟨head, hhead, hupgrade⟩ := hat.upgrade h (Nat.le_refl 3)
  obtain ⟨base, hbase, hdowngrade⟩ := hat.downgrade h (Nat.zero_le _)
  obtain rfl : s₀ = base := Option.some.inj hbase
  have hle : (versions.run commands ⟨0, s₀⟩).revision ≤ 3 := hat.1
  rw [Nat.max_eq_right hle] at hhead hupgrade
  exact ⟨_, hle, _, head, alone, rfl, hat.2, halone, hbeside, hhead, hupgrade, hdowngrade⟩

/-- A database with a table of something else. -/
def otherTables : Catalog :=
  Catalog.empty.addTable ⟨"plans", [idColumn], "id", []⟩ (by decide)

/-- Up to the head, down to the first revision, to a revision that does not exist, and up again. -/
theorem schema_of_run_upAndDown : ∃ k ≤ 3, ∃ s, versions.run
      [.upgrade 3, .downgrade 1, .upgrade 7, .upgrade 2] ⟨0, otherTables⟩ = ⟨k, s⟩ ∧
    versions.command (.downgrade 0) ⟨k, s⟩ = some ⟨0, otherTables⟩ := by
  have hfree : versions.Untaken otherTables := by decide +kernel
  obtain ⟨k, hk, s, -, -, hrun, -, -, -, -, -, hdown⟩ :=
    schema_of_run hfree [.upgrade 3, .downgrade 1, .upgrade 7, .upgrade 2]
  exact ⟨k, hk, s, hrun, hdown⟩

/-- **Downgrading to the base restores what was there before if and only if none of the four types
was**: one that was there is used by the upgrade as it is, and dropped by the downgrade. -/
theorem downgrade_restores_iff (h : versions.command (.upgrade 3) ⟨0, s₀⟩ = some ⟨3, s⟩) :
    versions.command (.downgrade 0) ⟨3, s⟩ = some ⟨0, s₀⟩ ↔
      ∀ e ∈ ["user_role", "domain_status", "scan_status", "asset_type"], s₀.enums.get e = none := by
  have hup : Catalog.createAll (ups versions.migrations) s₀ = some s := by
    obtain ⟨s', hs', heq⟩ := Option.map_eq_some_iff.1 h
    obtain rfl : s' = s := congrArg Versioned.catalog heq
    exact hs'
  refine Iff.trans ⟨fun hdown ↦ ?_, fun hdown ↦ ?_⟩ (versions.downgrade_upgrade_iff hup)
  · obtain ⟨s', hs', heq⟩ := Option.map_eq_some_iff.1 hdown
    obtain rfl : s' = s₀ := congrArg Versioned.catalog heq
    exact hs'
  · exact Option.map_eq_some_iff.2 ⟨s₀, hdown, rfl⟩

/-- A database in which there is a type `user_role` already, with other labels. -/
def otherRoles : Catalog :=
  otherTables.addEnum ⟨"user_role", ["owner", "guest"]⟩ (by decide)

/-- The upgrade succeeds, and the downgrade drops the type. -/
theorem downgrade_restores_otherRoles : ∃ s,
    versions.command (.upgrade 3) ⟨0, otherRoles⟩ = some ⟨3, s⟩ ∧
      ¬ versions.command (.downgrade 0) ⟨3, s⟩ = some ⟨0, otherRoles⟩ := by
  have hup : (versions.command (.upgrade 3) ⟨0, otherRoles⟩).isSome := by decide +kernel
  obtain ⟨⟨k, s⟩, hs⟩ := Option.isSome_iff_exists.1 hup
  obtain rfl : k = 3 := versions.revision_of_upgrade hs
  refine ⟨s, hs, fun hdown ↦ ?_⟩
  have hnone := (downgrade_restores_iff hs).1 hdown "user_role" List.mem_cons_self
  exact absurd hnone (by decide)

/-! ### The head and the models -/

/-- The types, tables and indexes of two catalogs are the same, except for one index. -/
def AgreeExcept (name : String) (s s' : Catalog) : Prop :=
  (∀ n, s.enums.get n = s'.enums.get n) ∧ (∀ n, s.tables.get n = s'.tables.get n) ∧
    ∀ n, n ≠ name → s.indexes.get n = s'.indexes.get n

/-- On an empty database, by the rows of the two catalogs. -/
theorem agreeExcept_empty : ∃ head created,
    Catalog.createAll (ups versions.migrations) .empty = some head ∧
    Catalog.createAll (metadata.flatMap Model.create) .empty = some created ∧
    AgreeExcept typeIndex.name head created ∧ head.indexes.get typeIndex.name = some typeIndex ∧
    created.indexes.get typeIndex.name = none := by
  have hrows : (Catalog.createAll (ups versions.migrations) .empty).any fun head ↦
      (Catalog.createAll (metadata.flatMap Model.create) .empty).any fun created ↦
        head.enums.rows.Perm created.enums.rows ∧ head.tables.rows.Perm created.tables.rows ∧
          head.indexes.rows.Perm (typeIndex :: created.indexes.rows) ∧
            created.indexes.get typeIndex.name = none := by
    decide +kernel
  obtain ⟨head, hhead, hrows⟩ := (Option.any_eq_true _ _).1 hrows
  obtain ⟨created, hcreated, hrows⟩ := (Option.any_eq_true _ _).1 hrows
  simp only [decide_eq_true_eq] at hrows
  obtain ⟨henums, htables, hindexes, hnone⟩ := hrows
  refine ⟨head, created, hhead, hcreated, ⟨fun n ↦ Table.get_eq_of_mem_iff fun r _ ↦ henums.mem_iff,
    fun n ↦ Table.get_eq_of_mem_iff fun r _ ↦ htables.mem_iff, fun n hn ↦ ?_⟩, ?_, ?_⟩
  · refine Table.get_eq_of_mem_iff fun r hr ↦ hindexes.mem_iff.trans ?_
    refine List.mem_cons.trans (or_iff_right ?_)
    rintro rfl
    exact hn hr.symm
  · exact Table.get_key (hindexes.mem_iff.2 List.mem_cons_self)
  · exact hnone

/-- **The tables of the head are those of the models.** On any database in which the names are free,
the migrations and `create_all` both succeed, and lead to the same types, tables and indexes, except
for the index of the assets by domain and type, which only the migrations create. -/
theorem head_agrees_with_models (h : versions.Untaken s₀) : ∃ head created,
    versions.command (.upgrade 3) ⟨0, s₀⟩ = some ⟨3, head⟩ ∧
      Catalog.createAll (metadata.flatMap Model.create) s₀ = some created ∧
      AgreeExcept typeIndex.name head created ∧ head.indexes.get typeIndex.name = some typeIndex ∧
      created.indexes.get typeIndex.name = none := by
  obtain ⟨head₀, created₀, hhead₀, hcreated₀, ⟨henums, htables, hindexes⟩, hsome, hnone⟩ :=
    agreeExcept_empty
  -- the models take no name that the migrations do not take
  have hnames : ∀ c ∈ metadata.flatMap Model.create, ∃ c' ∈ ups versions.migrations,
      c.inverse = c'.inverse := by
    decide +kernel
  have hfree : ∀ c ∈ metadata.flatMap Model.create, s₀.CreatesFree c := by
    intro c hc
    obtain ⟨c', hc', hsame⟩ := hnames c hc
    rw [Catalog.CreatesFree, hsame]
    exact h c' hc'
  obtain ⟨head, hhead, hbeside⟩ := Catalog.createAll_beside hhead₀ s₀ h
  obtain ⟨created, hcreated, hbeside'⟩ := Catalog.createAll_beside hcreated₀ s₀ hfree
  have hindex : s₀.indexes.get typeIndex.name = none :=
    (h (.index typeIndex) (by decide)).2
  refine ⟨head, created, ?_, hcreated, ⟨fun n ↦ ?_, fun n ↦ ?_, fun n hn ↦ ?_⟩, ?_, ?_⟩
  · exact Option.map_eq_some_iff.2 ⟨head, hhead, rfl⟩
  · rw [hbeside.enums, hbeside'.enums, henums]
  · rw [hbeside.tables, hbeside'.tables, htables]
  · rw [hbeside.indexes, hbeside'.indexes, hindexes n hn]
  · rw [hbeside.indexes, hindex, hsome, Option.none_or]
  · rw [hbeside'.indexes, hindex, hnone, Option.none_or]

theorem head_agrees_with_models_otherTables : ∃ head,
    versions.command (.upgrade 3) ⟨0, otherTables⟩ = some ⟨3, head⟩ ∧
      head.indexes.get "ix_assets_domain_id_type" = some typeIndex := by
  have hfree : versions.Untaken otherTables := by decide +kernel
  obtain ⟨head, -, hhead, -, -, hindex, -⟩ := head_agrees_with_models hfree
  exact ⟨head, hhead, hindex⟩

end Migrations

end AssetDiscovery
