import AssetDiscovery.Library.Catalog

/-!
# The constraints of a catalog

What a catalog says about rows: each column holds a value of its type, or `NULL` where that is
allowed; primary keys and unique indexes name at most one row; and foreign keys refer to rows that
are there (`Catalog.Holds`).
-/

set_option autoImplicit false

namespace Sql

/-- A value of a column. -/
inductive Value where
  | uuid (x : ℕ)
  | text (s : String)
  | boolean (b : Bool)
  | stamp (t : ℕ)
  /-- A label of an enumerated type. -/
  | label (l : String)
  deriving DecidableEq

/-- A row: the value of each column, where it is not `NULL`. -/
abbrev Row := String → Option Value

/-- The rows of each table. -/
abbrev Contents := String → List Row

/-- The values of a type. -/
def ColumnType.Fits (enums : Table EnumType.name) : ColumnType → Value → Prop
  | .uuid, .uuid _ => True
  | .text, .text _ => True
  | .varchar width, .text s => s.length ≤ width
  | .boolean, .boolean _ => True
  | .timestamptz, .stamp _ => True
  | .enum name, .label l => ∃ e ∈ enums.get name, l ∈ e.labels
  | _, _ => False

/-- What a column accepts. -/
def Column.Accepts (enums : Table EnumType.name) (c : Column) : Option Value → Prop
  | none => c.nullable = true
  | some v => c.type.Fits enums v

/-- The values of the column are found in the table that it refers to. -/
def ForeignKey.Refers (fk : ForeignKey) (contents : Contents) (table : String) : Prop :=
  ∀ r ∈ contents table, ∀ v ∈ r fk.column, ∃ r' ∈ contents fk.table, r' fk.refColumn = some v

/-- The rows satisfy the constraints of a table. -/
structure Catalog.HoldsOf (s : Catalog) (contents : Contents) (t : TableDef) : Prop where
  typed : ∀ r ∈ contents t.name, ∀ c ∈ t.columns, c.Accepts s.enums (r c.name)
  primaryKey : (contents t.name).Pairwise fun r r' ↦ r t.primaryKey ≠ r' t.primaryKey
  references : ∀ fk ∈ t.foreignKeys, fk.Refers contents t.name

/-- The constraints of a table, one kind after the other. -/
theorem Catalog.holdsOf_iff {s : Catalog} {contents : Contents} {t : TableDef} :
    s.HoldsOf contents t ↔
      (∀ r ∈ contents t.name, ∀ c ∈ t.columns, c.Accepts s.enums (r c.name)) ∧
      ((contents t.name).Pairwise fun r r' ↦ r t.primaryKey ≠ r' t.primaryKey) ∧
      ∀ fk ∈ t.foreignKeys, fk.Refers contents t.name :=
  ⟨fun h ↦ ⟨h.typed, h.primaryKey, h.references⟩, fun h ↦ ⟨h.1, h.2.1, h.2.2⟩⟩

/-- No two rows agree in all columns of the index, unless one of these is `NULL`. -/
def Index.Unique (i : Index) (contents : Contents) : Prop :=
  (contents i.table).Pairwise fun r r' ↦ ∃ c ∈ i.columns, r c = none ∨ r c ≠ r' c

/-- The rows satisfy the constraints of all tables. -/
structure Catalog.Holds (s : Catalog) (contents : Contents) : Prop where
  tables : ∀ t ∈ s.tables, s.HoldsOf contents t
  unique : ∀ i ∈ s.indexes, i.unique = true → i.Unique contents

end Sql
