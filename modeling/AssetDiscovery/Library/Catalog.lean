import AssetDiscovery.Library.Table

/-!
# Catalogs and the scripts that change them

A **catalog** is what a database stores about its own tables: the enumerated types, the tables and
the indexes, each under its name. The fields say that nothing is left dangling: tables and indexes
share one space of names, columns have types that exist, foreign keys refer to tables that exist,
and so do indexes. A statement either leads to a catalog in which that holds again or fails.

Two things are known of a script of `CREATE` statements. It is undone by dropping what it has
created in the opposite order (`dropAll_createAll`), provided that it has created its types itself:
`CREATE TYPE` looks first whether there is such a type, and then leaves it as it is. And it does
beside other tables what it does alone, as long as its names are free (`createAll_beside`).
-/

set_option autoImplicit false

namespace Sql

/-- The type of a column. -/
inductive ColumnType where
  | uuid
  | text
  | varchar (width : ℕ)
  | boolean
  | timestamptz
  | enum (name : String)
  deriving DecidableEq

/-- The default that the database fills in. -/
inductive ServerDefault where
  | now
  | true
  deriving DecidableEq

/-- A column of a table. -/
structure Column where
  name : String
  type : ColumnType
  nullable : Bool := false
  default : Option ServerDefault := none
  deriving DecidableEq

/-- What happens to a row when the row that it refers to is deleted. -/
inductive OnDelete where
  | restrict
  | cascade
  | setNull
  deriving DecidableEq

/-- A foreign key to the primary key of a table. -/
structure ForeignKey where
  column : String
  table : String
  refColumn : String
  onDelete : OnDelete
  deriving DecidableEq

/-- An enumerated type. -/
structure EnumType where
  name : String
  labels : List String
  deriving DecidableEq

/-- A table, with the references that its columns make to other tables. -/
structure TableDef where
  name : String
  columns : List Column
  primaryKey : String
  foreignKeys : List ForeignKey := []
  deriving DecidableEq

/-- An index of a table; a unique one admits no two rows that agree on its columns. -/
structure Index where
  name : String
  table : String
  columns : List String
  unique : Bool := false
  deriving DecidableEq

/-- The enumerated types of the columns. -/
def TableDef.enums (t : TableDef) : List String :=
  t.columns.filterMap fun c ↦
    match c.type with
    | .enum name => some name
    | _ => none

/-- The types, tables and indexes of a database. -/
structure Catalog where
  enums : Table EnumType.name
  tables : Table TableDef.name
  indexes : Table Index.name
  /-- Tables and indexes share one space of names. -/
  apart : ∀ i ∈ indexes, tables.get i.name = none
  column_type : ∀ t ∈ tables, ∀ e ∈ t.enums, (enums.get e).isSome
  references : ∀ t ∈ tables, ∀ fk ∈ t.foreignKeys, (tables.get fk.table).isSome
  indexed : ∀ i ∈ indexes, (tables.get i.table).isSome

namespace Catalog

variable (s : Catalog)

/-- A database without tables. -/
def empty : Catalog where
  enums := .empty
  tables := .empty
  indexes := .empty
  apart _ h := absurd h (Table.not_mem_empty _)
  column_type _ h := absurd h (Table.not_mem_empty _)
  references _ h := absurd h (Table.not_mem_empty _)
  indexed _ h := absurd h (Table.not_mem_empty _)

/-- A catalog is its three tables. -/
@[ext]
theorem ext {s s' : Catalog} (he : s.enums = s'.enums) (ht : s.tables = s'.tables)
    (hi : s.indexes = s'.indexes) : s = s' := by
  cases s; cases s'; cases he; cases ht; cases hi; rfl

/-- No table or index has the name. -/
def Free (name : String) : Prop :=
  s.tables.get name = none ∧ s.indexes.get name = none

instance (name : String) : Decidable (s.Free name) :=
  inferInstanceAs (Decidable (_ ∧ _))

/-! ### Statements that create -/

/-- A table can be created: its name is free, its types exist, and its foreign keys refer to primary
keys. -/
def Admits (t : TableDef) : Prop :=
  s.Free t.name ∧ (∀ e ∈ t.enums, (s.enums.get e).isSome) ∧
    ∀ fk ∈ t.foreignKeys, ∃ t' ∈ s.tables.get fk.table, t'.primaryKey = fk.refColumn

instance (t : TableDef) : Decidable (s.Admits t) :=
  inferInstanceAs (Decidable (_ ∧ _ ∧ _))

/-- An index can be created: its name is free, and its table has the columns. -/
def AdmitsIndex (i : Index) : Prop :=
  s.Free i.name ∧ ∃ t ∈ s.tables.get i.table, ∀ c ∈ i.columns, c ∈ t.columns.map Column.name

instance (i : Index) : Decidable (s.AdmitsIndex i) :=
  inferInstanceAs (Decidable (_ ∧ _))

/-- `CREATE TYPE ... AS ENUM`. -/
def addEnum (e : EnumType) (h : s.enums.get e.name = none) : Catalog where
  enums := s.enums.insert e h
  tables := s.tables
  indexes := s.indexes
  apart := s.apart
  column_type t ht n hn := by
    rw [Table.get_insert]
    split
    · rfl
    · exact s.column_type t ht n hn
  references := s.references
  indexed := s.indexed

/-- `CREATE TABLE`. -/
def addTable (t : TableDef) (h : s.Admits t) : Catalog where
  enums := s.enums
  tables := s.tables.insert t h.1.1
  indexes := s.indexes
  apart i hi := by
    rw [Table.get_insert, if_neg, s.apart i hi]
    intro hname
    exact Table.get_eq_none_iff.1 h.1.2 i hi hname.symm
  column_type t' ht' := by
    rcases Table.mem_insert.1 ht' with ht' | rfl
    · exact s.column_type t' ht'
    · exact h.2.1
  references t' ht' fk hfk := by
    rw [Table.get_insert]
    split
    · rfl
    · rcases Table.mem_insert.1 ht' with ht' | rfl
      · exact s.references t' ht' fk hfk
      · obtain ⟨t'', ht'', -⟩ := h.2.2 fk hfk
        exact Option.isSome_of_mem ht''
  indexed i hi := by
    rw [Table.get_insert]
    split
    · rfl
    · exact s.indexed i hi

/-- `CREATE INDEX`. -/
def addIndex (i : Index) (h : s.AdmitsIndex i) : Catalog where
  enums := s.enums
  tables := s.tables
  indexes := s.indexes.insert i h.1.2
  apart i' hi' := by
    rcases Table.mem_insert.1 hi' with hi' | rfl
    · exact s.apart i' hi'
    · exact h.1.1
  column_type := s.column_type
  references := s.references
  indexed i' hi' := by
    rcases Table.mem_insert.1 hi' with hi' | rfl
    · exact s.indexed i' hi'
    · obtain ⟨t, ht, -⟩ := h.2
      exact Option.isSome_of_mem ht

/-! ### Statements that drop -/

/-- A type can be dropped: no column has it. -/
def EnumUnused (name : String) : Prop :=
  ∀ t ∈ s.tables.rows, name ∉ t.enums

instance (name : String) : Decidable (s.EnumUnused name) :=
  inferInstanceAs (Decidable (∀ _ ∈ _, _))

/-- A table can be dropped: no other table refers to it. -/
def Unreferenced (name : String) : Prop :=
  ∀ t ∈ s.tables.rows, t.name ≠ name → ∀ fk ∈ t.foreignKeys, fk.table ≠ name

instance (name : String) : Decidable (s.Unreferenced name) :=
  inferInstanceAs (Decidable (∀ _ ∈ _, _))

/-- `DROP TYPE`. -/
def removeEnum (name : String) (h : s.EnumUnused name) : Catalog where
  enums := s.enums.filter fun e ↦ e.name ≠ name
  tables := s.tables
  indexes := s.indexes
  apart := s.apart
  column_type t ht n hn := by
    obtain ⟨e, he⟩ := Option.isSome_iff_exists.1 (s.column_type t ht n hn)
    rw [Table.get_filter, he, Option.filter_some_pos]
    · rfl
    · rw [Table.key_of_get he]
      exact decide_eq_true fun heq ↦ h t (Table.mem_rows.2 ht) (heq ▸ hn)
  references := s.references
  indexed := s.indexed

/-- The indexes of a table are dropped with it. -/
def removeTable (name : String) (h : s.Unreferenced name) : Catalog where
  enums := s.enums
  tables := s.tables.filter fun t ↦ t.name ≠ name
  indexes := s.indexes.filter fun i ↦ i.table ≠ name
  apart i hi := by
    rw [Table.get_filter, s.apart i (Table.mem_filter.1 hi).1]
    rfl
  column_type t ht := s.column_type t (Table.mem_filter.1 ht).1
  references t ht fk hfk := by
    obtain ⟨ht, hne⟩ := Table.mem_filter.1 ht
    obtain ⟨t', ht'⟩ := Option.isSome_iff_exists.1 (s.references t ht fk hfk)
    rw [Table.get_filter, ht', Option.filter_some_pos]
    · rfl
    · rw [Table.key_of_get ht']
      exact decide_eq_true (h t (Table.mem_rows.2 ht) (of_decide_eq_true hne) fk hfk)
  indexed i hi := by
    obtain ⟨hi, hne⟩ := Table.mem_filter.1 hi
    obtain ⟨t, ht⟩ := Option.isSome_iff_exists.1 (s.indexed i hi)
    rw [Table.get_filter, ht, Option.filter_some_pos]
    · rfl
    · rwa [Table.key_of_get ht]

/-- `DROP INDEX`. -/
def removeIndex (name : String) : Catalog where
  enums := s.enums
  tables := s.tables
  indexes := s.indexes.filter fun i ↦ i.name ≠ name
  apart i hi := s.apart i (Table.mem_filter.1 hi).1
  column_type := s.column_type
  references := s.references
  indexed i hi := s.indexed i (Table.mem_filter.1 hi).1

end Catalog

/-- A `CREATE` statement. -/
inductive Create where
  /-- `CREATE TYPE ... AS ENUM`, if there is no such type (`checkfirst`). -/
  | enum (e : EnumType)
  | table (t : TableDef)
  | index (i : Index)
  deriving DecidableEq

/-- A `DROP` statement. -/
inductive Drop where
  /-- `DROP TYPE`, if there is such a type (`checkfirst`). -/
  | enum (name : String)
  | table (name : String)
  | index (name : String)
  deriving DecidableEq

/-- The statement that drops what a statement creates. -/
def Create.inverse : Create → Drop
  | .enum e => .enum e.name
  | .table t => .table t.name
  | .index i => .index i.name

/-- The type that a statement creates. -/
def Create.enumName : Create → Option String
  | .enum e => some e.name
  | .table _ => none
  | .index _ => none

namespace Catalog

/-- Carry out a `CREATE` statement. -/
def create (s : Catalog) : Create → Option Catalog
  | .enum e => if h : s.enums.get e.name = none then some (s.addEnum e h) else some s
  | .table t => if h : s.Admits t then some (s.addTable t h) else none
  | .index i => if h : s.AdmitsIndex i then some (s.addIndex i h) else none

/-- Carry out a `DROP` statement. -/
def drop (s : Catalog) : Drop → Option Catalog
  | .enum name => if h : s.EnumUnused name then some (s.removeEnum name h) else none
  | .table name =>
    if h : (s.tables.get name).isSome ∧ s.Unreferenced name then some (s.removeTable name h.2)
    else none
  | .index name => if (s.indexes.get name).isSome then some (s.removeIndex name) else none

/-- Carry out a script of `CREATE` statements. -/
def createAll : List Create → Catalog → Option Catalog
  | [], s => some s
  | c :: cs, s => (s.create c).bind (createAll cs)

/-- Carry out a script of `DROP` statements. -/
def dropAll : List Drop → Catalog → Option Catalog
  | [], s => some s
  | d :: ds, s => (s.drop d).bind (dropAll ds)

variable {s s' s₀ s₁ : Catalog} {c : Create} {cs : List Create} {d : Drop} {ds : List Drop}
  {name : String}

/-- The first object is created before the others. -/
theorem createAll_cons (h : createAll (c :: cs) s = some s') :
    ∃ s₁, s.create c = some s₁ ∧ createAll cs s₁ = some s' :=
  Option.bind_eq_some_iff.1 h

/-- Creating two lists of objects, one after the other. -/
theorem createAll_append (cs cs' : List Create) (s : Catalog) :
    createAll (cs ++ cs') s = (createAll cs s).bind (createAll cs') := by
  induction cs generalizing s with
  | nil => rfl
  | cons c cs ih =>
    rw [List.cons_append, createAll, createAll, Option.bind_assoc]
    exact congrArg _ (funext ih)

/-- Dropping two lists of objects, one after the other. -/
theorem dropAll_append (ds ds' : List Drop) (s : Catalog) :
    dropAll (ds ++ ds') s = (dropAll ds s).bind (dropAll ds') := by
  induction ds generalizing s with
  | nil => rfl
  | cons d ds ih =>
    rw [List.cons_append, dropAll, dropAll, Option.bind_assoc]
    exact congrArg _ (funext ih)

/-! ### What a statement does -/

/-- The three ways in which a `CREATE` statement succeeds, and the one in which it does nothing. -/
inductive Created (s : Catalog) : Create → Catalog → Prop
  | enum {e} (h : s.enums.get e.name = none) : Created s (.enum e) (s.addEnum e h)
  | kept {e} (h : (s.enums.get e.name).isSome) : Created s (.enum e) s
  | table {t} (h : s.Admits t) : Created s (.table t) (s.addTable t h)
  | index {i} (h : s.AdmitsIndex i) : Created s (.index i) (s.addIndex i h)

/-- What a creation that succeeds has done. -/
theorem created_of_create (h : s.create c = some s') : s.Created c s' := by
  cases c with
  | enum e =>
    simp only [create] at h
    split at h
    · next hnone =>
      obtain rfl := Option.some.inj h
      exact .enum hnone
    · next hsome =>
      obtain rfl := Option.some.inj h
      exact .kept (Option.isSome_iff_ne_none.2 hsome)
  | table t =>
    simp only [create] at h
    split at h
    · next hadmits =>
      obtain rfl := Option.some.inj h
      exact .table hadmits
    · exact absurd h (by simp)
  | index i =>
    simp only [create] at h
    split at h
    · next hadmits =>
      obtain rfl := Option.some.inj h
      exact .index hadmits
    · exact absurd h (by simp)

/-- The ways in which a `DROP` statement succeeds. -/
inductive Dropped (s : Catalog) : Drop → Catalog → Prop
  | enum {n} (h : s.EnumUnused n) : Dropped s (.enum n) (s.removeEnum n h)
  | table {n} (hstored : (s.tables.get n).isSome) (h : s.Unreferenced n) :
    Dropped s (.table n) (s.removeTable n h)
  | index {n} (hstored : (s.indexes.get n).isSome) : Dropped s (.index n) (s.removeIndex n)

/-- What a removal that succeeds has done. -/
theorem dropped_of_drop (h : s.drop d = some s') : s.Dropped d s' := by
  cases d with
  | enum name =>
    simp only [drop] at h
    split at h
    · next hunused =>
      obtain rfl := Option.some.inj h
      exact .enum hunused
    · exact absurd h (by simp)
  | table name =>
    simp only [drop] at h
    split at h
    · next hboth =>
      obtain rfl := Option.some.inj h
      exact .table hboth.1 hboth.2
    · exact absurd h (by simp)
  | index name =>
    simp only [drop] at h
    split at h
    · next hstored =>
      obtain rfl := Option.some.inj h
      exact .index hstored
    · exact absurd h (by simp)

/-! ### Scripts undone -/

/-- A type that no catalog entry can refer to. -/
theorem enumUnused_of_get (h : s.enums.get name = none) : s.EnumUnused name := by
  intro t ht hn
  have hsome := s.column_type t (Table.mem_rows.1 ht) name hn
  rw [h] at hsome
  exact absurd hsome (by simp)

/-- No table refers to one that is not there. -/
theorem references_ne (h : s.tables.get name = none) {t : TableDef} (ht : t ∈ s.tables)
    {fk : ForeignKey} (hfk : fk ∈ t.foreignKeys) : fk.table ≠ name := by
  rintro rfl
  have hsome := s.references t ht fk hfk
  rw [h] at hsome
  exact absurd hsome (by simp)

/-- What a statement has created is dropped again by its inverse. -/
theorem drop_of_create (h : s.create c = some s') (hnew : ∀ n ∈ c.enumName, s.enums.get n = none) :
    s'.drop c.inverse = some s := by
  cases created_of_create h with
  | @enum e hnone =>
    have hunused : (s.addEnum e hnone).EnumUnused e.name := s.enumUnused_of_get hnone
    rw [Create.inverse, drop, dif_pos hunused]
    exact congrArg some (Catalog.ext (Table.filter_insert_self _ _ hnone) rfl rfl)
  | kept hsome =>
    rw [hnew _ rfl] at hsome
    exact absurd hsome (by simp)
  | @table t hadmits =>
    have hstored : ((s.addTable t hadmits).tables.get t.name).isSome :=
      Option.isSome_of_eq_some (Table.get_insert_self _ _ hadmits.1.1)
    have hfree : (s.addTable t hadmits).Unreferenced t.name := by
      intro t' ht' hne fk hfk
      rcases (Table.mem_insert (h := hadmits.1.1)).1 (Table.mem_rows.1 ht') with ht' | rfl
      · exact references_ne hadmits.1.1 ht' hfk
      · exact absurd rfl hne
    rw [Create.inverse, drop, dif_pos ⟨hstored, hfree⟩]
    refine congrArg some (Catalog.ext rfl (Table.filter_insert_self _ _ hadmits.1.1) ?_)
    refine Table.ext (List.filter_eq_self.2 fun i hi ↦ decide_eq_true ?_)
    rintro hname
    have hsome := s.indexed i (Table.mem_rows.1 hi)
    rw [hname, hadmits.1.1] at hsome
    exact absurd hsome (by simp)
  | @index i hadmits =>
    have hstored : ((s.addIndex i hadmits).indexes.get i.name).isSome :=
      Option.isSome_of_eq_some (Table.get_insert_self _ _ hadmits.1.2)
    rw [Create.inverse, drop, if_pos hstored]
    exact congrArg some (Catalog.ext rfl rfl (Table.filter_insert_self _ _ hadmits.1.2))

/-- The types of a script. -/
def enumNames (cs : List Create) : List String :=
  cs.filterMap Create.enumName

/-- A creation leaves the types of other names alone. -/
theorem enums_get_of_create (h : s.create c = some s') (hname : name ∉ c.enumName) :
    s'.enums.get name = s.enums.get name := by
  cases created_of_create h with
  | @enum e hnone =>
    show (s.enums.insert e hnone).get name = _
    rw [Table.get_insert, if_neg]
    rintro rfl
    exact hname rfl
  | kept | table | index => rfl

/-- **A script is undone by dropping what it has created in the opposite order**, if it has created
its types itself. -/
theorem dropAll_of_createAll (h : createAll cs s = some s') (hnodup : (enumNames cs).Nodup)
    (hnew : ∀ n ∈ enumNames cs, s.enums.get n = none) :
    dropAll (cs.map Create.inverse).reverse s' = some s := by
  induction cs generalizing s with
  | nil => rw [Option.some.inj h]; rfl
  | cons c cs ih =>
    obtain ⟨s₁, hfirst, hrest⟩ := createAll_cons h
    have hsplit : enumNames (c :: cs) = c.enumName.toList ++ enumNames cs := by
      cases c with
      | enum | table | index => rfl
    rw [hsplit] at hnodup hnew
    obtain ⟨-, hrestNodup, hdisjoint⟩ := List.nodup_append.1 hnodup
    have hthen : dropAll (cs.map Create.inverse).reverse s' = some s₁ := by
      refine ih hrest hrestNodup fun n hn ↦ ?_
      rw [enums_get_of_create hfirst]
      · exact hnew n (List.mem_append_right _ hn)
      · exact fun hmem ↦ hdisjoint n (Option.mem_toList.2 hmem) n hn rfl
    have hlast : s₁.drop c.inverse = some s := drop_of_create hfirst fun n hn ↦
      hnew n (List.mem_append_left _ (Option.mem_toList.2 hn))
    rw [List.map_cons, List.reverse_cons, dropAll_append, hthen]
    show (s₁.drop c.inverse).bind some = some s
    rw [hlast]
    rfl

/-- A removal brings no type back. -/
theorem enums_none_of_drop (h : s.drop d = some s') (hnone : s.enums.get name = none) :
    s'.enums.get name = none := by
  cases dropped_of_drop h with
  | enum =>
    show (s.enums.filter _).get name = none
    rw [Table.get_filter, hnone, Option.filter_none]
  | table | index => exact hnone

/-- Nor do several. -/
theorem enums_none_of_dropAll (h : dropAll ds s = some s') (hnone : s.enums.get name = none) :
    s'.enums.get name = none := by
  induction ds generalizing s with
  | nil => rwa [← Option.some.inj h]
  | cons d ds ih =>
    obtain ⟨s₁, hfirst, hrest⟩ := Option.bind_eq_some_iff.1 h
    exact ih hrest (enums_none_of_drop hfirst hnone)

/-- A type that a script drops is gone after it. -/
theorem enums_none_of_mem (h : dropAll ds s = some s') (hmem : .enum name ∈ ds) :
    s'.enums.get name = none := by
  induction ds generalizing s with
  | nil => exact absurd hmem List.not_mem_nil
  | cons d ds ih =>
    obtain ⟨s₁, hfirst, hrest⟩ := Option.bind_eq_some_iff.1 h
    rcases List.mem_cons.1 hmem with rfl | hmem
    · refine enums_none_of_dropAll hrest ?_
      cases dropped_of_drop hfirst with
      | enum hunused =>
        show (s.enums.filter fun e ↦ e.name ≠ name).get name = none
        rw [Table.get_filter, Option.filter_eq_none_iff]
        exact fun e he ↦ by simp [Table.key_of_get he]
    · exact ih hrest hmem

/-! ### Scripts beside other tables -/

/-- There is nothing under the name that a statement would drop. -/
def NameFree (s₀ : Catalog) : Drop → Prop
  | .enum name => s₀.enums.get name = none
  | .table name => s₀.Free name
  | .index name => s₀.Free name

instance (s₀ : Catalog) : DecidablePred s₀.NameFree
  | .enum name => inferInstanceAs (Decidable (s₀.enums.get name = none))
  | .table name => inferInstanceAs (Decidable (s₀.Free name))
  | .index name => inferInstanceAs (Decidable (s₀.Free name))

/-- The name of what the statement creates is free. -/
abbrev CreatesFree (s₀ : Catalog) (c : Create) : Prop :=
  s₀.NameFree c.inverse

/-- `s₁` is `s` beside the types, tables and indexes of `s₀`, with other names. -/
structure Beside (s₀ s s₁ : Catalog) : Prop where
  enums : ∀ n, s₁.enums.get n = (s₀.enums.get n).or (s.enums.get n)
  tables : ∀ n, s₁.tables.get n = (s₀.tables.get n).or (s.tables.get n)
  indexes : ∀ n, s₁.indexes.get n = (s₀.indexes.get n).or (s.indexes.get n)
  enumFree : ∀ n, (s.enums.get n).isSome → s₀.enums.get n = none
  free : ∀ n, ¬ s.Free n → s₀.Free n

/-- Beside an empty catalog there is just the other. -/
theorem beside_empty (s₀ : Catalog) : Beside s₀ empty s₀ where
  enums n := by rw [show empty.enums.get n = none from rfl, Option.or_none]
  tables n := by rw [show empty.tables.get n = none from rfl, Option.or_none]
  indexes n := by rw [show empty.indexes.get n = none from rfl, Option.or_none]
  enumFree n h := absurd h (by simp [empty])
  free n h := absurd ⟨rfl, rfl⟩ h

/-- A row that is inserted into both of two tables of which one contains the other. -/
theorem get_insert_or {Row : Type} {key : Row → String} {t₀ t t₁ : Table key} {r : Row}
    (hbeside : ∀ n, t₁.get n = (t₀.get n).or (t.get n)) (h₀ : t₀.get (key r) = none)
    (h : t.get (key r) = none) (h₁ : t₁.get (key r) = none) (n : String) :
    (t₁.insert r h₁).get n = (t₀.get n).or ((t.insert r h).get n) := by
  rw [Table.get_insert, Table.get_insert]
  split
  · next hname =>
    rw [← hname, h₀, Option.none_or]
  · exact hbeside n

namespace Beside

variable (h : Beside s₀ s s₁)

include h

/-- A name that is free in both parts is free. -/
theorem free_of_free (hs : s.Free name) (h₀ : s₀.Free name) : s₁.Free name := by
  refine ⟨?_, ?_⟩
  · rw [h.tables, hs.1, h₀.1, Option.or_none]
  · rw [h.indexes, hs.2, h₀.2, Option.or_none]

/-- The tables of the script are found beside the others. -/
theorem tables_get {t : TableDef} (ht : s.tables.get name = some t) :
    s₁.tables.get name = some t := by
  have hfree : s₀.Free name := h.free name fun hfree ↦ by
    rw [hfree.1] at ht
    exact absurd ht (by simp)
  rw [h.tables, hfree.1, ht, Option.none_or]

/-- A table can be created beside others if its name is free there. -/
theorem admits {t : TableDef} (ht : s.Admits t) (hfree : s₀.Free t.name) : s₁.Admits t := by
  refine ⟨h.free_of_free ht.1 hfree, fun e he ↦ ?_, fun fk hfk ↦ ?_⟩
  · rw [h.enums, Option.isSome_or, ht.2.1 e he, Bool.or_true]
  · obtain ⟨t', ht', hkey⟩ := ht.2.2 fk hfk
    exact ⟨t', h.tables_get ht', hkey⟩

/-- So can an index. -/
theorem admitsIndex {i : Index} (hi : s.AdmitsIndex i) (hfree : s₀.Free i.name) :
    s₁.AdmitsIndex i := by
  obtain ⟨t, ht, hcolumns⟩ := hi.2
  exact ⟨h.free_of_free hi.1 hfree, t, h.tables_get ht, hcolumns⟩

/-- A statement does beside other tables what it does alone. -/
theorem create (hcreate : s.create c = some s') (hfree : s₀.CreatesFree c) :
    ∃ s₁', s₁.create c = some s₁' ∧ Beside s₀ s' s₁' := by
  cases created_of_create hcreate with
  | @enum e hnone =>
    have h₀ : s₀.enums.get e.name = none := hfree
    have hnone₁ : s₁.enums.get e.name = none := by rw [h.enums, h₀, hnone, Option.or_none]
    refine ⟨_, dif_pos hnone₁, get_insert_or h.enums h₀ hnone hnone₁, h.tables, h.indexes,
      fun n hn ↦ ?_, h.free⟩
    change ((s.enums.insert e hnone).get n).isSome at hn
    rw [Table.get_insert] at hn
    split at hn
    · next hname => rwa [← hname]
    · exact h.enumFree n hn
  -- `checkfirst` finds the type, beside the other tables as well
  | @kept e hsome =>
    refine ⟨s₁, dif_neg (Option.isSome_iff_ne_none.1 ?_), h⟩
    rw [h.enums, Option.isSome_or, hsome, Bool.or_true]
  | @table t hadmits =>
    have h₀ : s₀.Free t.name := hfree
    have hadmits₁ := h.admits hadmits h₀
    refine ⟨_, dif_pos hadmits₁, h.enums,
      get_insert_or h.tables h₀.1 hadmits.1.1 hadmits₁.1.1, h.indexes, h.enumFree, fun n hn ↦ ?_⟩
    by_cases hname : t.name = n
    · rwa [← hname]
    · refine h.free n fun hs ↦ hn ⟨?_, hs.2⟩
      show (s.tables.insert t hadmits.1.1).get n = none
      rw [Table.get_insert, if_neg hname, hs.1]
  | @index i hadmits =>
    have h₀ : s₀.Free i.name := hfree
    have hadmits₁ := h.admitsIndex hadmits h₀
    refine ⟨_, dif_pos hadmits₁, h.enums, h.tables,
      get_insert_or h.indexes h₀.2 hadmits.1.2 hadmits₁.1.2, h.enumFree, fun n hn ↦ ?_⟩
    by_cases hname : i.name = n
    · rwa [← hname]
    · refine h.free n fun hs ↦ hn ⟨hs.1, ?_⟩
      show (s.indexes.insert i hadmits.1.2).get n = none
      rw [Table.get_insert, if_neg hname, hs.2]

theorem createAll (hcreate : Catalog.createAll cs s = some s')
    (hfree : ∀ c ∈ cs, s₀.CreatesFree c) :
    ∃ s₁', Catalog.createAll cs s₁ = some s₁' ∧ Beside s₀ s' s₁' := by
  induction cs generalizing s s₁ with
  | nil =>
    obtain rfl := Option.some.inj hcreate
    exact ⟨s₁, rfl, h⟩
  | cons c cs ih =>
    obtain ⟨hc, hcs⟩ := List.forall_mem_cons.1 hfree
    obtain ⟨s₂, hfirst, hrest⟩ := createAll_cons hcreate
    obtain ⟨s₃, hfirst₁, h₁⟩ := h.create hfirst hc
    obtain ⟨s₁', hrest₁, h'⟩ := ih h₁ hrest hcs
    refine ⟨s₁', ?_, h'⟩
    rw [Catalog.createAll, hfirst₁]
    exact hrest₁

end Beside

/-- **A script does beside other tables what it does on an empty database**, as long as its names
are free. -/
theorem createAll_beside (hcreate : createAll cs empty = some s) (s₀ : Catalog)
    (hfree : ∀ c ∈ cs, s₀.CreatesFree c) : ∃ s₁, createAll cs s₀ = some s₁ ∧ Beside s₀ s s₁ :=
  (beside_empty s₀).createAll hcreate hfree

end Catalog

end Sql
