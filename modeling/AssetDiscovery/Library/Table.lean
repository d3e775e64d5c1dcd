import Mathlib.Data.List.Nodup

/-!
# Keyed tables

A **table** is a list of rows in insertion order whose keys are pairwise distinct. The key is a
projection of the row, so a row carries its own key, and the distinctness is a field: a table with
two rows of one key cannot be built.

Lookup (`get`) is characterised once (`get_eq_some_iff`); insertion, modification and filtering are
then characterised by what lookup returns afterwards, and proofs about a store built from tables
use these equations and never unfold the row list.
-/

universe u v

/-- Rows of type `Row` in insertion order, with pairwise distinct keys. -/
structure Table {Row : Type u} {Key : Type v} (key : Row → Key) where
  /-- The rows, oldest first. -/
  rows : List Row
  /-- No two rows share a key. -/
  nodup : (rows.map key).Nodup

namespace Table

variable {Row : Type u} {Key : Type v} {key : Row → Key}

/-- A table is its rows. -/
@[ext]
theorem ext {t t' : Table key} (h : t.rows = t'.rows) : t = t' := by
  cases t; cases t'; cases h; rfl

instance [DecidableEq Row] : DecidableEq (Table key) := fun t t' ↦
  decidable_of_iff (t.rows = t'.rows) ⟨ext, fun h ↦ h ▸ rfl⟩

instance : Membership Row (Table key) := ⟨fun t r ↦ r ∈ t.rows⟩

theorem mem_rows {t : Table key} {r : Row} : r ∈ t.rows ↔ r ∈ t :=
  Iff.rfl

/-- The table without rows. -/
def empty : Table key := ⟨[], by simp⟩

@[simp]
theorem not_mem_empty (r : Row) : r ∉ (empty : Table key) := by
  rw [← mem_rows]
  exact List.not_mem_nil

/-- Two rows of one table with one key are the same row. -/
theorem eq_of_key_eq {t : Table key} {r r' : Row} (h : r ∈ t) (h' : r' ∈ t)
    (hk : key r = key r') : r = r' :=
  List.inj_on_of_nodup_map t.nodup h h' hk

section Lookup

variable [DecidableEq Key]

/-- The row of a key, if the table has one. -/
def get (t : Table key) (k : Key) : Option Row :=
  t.rows.find? fun r ↦ key r = k

/-- A row is looked up by its own key. -/
theorem get_eq_some_iff {t : Table key} {k : Key} {r : Row} :
    t.get k = some r ↔ r ∈ t ∧ key r = k := by
  constructor
  · intro h
    exact ⟨List.mem_of_find?_eq_some h, by simpa using List.find?_some h⟩
  · rintro ⟨hmem, hk⟩
    cases h : t.get k with
    | none => exact absurd hk (by simpa using List.find?_eq_none.1 h r hmem)
    | some r' =>
      have hk' : key r' = k := by simpa using List.find?_some h
      rw [eq_of_key_eq (List.mem_of_find?_eq_some h) hmem (hk'.trans hk.symm)]

/-- A key that finds nothing is that of no row. -/
theorem get_eq_none_iff {t : Table key} {k : Key} :
    t.get k = none ↔ ∀ r ∈ t, key r ≠ k := by
  simp [get, ← mem_rows]

theorem key_of_get {t : Table key} {k : Key} {r : Row} (h : t.get k = some r) : key r = k :=
  (get_eq_some_iff.1 h).2

theorem mem_of_get {t : Table key} {k : Key} {r : Row} (h : t.get k = some r) : r ∈ t :=
  (get_eq_some_iff.1 h).1

/-- Each row is found by its key. -/
theorem get_key {t : Table key} {r : Row} (h : r ∈ t) : t.get (key r) = some r :=
  get_eq_some_iff.2 ⟨h, rfl⟩

theorem isSome_get_key {t : Table key} {r : Row} (h : r ∈ t) : (t.get (key r)).isSome := by
  rw [get_key h]
  rfl

/-- Lookup depends only on the rows of the key. -/
theorem get_eq_of_mem_iff {t t' : Table key} {k : Key} (h : ∀ r, key r = k → (r ∈ t ↔ r ∈ t')) :
    t.get k = t'.get k := by
  refine Option.ext fun r ↦ ?_
  rw [get_eq_some_iff, get_eq_some_iff]
  exact and_congr_left fun hk ↦ h r hk

@[simp]
theorem get_empty (k : Key) : (empty : Table key).get k = none :=
  rfl

/-! ### Insertion -/

/-- Append a row whose key is free. -/
def insert (t : Table key) (r : Row) (h : t.get (key r) = none) : Table key where
  rows := t.rows ++ [r]
  nodup := by
    rw [List.map_append, List.map_singleton]
    refine List.Nodup.append t.nodup (List.nodup_singleton _) ?_
    intro k hk hk'
    obtain ⟨r', hr', rfl⟩ := List.mem_map.1 hk
    exact get_eq_none_iff.1 h r' hr' (List.mem_singleton.1 hk')

/-- The rows after an insertion. -/
@[simp]
theorem mem_insert {t : Table key} {r r' : Row} {h : t.get (key r) = none} :
    r' ∈ t.insert r h ↔ r' ∈ t ∨ r' = r := by
  simp [insert, ← mem_rows]

/-- Looking a key up after an insertion. -/
theorem get_insert (t : Table key) (r : Row) (h : t.get (key r) = none) (k : Key) :
    (t.insert r h).get k = if key r = k then some r else t.get k := by
  by_cases hk : key r = k
  · rw [if_pos hk, get_eq_some_iff]
    exact ⟨mem_insert.2 (Or.inr rfl), hk⟩
  · rw [if_neg hk, get, insert, List.find?_append]
    simp [get, hk]

theorem get_insert_self (t : Table key) (r : Row) (h : t.get (key r) = none) :
    (t.insert r h).get (key r) = some r := by
  rw [get_insert, if_pos rfl]

/-! ### Modification of one row -/

/-- Change the row of key `k`, if there is one, by a function that keeps keys. -/
def modify (t : Table key) (k : Key) (f : Row → Row) (hf : ∀ r, key (f r) = key r) :
    Table key where
  rows := t.rows.map fun r ↦ if key r = k then f r else r
  nodup := by
    have h : (t.rows.map fun r ↦ if key r = k then f r else r).map key = t.rows.map key := by
      rw [List.map_map]
      refine List.map_congr_left fun r _ ↦ ?_
      by_cases hk : key r = k <;> simp [hk, hf]
    rw [h]
    exact t.nodup

/-- The rows after a change: those with the key are changed, the others stay. -/
theorem mem_modify {t : Table key} {k : Key} {f : Row → Row} {hf : ∀ r, key (f r) = key r}
    {r : Row} :
    r ∈ t.modify k f hf ↔ ∃ r₀ ∈ t, r = if key r₀ = k then f r₀ else r₀ := by
  simp only [← mem_rows, modify, List.mem_map, eq_comm]

/-- Looking a key up after a change. -/
theorem get_modify (t : Table key) (k : Key) (f : Row → Row) (hf : ∀ r, key (f r) = key r)
    (k' : Key) :
    (t.modify k f hf).get k' = if k' = k then (t.get k').map f else t.get k' := by
  have hkey : ∀ r, key (if key r = k then f r else r) = key r := by
    intro r
    by_cases hk : key r = k <;> simp [hk, hf]
  rw [get, modify, List.find?_map]
  have hpred : ((fun r ↦ decide (key r = k')) ∘ fun r ↦ if key r = k then f r else r) =
      fun r ↦ decide (key r = k') := by
    funext r
    simp only [Function.comp, hkey]
  rw [hpred]
  show (t.get k').map _ = _
  cases h : t.get k' with
  | none => simp
  | some r =>
    have hk' := key_of_get h
    by_cases hk : k' = k <;> simp [hk', hk]

@[simp]
theorem get_modify_self (t : Table key) (k : Key) (f : Row → Row)
    (hf : ∀ r, key (f r) = key r) : (t.modify k f hf).get k = (t.get k).map f := by
  rw [get_modify, if_pos rfl]

/-- A change adds and removes no key. -/
theorem get_modify_isSome (t : Table key) (k : Key) (f : Row → Row)
    (hf : ∀ r, key (f r) = key r) (k' : Key) :
    ((t.modify k f hf).get k').isSome = (t.get k').isSome := by
  rw [get_modify]
  split <;> simp

/-- What a modification does to the row of its key is all that matters. -/
theorem modify_congr {t : Table key} {k : Key} {f g : Row → Row} (hf : ∀ r, key (f r) = key r)
    (hg : ∀ r, key (g r) = key r) (h : ∀ r, t.get k = some r → f r = g r) :
    t.modify k f hf = t.modify k g hg := by
  refine ext (List.map_congr_left fun r hr ↦ ?_)
  by_cases hk : key r = k
  · rw [if_pos hk, if_pos hk, h r (hk ▸ get_key hr)]
  · rw [if_neg hk, if_neg hk]

/-- A modification that leaves the row of its key as it is changes nothing. -/
theorem modify_eq_self {t : Table key} {k : Key} {f : Row → Row} (hf : ∀ r, key (f r) = key r)
    (h : ∀ r, t.get k = some r → f r = r) : t.modify k f hf = t := by
  rw [modify_congr (g := id) hf (fun _ ↦ rfl) h]
  refine ext ((List.map_congr_left fun r _ ↦ ?_).trans (List.map_id _))
  split <;> rfl

/-! ### Removal of rows -/

/-- Keep the rows that satisfy `p`. -/
def filter (t : Table key) (p : Row → Bool) : Table key where
  rows := t.rows.filter p
  nodup := t.nodup.sublist (List.filter_sublist.map key)

omit [DecidableEq Key] in
/-- The rows that are kept. -/
@[simp]
theorem mem_filter {t : Table key} {p : Row → Bool} {r : Row} :
    r ∈ t.filter p ↔ r ∈ t ∧ p r = true := by
  simp [filter, ← mem_rows]

/-- Looking a key up among the rows that are kept. -/
theorem get_filter (t : Table key) (p : Row → Bool) (k : Key) :
    (t.filter p).get k = (t.get k).filter p := by
  cases h : t.get k with
  | none =>
    rw [Option.filter_none, get_eq_none_iff]
    intro r hr
    exact get_eq_none_iff.1 h r (mem_filter.1 hr).1
  | some r =>
    obtain ⟨hr, hk⟩ := get_eq_some_iff.1 h
    by_cases hp : p r = true
    · rw [Option.filter_some_pos hp, get_eq_some_iff]
      exact ⟨mem_filter.2 ⟨hr, hp⟩, hk⟩
    · rw [Option.filter_some_neg (by simpa using hp), get_eq_none_iff]
      intro r' hr' hk'
      obtain ⟨hr', hp'⟩ := mem_filter.1 hr'
      rw [eq_of_key_eq hr' hr (hk'.trans hk.symm)] at hp'
      exact hp hp'

/-- Removing the row that has been inserted gives the table before. -/
theorem filter_insert_self (t : Table key) (r : Row) (h : t.get (key r) = none) :
    (t.insert r h).filter (fun r' ↦ key r' ≠ key r) = t := by
  refine ext ?_
  show (t.rows ++ [r]).filter (fun r' ↦ key r' ≠ key r) = t.rows
  rw [List.filter_append, List.filter_eq_self.2, List.filter_cons_of_neg (by simp), List.filter_nil,
    List.append_nil]
  exact fun r' hr' ↦ decide_eq_true (get_eq_none_iff.1 h r' (mem_rows.1 hr'))

end Lookup

end Table
