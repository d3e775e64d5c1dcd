import AssetDiscovery.Library.Table
import Mathlib.Data.List.Perm.Basic
import Mathlib.Logic.Equiv.Basic

/-!
# Edits of a list of rows

An **edit** says what becomes of each row of a list, and which rows are appended to it. Edits
compose (`apply_andThen`), and an edit is *within* a class of rows when it leaves every other row as
it is and brings in rows of the class only: what it does not own it neither adds, drops nor changes
(`Within.mem_apply`, `Within.filter_apply`).

Two edits within disjoint classes commute up to the order of the rows (`perm_apply_apply`). The
statement is about two pairs of edits, so that the edits of one order need not be those of the
other: it is enough that they agree in what two readings `f` and `g` of the rows tell.

When the rows of a table carry keys that were drawn for them, one of the readings renames them:
`Table.exists_renaming` takes the keys drawn in one order of the edits to those drawn in the other,
and leaves the keys of all rows that are there all along.
-/

set_option autoImplicit false

universe u v

/-- What becomes of each row of a list, and the rows that are appended. -/
structure Edit (Row : Type u) where
  /-- What becomes of a row; `none` drops it. -/
  keep : Row → Option Row
  /-- The new rows. -/
  added : List Row

namespace Edit

variable {Row : Type u} {α : Type v}

/-- Carry out an edit. -/
def apply (E : Edit Row) (rows : List Row) : List Row :=
  rows.filterMap E.keep ++ E.added

/-- One edit after the other. -/
def andThen (E E' : Edit Row) : Edit Row where
  keep r := (E.keep r).bind E'.keep
  added := E.added.filterMap E'.keep ++ E'.added

/-- Carrying out two edits, one after the other. -/
theorem apply_andThen (E E' : Edit Row) (rows : List Row) :
    (E.andThen E').apply rows = E'.apply (E.apply rows) := by
  rw [apply, apply, apply, List.filterMap_append, List.filterMap_filterMap, List.append_assoc]
  rfl

/-- The rows after an edit: those that are kept, and those that are added. -/
theorem mem_apply {E : Edit Row} {rows : List Row} {r : Row} :
    r ∈ E.apply rows ↔ (∃ r₀ ∈ rows, E.keep r₀ = some r) ∨ r ∈ E.added := by
  rw [apply, List.mem_append, List.mem_filterMap]

/-- An edit that drops no row. -/
theorem apply_eq_map {E : Edit Row} {rows : List Row} {F : Row → Row}
    (h : ∀ r ∈ rows, E.keep r = some (F r)) : E.apply rows = rows.map F ++ E.added := by
  rw [apply, List.filterMap_congr h, ← List.filterMap_eq_map]
  rfl

/-- An edit that drops and changes no row. -/
theorem apply_eq_append {E : Edit Row} {rows : List Row} (h : ∀ r ∈ rows, E.keep r = some r) :
    E.apply rows = rows ++ E.added := by
  rw [apply_eq_map h, List.map_id']

/-- An edit that drops the rows outside `p`. -/
theorem apply_eq_filter {E : Edit Row} {rows : List Row} {p : Row → Bool}
    (h : ∀ r ∈ rows, E.keep r = if p r then some r else none) :
    E.apply rows = rows.filter p ++ E.added := by
  rw [apply, List.filterMap_congr h, ← List.filterMap_eq_filter]
  rfl

/-! ### Edits within a class of rows -/

/-- The edit is about the rows in `own`: it leaves all others as they are, and what it keeps or adds
is in `own` again. -/
structure Within (E : Edit Row) (own : Row → Prop) : Prop where
  outside : ∀ r, ¬ own r → E.keep r = some r
  inside : ∀ r r', own r → E.keep r = some r' → own r'
  added : ∀ r ∈ E.added, own r

section Within

variable {E : Edit Row} {own : Row → Prop} {rows : List Row}

/-- A row that the edit is not about is there afterwards if and only if it was there before. -/
theorem Within.mem_apply (h : E.Within own) {r : Row} (hr : ¬ own r) :
    r ∈ E.apply rows ↔ r ∈ rows := by
  rw [Edit.mem_apply]
  constructor
  · rintro (⟨r₀, hr₀, hkeep⟩ | hadded)
    · by_cases hown : own r₀
      · exact absurd (h.inside r₀ r hown hkeep) hr
      · rw [h.outside r₀ hown] at hkeep
        exact Option.some.inj hkeep ▸ hr₀
    · exact absurd (h.added r hadded) hr
  · exact fun hmem ↦ Or.inl ⟨r, hmem, h.outside r hr⟩

/-- The rows of another class stay as they are, in their order. -/
theorem Within.filter_apply (h : E.Within own) {p : Row → Bool} (hp : ∀ r, p r = true → ¬ own r) :
    (E.apply rows).filter p = rows.filter p := by
  have hadded : E.added.filter p = [] :=
    List.filter_eq_nil_iff.2 fun r hr hpr ↦ hp r hpr (h.added r hr)
  rw [apply, List.filter_append, hadded, List.append_nil]
  induction rows with
  | nil => rfl
  | cons r rows ih =>
    by_cases hown : own r
    · have hnot : ∀ r', own r' → p r' ≠ true := fun r' hr' hp' ↦ hp r' hp' hr'
      rw [List.filter_cons_of_neg (hnot r hown), ← ih, List.filterMap_cons]
      cases hkeep : E.keep r with
      | none => rfl
      | some r' => exact List.filter_cons_of_neg (hnot r' (h.inside r r' hown hkeep))
    · rw [List.filterMap_cons_some (h.outside r hown), List.filter_cons, List.filter_cons, ih]

end Within

/-! ### Two edits in either order -/

/-- What a reading tells of two edits, one after the other, when the second leaves the new rows of
the first. -/
theorem map_apply_apply (f : Row → α) {E E' : Edit Row} (rows : List Row)
    (hadded : ∀ r ∈ E.added, E'.keep r = some r) :
    (E'.apply (E.apply rows)).map f =
      rows.filterMap (fun r ↦ ((E.keep r).bind E'.keep).map f) ++
        (E.added.map f ++ E'.added.map f) := by
  have hsame : E.added.filterMap E'.keep = E.added := by
    rw [List.filterMap_congr hadded, List.filterMap_some]
  rw [← apply_andThen, apply, List.map_append, List.map_filterMap]
  show _ ++ (E.added.filterMap E'.keep ++ E'.added).map f = _
  rw [hsame, List.map_append]
  rfl

/-- **Edits in either order**: `E₁` and `E₂` against `E₂'` and `E₁'`, which do the same to each row
as far as the readings tell, and leave each other's new rows. -/
theorem perm_apply_apply {f g : Row → α} {E₁ E₂ E₁' E₂' : Edit Row} {rows : List Row}
    (hkeep : ∀ r ∈ rows, ((E₁.keep r).bind E₂.keep).map f = ((E₂'.keep r).bind E₁'.keep).map g)
    (h₁ : ∀ r ∈ E₁.added, E₂.keep r = some r) (h₂ : ∀ r ∈ E₂'.added, E₁'.keep r = some r)
    (hadded₁ : E₁.added.map f = E₁'.added.map g) (hadded₂ : E₂.added.map f = E₂'.added.map g) :
    ((E₂.apply (E₁.apply rows)).map f).Perm ((E₁'.apply (E₂'.apply rows)).map g) := by
  rw [map_apply_apply f rows h₁, map_apply_apply g rows h₂, hadded₁, hadded₂,
    List.filterMap_congr hkeep]
  exact List.perm_append_comm.append_left _

/-- Where nothing is added, the order of the rows is the same as well. -/
theorem apply_apply_eq {E₁ E₂ E₁' E₂' : Edit Row} {rows : List Row}
    (hkeep : ∀ r ∈ rows, (E₁.keep r).bind E₂.keep = (E₂'.keep r).bind E₁'.keep)
    (h₁ : E₁.added = []) (h₂ : E₂.added = []) (h₁' : E₁'.added = []) (h₂' : E₂'.added = []) :
    E₂.apply (E₁.apply rows) = E₁'.apply (E₂'.apply rows) := by
  rw [← apply_andThen, ← apply_andThen, apply, apply, andThen, andThen, h₁, h₂, h₁', h₂']
  exact congrArg (· ++ []) (List.filterMap_congr hkeep)

/-- For edits within disjoint classes, what becomes of each row is what the edit that owns it makes
of it. -/
theorem bind_keep_eq {f g : Row → α} {own₁ own₂ : Row → Prop} {E₁ E₂ E₁' E₂' : Edit Row}
    (h₁ : E₁.Within own₁) (h₂ : E₂.Within own₂) (h₁' : E₁'.Within own₁) (h₂' : E₂'.Within own₂)
    (hdisj : ∀ r, own₁ r → ¬ own₂ r) {r : Row}
    (hown₁ : own₁ r → (E₁.keep r).map f = (E₁'.keep r).map g)
    (hown₂ : own₂ r → (E₂.keep r).map f = (E₂'.keep r).map g)
    (hrest : ¬ own₁ r → ¬ own₂ r → f r = g r) :
    ((E₁.keep r).bind E₂.keep).map f = ((E₂'.keep r).bind E₁'.keep).map g := by
  have hfix : ∀ {E E' : Edit Row} {own own' : Row → Prop}, E.Within own → E'.Within own' →
      (∀ r, own r → ¬ own' r) → own r → (E.keep r).bind E'.keep = E.keep r := by
    intro E E' own own' hE hE' hd hr
    cases hkeep : E.keep r with
    | none => rfl
    | some r' => exact hE'.outside r' (hd r' (hE.inside r r' hr hkeep))
  by_cases hr₁ : own₁ r
  · rw [hfix h₁ h₂ hdisj hr₁, h₂'.outside r (hdisj r hr₁), hown₁ hr₁]
    rfl
  rw [h₁.outside r hr₁]
  by_cases hr₂ : own₂ r
  · rw [hfix h₂' h₁' (fun r h h' ↦ hdisj r h' h) hr₂, ← hown₂ hr₂]
    rfl
  · rw [h₂'.outside r hr₂, Option.bind_some, Option.bind_some, h₂.outside r hr₂,
      h₁'.outside r hr₁, Option.map_some, Option.map_some, hrest hr₁ hr₂]

end Edit

/-! ### Renaming drawn keys -/

/-- A renaming that takes the keys of one list to those of another of the same length, in their
order, and leaves every key that is in neither. -/
theorem exists_perm_map_eq {Key : Type u} [DecidableEq Key] {l l' : List Key} (h : l.Nodup)
    (h' : l'.Nodup) (hlen : l.length = l'.length) :
    ∃ ρ : Equiv.Perm Key, l.map ρ = l' ∧ ∀ x, x ∉ l → x ∉ l' → ρ x = x := by
  induction l generalizing l' with
  | nil =>
    obtain rfl := List.eq_nil_of_length_eq_zero hlen.symm
    exact ⟨Equiv.refl Key, rfl, fun _ _ _ ↦ rfl⟩
  | cons a l ih =>
    obtain ⟨a', l', rfl⟩ := List.exists_cons_of_length_eq_add_one hlen.symm
    obtain ⟨ha, h⟩ := List.nodup_cons.1 h
    obtain ⟨ha', h'⟩ := List.nodup_cons.1 h'
    obtain ⟨ρ, hρ, hfix⟩ := ih h h' (Nat.succ.inj hlen)
    -- what `ρ` makes of `a` is exchanged for `a'`
    refine ⟨ρ.trans (Equiv.swap (ρ a) a'), ?_, fun x hx hx' ↦ ?_⟩
    · rw [List.map_cons, Equiv.trans_apply, Equiv.swap_apply_left]
      congr 1
      rw [← hρ]
      refine List.map_congr_left fun x hx ↦ ?_
      have hmem : ρ x ∈ l' := hρ ▸ List.mem_map_of_mem hx
      refine Equiv.swap_apply_of_ne_of_ne (fun heq ↦ ?_) (fun heq ↦ ha' (heq ▸ hmem))
      exact ha (ρ.injective heq ▸ hx)
    · obtain ⟨hxa, hx⟩ := not_or.1 (List.mem_cons.not.1 hx)
      obtain ⟨hxa', hx'⟩ := not_or.1 (List.mem_cons.not.1 hx')
      have hρx : ρ x = x := hfix x hx hx'
      rw [Equiv.trans_apply, hρx]
      refine Equiv.swap_apply_of_ne_of_ne (fun heq ↦ hxa ?_) hxa'
      exact ρ.injective (hρx.trans heq)

namespace Table

variable {Row : Type u} {Key : Type v} {key : Row → Key} [DecidableEq Key]
  {t t₁ t₂ t₁₂ t₂₁ : Table key} {E₁ E₂ E₁' E₂' : Edit Row}

omit [DecidableEq Key] in
/-- The new rows of two edits of a table have different keys. -/
theorem nodup_added (h₁ : t₁.rows = E₁.apply t.rows) (h₂ : t₁₂.rows = E₂.apply t₁.rows)
    (hleft : ∀ r ∈ E₁.added, E₂.keep r = some r) :
    (E₁.added.map key ++ E₂.added.map key).Nodup := by
  have hnodup := t₁₂.nodup
  rw [h₂, h₁, Edit.map_apply_apply key t.rows hleft] at hnodup
  exact (List.nodup_append.1 hnodup).2.1

/-- No key is renamed whose row is in all three tables. -/
def Fixes (t t₁ t₂ : Table key) (ρ : Equiv.Perm Key) : Prop :=
  ∀ k, (t.get k).isSome → (t₁.get k).isSome → (t₂.get k).isSome → ρ k = k

/-- A table edited by `E₁` and `E₂`, and by `E₂'` and `E₁'`, where as many rows are new: the keys of
the new rows of one order can be renamed to those of the other, and no key of a row that is there
all along is renamed. -/
theorem exists_renaming (h₁ : t₁.rows = E₁.apply t.rows) (h₂ : t₁₂.rows = E₂.apply t₁.rows)
    (h₂' : t₂.rows = E₂'.apply t.rows) (h₁' : t₂₁.rows = E₁'.apply t₂.rows)
    (hleft : ∀ r ∈ E₁.added, E₂.keep r = some r) (hleft' : ∀ r ∈ E₂'.added, E₁'.keep r = some r)
    (hnew₁ : ∀ r ∈ E₁.added, t.get (key r) = none) (hnew₂ : ∀ r ∈ E₂.added, t₁.get (key r) = none)
    (hnew₂' : ∀ r ∈ E₂'.added, t.get (key r) = none)
    (hnew₁' : ∀ r ∈ E₁'.added, t₂.get (key r) = none)
    (hlen₁ : E₁.added.length = E₁'.added.length) (hlen₂ : E₂.added.length = E₂'.added.length) :
    ∃ ρ : Equiv.Perm Key, E₁.added.map (fun r ↦ ρ (key r)) = E₁'.added.map key ∧
      E₂.added.map (fun r ↦ ρ (key r)) = E₂'.added.map key ∧ Fixes t t₁ t₂ ρ := by
  have hnodup' := List.nodup_append_comm.1 (nodup_added h₂' h₁' hleft')
  obtain ⟨ρ, hρ, hfix⟩ := exists_perm_map_eq (nodup_added h₁ h₂ hleft) hnodup'
    (by simp [hlen₁, hlen₂])
  rw [List.map_append, List.map_map, List.map_map] at hρ
  obtain ⟨hρ₁, hρ₂⟩ := List.append_inj hρ (by simp [hlen₁])
  have hstored : ∀ {t : Table key} {rows : List Row} {k : Key}, (∀ r ∈ rows, t.get (key r) = none) →
      (t.get k).isSome → k ∉ rows.map key := by
    intro t rows k hnew hk hmem
    obtain ⟨r, hr, rfl⟩ := List.mem_map.1 hmem
    rw [hnew r hr] at hk
    exact absurd hk (by simp)
  refine ⟨ρ, hρ₁, hρ₂, fun k hk hk₁ hk₂ ↦ hfix k ?_ ?_⟩
  · exact List.mem_append.not.2 (not_or.2 ⟨hstored hnew₁ hk, hstored hnew₂ hk₁⟩)
  · exact List.mem_append.not.2 (not_or.2 ⟨hstored hnew₁' hk₂, hstored hnew₂' hk⟩)

end Table
