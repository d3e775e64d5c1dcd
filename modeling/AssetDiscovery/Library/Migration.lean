import AssetDiscovery.Library.Catalog

/-!
# Chains of migrations

A chain of migrations takes a catalog from revision to revision, and back. A command names a
revision and carries out all migrations up to it in one transaction, so a command that fails changes
nothing. If each downgrade drops what its upgrade creates, in the opposite order, and the names are
free, then no sequence of commands can lead astray (`Chain.run_commands`): the catalog of a
revision is the same however the revision has been reached, and the way down leads back to the
catalog before the first migration.
-/

set_option autoImplicit false

namespace Sql

open Catalog

/-- The two scripts of a migration. -/
structure Migration where
  up : List Create
  down : List Drop

/-- The script that takes a catalog up through some migrations. -/
def ups (ms : List Migration) : List Create :=
  ms.flatMap Migration.up

/-- The script that takes it down again. -/
def downs (ms : List Migration) : List Drop :=
  ms.reverse.flatMap Migration.down

/-- A chain of migrations: each can be undone, no type is created twice, and the scripts run on an
empty database. -/
structure Chain where
  migrations : List Migration
  reverses : ∀ m ∈ migrations, m.down = (m.up.map Create.inverse).reverse
  nodup : (enumNames (ups migrations)).Nodup
  runs : (createAll (ups migrations) empty).isSome

/-- A catalog with the number of migrations that it has gone through. -/
structure Versioned where
  revision : ℕ
  catalog : Catalog

/-- The two commands that move a database along the chain, with the revision they lead to. -/
inductive Command where
  | upgrade (target : ℕ)
  | downgrade (target : ℕ)

namespace Chain

variable (ch : Chain)

/-- The migrations between two revisions. -/
def between (k n : ℕ) : List Migration :=
  (ch.migrations.take n).drop k

/-- Carry out a command; `none` if it fails, or if there is no way to its target. An upgrade to a
revision that is not ahead does nothing. -/
def command : Command → Versioned → Option Versioned
  | .upgrade n, v =>
    if ch.migrations.length < n then none
    else (createAll (ups (ch.between v.revision n)) v.catalog).map (⟨max v.revision n, ·⟩)
  | .downgrade n, v =>
    if v.revision < n then none
    else (dropAll (downs (ch.between n v.revision)) v.catalog).map (⟨n, ·⟩)

/-- Carry out some commands; one that fails changes nothing. -/
def run (commands : List Command) (v : Versioned) : Versioned :=
  commands.foldl (fun v c ↦ (ch.command c v).getD v) v

/-- The catalog of a revision, from the one before the first migration. -/
def stage (s₀ : Catalog) (k : ℕ) : Option Catalog :=
  createAll (ups (ch.migrations.take k)) s₀

variable {ch} {s₀ s s' : Catalog} {ms : List Migration} {k n : ℕ}

/-- The upgrades of two chains, one after the other. -/
theorem ups_append (ms ms' : List Migration) : ups (ms ++ ms') = ups ms ++ ups ms' :=
  List.flatMap_append

/-- The way down is the way up, undone. -/
theorem downs_eq (h : ∀ m ∈ ms, m.down = (m.up.map Create.inverse).reverse) :
    downs ms = ((ups ms).map Create.inverse).reverse := by
  induction ms with
  | nil => rfl
  | cons m ms ih =>
    obtain ⟨hm, hms⟩ := List.forall_mem_cons.1 h
    have hdowns : downs (m :: ms) = downs ms ++ m.down := by
      rw [downs, List.reverse_cons, List.flatMap_append, List.flatMap_singleton, downs]
    have hups : ups (m :: ms) = m.up ++ ups ms := rfl
    rw [hdowns, hups, ih hms, hm, List.map_append, List.reverse_append]

theorem enumNames_append (cs cs' : List Create) :
    enumNames (cs ++ cs') = enumNames cs ++ enumNames cs' :=
  List.filterMap_append

/-- A script leaves the types alone that it does not create. -/
theorem enums_get_of_createAll {cs : List Create} {name : String}
    (h : createAll cs s = some s') (hname : name ∉ enumNames cs) :
    s'.enums.get name = s.enums.get name := by
  induction cs generalizing s with
  | nil => rw [Option.some.inj h]
  | cons c cs ih =>
    obtain ⟨s₁, hfirst, hrest⟩ := createAll_cons h
    have hsplit : enumNames (c :: cs) = c.enumName.toList ++ enumNames cs := by
      cases c with
      | enum | table | index => rfl
    rw [hsplit, List.mem_append, not_or, Option.mem_toList] at hname
    rw [ih hrest hname.2, enums_get_of_create hfirst hname.1]

/-- The names that the chain creates are free. -/
def Untaken (ch : Chain) (s₀ : Catalog) : Prop :=
  ∀ c ∈ ups ch.migrations, s₀.CreatesFree c

instance (ch : Chain) (s₀ : Catalog) : Decidable (ch.Untaken s₀) :=
  inferInstanceAs (Decidable (∀ _ ∈ _, _))

/-- The migrations up to a revision come first. -/
theorem take_append_between (ch : Chain) (hkn : k ≤ n) :
    ch.migrations.take k ++ ch.between k n = ch.migrations.take n := by
  have h := List.take_append_drop k (ch.migrations.take n)
  rwa [List.take_take, Nat.min_eq_left hkn] at h

/-- Between a revision and an earlier one there are no migrations. -/
theorem between_of_le (ch : Chain) (hnk : n ≤ k) : ch.between k n = [] :=
  List.drop_eq_nil_of_le (Nat.le_trans (List.length_take_le n _) hnk)

/-- The catalogs of two revisions. -/
theorem stage_bind (ch : Chain) (s₀ : Catalog) (hkn : k ≤ n) :
    (ch.stage s₀ k).bind (createAll (ups (ch.between k n))) = ch.stage s₀ n := by
  rw [stage, stage, ← ch.take_append_between hkn, ups_append, createAll_append]

/-- Every revision has a catalog. -/
theorem exists_stage (h : ch.Untaken s₀) (k : ℕ) : ∃ s, ch.stage s₀ k = some s := by
  obtain ⟨s, hs⟩ := Option.isSome_iff_exists.1 ch.runs
  obtain ⟨s₁, hs₁, -⟩ := createAll_beside hs s₀ h
  rw [← List.take_append_drop k ch.migrations, ups_append, createAll_append] at hs₁
  obtain ⟨s, hs, -⟩ := Option.bind_eq_some_iff.1 hs₁
  exact ⟨s, hs⟩

/-- No type is created again after a revision. -/
theorem nodup_enumNames (ch : Chain) (hkn : k ≤ n) :
    (enumNames (ups (ch.migrations.take k)) ++ enumNames (ups (ch.between k n))).Nodup := by
  rw [← enumNames_append, ← ups_append, ch.take_append_between hkn]
  have hsplit := ch.nodup
  rw [← List.take_append_drop n ch.migrations, ups_append, enumNames_append] at hsplit
  exact (List.nodup_append.1 hsplit).1

/-- The way up from one revision to another. -/
theorem createAll_between (h : ch.Untaken s₀) (hs : ch.stage s₀ k = some s) (hkn : k ≤ n) :
    ∃ s', ch.stage s₀ n = some s' ∧ createAll (ups (ch.between k n)) s = some s' := by
  obtain ⟨s', hs'⟩ := exists_stage h n
  have hbind := ch.stage_bind s₀ hkn
  rw [hs, hs'] at hbind
  exact ⟨s', hs', hbind⟩

/-- The way down again. -/
theorem dropAll_between (h : ch.Untaken s₀) (hs' : ch.stage s₀ n = some s') (hkn : k ≤ n) :
    ∃ s, ch.stage s₀ k = some s ∧ dropAll (downs (ch.between k n)) s' = some s := by
  obtain ⟨s, hs⟩ := exists_stage h k
  obtain ⟨s'', hs'', hup⟩ := createAll_between h hs hkn
  obtain rfl := Option.some.inj (hs''.symm.trans hs')
  obtain ⟨-, hnodup, hdisjoint⟩ := List.nodup_append.1 (ch.nodup_enumNames hkn)
  have hreverses : ∀ m ∈ ch.between k n, m.down = (m.up.map Create.inverse).reverse :=
    fun m hm ↦ ch.reverses m (List.mem_of_mem_take (List.mem_of_mem_drop hm))
  refine ⟨s, hs, ?_⟩
  rw [downs_eq hreverses]
  refine dropAll_of_createAll hup hnodup fun e he ↦ ?_
  -- the type is free at first, and none of the migrations before creates it
  rw [enums_get_of_createAll hs fun hmem ↦ hdisjoint e hmem e he rfl]
  obtain ⟨c, hc, hname⟩ := List.mem_filterMap.1 he
  obtain ⟨m, hm, hcm⟩ := List.mem_flatMap.1 hc
  have hfree := h c (List.mem_flatMap.2
    ⟨m, List.mem_of_mem_take (List.mem_of_mem_drop hm), hcm⟩)
  cases c with
  | enum e' =>
    obtain rfl := Option.some.inj hname
    exact hfree
  | table | index => exact absurd hname (by simp [Create.enumName])

/-- The catalog is that of its revision. -/
def At (ch : Chain) (s₀ : Catalog) (v : Versioned) : Prop :=
  v.revision ≤ ch.migrations.length ∧ ch.stage s₀ v.revision = some v.catalog

/-- An upgrade leads from stage to stage. -/
theorem At.upgrade (h : ch.Untaken s₀) {v : Versioned} (hv : ch.At s₀ v)
    (hn : n ≤ ch.migrations.length) : ∃ s', ch.stage s₀ (max v.revision n) = some s' ∧
      ch.command (.upgrade n) v = some ⟨max v.revision n, s'⟩ := by
  rw [command, if_neg (Nat.not_lt.2 hn)]
  rcases Nat.le_total v.revision n with hle | hle
  · obtain ⟨s', hs', hup⟩ := createAll_between h hv.2 hle
    rw [Nat.max_eq_right hle, hup]
    exact ⟨s', hs', rfl⟩
  · rw [Nat.max_eq_left hle, between_of_le ch hle]
    exact ⟨v.catalog, hv.2, rfl⟩

/-- So does a downgrade. -/
theorem At.downgrade (h : ch.Untaken s₀) {v : Versioned} (hv : ch.At s₀ v) (hn : n ≤ v.revision) :
    ∃ s', ch.stage s₀ n = some s' ∧ ch.command (.downgrade n) v = some ⟨n, s'⟩ := by
  obtain ⟨s', hs', hdown⟩ := dropAll_between h hv.2 hn
  refine ⟨s', hs', ?_⟩
  rw [command, if_neg (Nat.not_lt.2 hn), hdown]
  rfl

/-- **Commands never lead astray.** Whatever commands are given, in whatever order, the catalog is
that of its revision. -/
theorem run_commands (h : ch.Untaken s₀) (commands : List Command) :
    ch.At s₀ (ch.run commands ⟨0, s₀⟩) := by
  suffices hall : ∀ v, ch.At s₀ v → ch.At s₀ (ch.run commands v) from
    hall ⟨0, s₀⟩ ⟨Nat.zero_le _, rfl⟩
  induction commands with
  | nil => exact fun _ hv ↦ hv
  | cons c commands ih =>
    refine fun v hv ↦ ih _ ?_
    cases c with
    | upgrade n =>
      show ch.At s₀ ((ch.command (.upgrade n) v).getD v)
      rcases Nat.lt_or_ge ch.migrations.length n with hlt | hge
      · rw [command, if_pos hlt]
        exact hv
      · obtain ⟨s', hs', hcommand⟩ := hv.upgrade h hge
        rw [hcommand]
        exact ⟨Nat.max_le.2 ⟨hv.1, hge⟩, hs'⟩
    | downgrade n =>
      show ch.At s₀ ((ch.command (.downgrade n) v).getD v)
      rcases Nat.lt_or_ge v.revision n with hlt | hge
      · rw [command, if_pos hlt]
        exact hv
      · obtain ⟨s', hs', hcommand⟩ := hv.downgrade h hge
        rw [hcommand]
        exact ⟨Nat.le_trans hge hv.1, hs'⟩

/-- An upgrade does not go back. -/
theorem revision_of_upgrade {v v' : Versioned} (h : ch.command (.upgrade n) v = some v') :
    v'.revision = max v.revision n := by
  simp only [command] at h
  split at h
  · exact absurd h (by simp)
  · obtain ⟨s', -, rfl⟩ := Option.map_eq_some_iff.1 h
    rfl

/-- **The way up and down again leads back if and only if the chain has created its types itself**:
a type that was there before is used on the way up, and dropped on the way down. -/
theorem downgrade_upgrade_iff (hs : createAll (ups ch.migrations) s₀ = some s) :
    dropAll (downs ch.migrations) s = some s₀ ↔
      ∀ e ∈ enumNames (ups ch.migrations), s₀.enums.get e = none := by
  rw [downs_eq ch.reverses]
  constructor
  · intro h e he
    obtain ⟨c, hc, hname⟩ := List.mem_filterMap.1 he
    refine enums_none_of_mem h (List.mem_reverse.2 (List.mem_map.2 ⟨c, hc, ?_⟩))
    cases c with
    | enum e' =>
      obtain rfl := Option.some.inj hname
      rfl
    | table | index => exact absurd hname (by simp [Create.enumName])
  · exact dropAll_of_createAll hs ch.nodup

end Chain

end Sql
