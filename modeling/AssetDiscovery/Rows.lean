import AssetDiscovery.Board

/-!
# What a statement does to the rows

`Database.Wrote` says once what a statement that succeeds has found and what it leaves; what a
transaction can add or remove is read off it.
-/

set_option autoImplicit false

namespace AssetDiscovery

namespace Database

variable {db db' : Database} {now : Time} {w : Write} {ws : List Write}

/-- A statement that succeeds at `now`. -/
inductive Wrote (now : Time) (db : Database) : Write → Database → Prop
  | insertDomain {id name st user} (hwidth : name.length ≤ nameWidth)
      (hid : db.domains.get id = none) (hname : ∀ d ∈ db.domains, d.name ≠ name) :
    Wrote now db (.insertDomain id name st user)
      (db.insertDomain ⟨id, name, st, user, now⟩ hid hname)
  | insertScan {id d st user} (hid : db.scans.get id = none) (hd : (db.domains.get d).isSome) :
    Wrote now db (.insertScan id d st user)
      (db.insertScan ⟨id, d, st, user, none, none, none, now⟩ hid hd)
  | insertAsset {id x d type value} (hwidth : value.length ≤ valueWidth)
      (hid : db.assets.get id = none) (hx : (db.scans.get x).isSome)
      (hd : (db.domains.get d).isSome) :
    Wrote now db (.insertAsset id x d type value)
      (db.insertAsset ⟨id, x, d, type, value, now⟩ hid hx hd)
  | updateScan {x p} (hx : (db.scans.get x).isSome) :
    Wrote now db (.updateScan x p) (db.updateScan x p)
  | updateDomain {d st} (hd : (db.domains.get d).isSome) :
    Wrote now db (.updateDomain d st) (db.updateDomain d st)
  | deleteDomain {d} : Wrote now db (.deleteDomain d) (db.deleteDomain d)

/-- What a statement that succeeds has done. -/
theorem wrote_of_write (h : db.write now w = .ok db') : db.Wrote now w db' := by
  cases w with
  -- first the width of the column, then the two unique keys
  | insertDomain id name st user =>
    simp only [write] at h
    split at h
    · exact absurd h (by simp)
    · next hwidth =>
      split at h
      · next hfree =>
        obtain rfl := Except.ok.inj h
        exact .insertDomain (Nat.le_of_not_lt hwidth) hfree.1 hfree.2
      · exact absurd h (by simp)
  | insertScan id d st user =>
    simp only [write] at h
    split at h
    · next hfree =>
      obtain rfl := Except.ok.inj h
      exact .insertScan hfree.1 hfree.2
    · exact absurd h (by simp)
  -- width, primary key, and the two rows that the foreign keys name
  | insertAsset id x d type value =>
    simp only [write] at h
    split at h
    · exact absurd h (by simp)
    · next hwidth =>
      split at h
      · next hfree =>
        obtain rfl := Except.ok.inj h
        exact .insertAsset (Nat.le_of_not_lt hwidth) hfree.1 hfree.2.1 hfree.2.2
      · exact absurd h (by simp)
  | updateScan x p =>
    simp only [write] at h
    split at h
    · next hx =>
      obtain rfl := Except.ok.inj h
      exact .updateScan hx
    · exact absurd h (by simp)
  | updateDomain d st =>
    simp only [write] at h
    split at h
    · next hd =>
      obtain rfl := Except.ok.inj h
      exact .updateDomain hd
    · exact absurd h (by simp)
  | deleteDomain d =>
    obtain rfl := Except.ok.inj h
    exact .deleteDomain

/-! ### Looking rows up after a statement -/

/-- Domains after an insertion. -/
theorem domains_get_insertDomain {row : Domain} {hid hname} (d : Id) :
    (db.insertDomain row hid hname).domains.get d =
      if row.id = d then some row else db.domains.get d :=
  Table.get_insert _ _ hid d

/-- Scans after an insertion. -/
theorem scans_get_insertScan {row : Scan} {hid hd} (x : Id) :
    (db.insertScan row hid hd).scans.get x = if row.id = x then some row else db.scans.get x :=
  Table.get_insert _ _ hid x

/-- Scans after columns of one are set. -/
theorem scans_get_updateScan {x : Id} {p : ScanPatch} (y : Id) :
    (db.updateScan x p).scans.get y =
      if y = x then (db.scans.get y).map p.apply else db.scans.get y :=
  Table.get_modify _ x p.apply p.apply_id y

/-- Domains after the status of one is set. -/
theorem domains_get_updateDomain {d : Id} {st : DomainStatus} (d' : Id) :
    (db.updateDomain d st).domains.get d' =
      if d' = d then (db.domains.get d').map fun row ↦ { row with status := st }
      else db.domains.get d' :=
  Table.get_modify db.domains d (fun row ↦ { row with status := st }) (fun _ ↦ rfl) d'

/-- Scans after the deletion of a domain. -/
theorem scans_get_deleteDomain {d : Id} (x : Id) :
    (db.deleteDomain d).scans.get x = (db.scans.get x).filter fun row ↦ row.domainId ≠ d :=
  Table.get_filter ..

/-- Domains after the deletion of one. -/
theorem domains_get_deleteDomain {d : Id} (d' : Id) :
    (db.deleteDomain d).domains.get d' = if d' = d then none else db.domains.get d' := by
  refine (Table.get_filter ..).trans ?_
  cases h : db.domains.get d' with
  | none => simp
  | some row => by_cases hd : d' = d <;> simp [Option.filter, Table.key_of_get h, hd]

/-! ### Rows that appear and disappear -/

/-- Only an insertion makes a domain appear. -/
theorem new_domain_of_wrote (h : db.Wrote now w db') {d : Id} (hd : db.domains.get d = none)
    (hd' : db'.domains.get d ≠ none) : ∃ name st user, w = .insertDomain d name st user := by
  cases h with
  | @insertDomain id name st user =>
    by_cases hid : id = d
    · exact ⟨name, st, user, by rw [hid]⟩
    · rw [domains_get_insertDomain, if_neg hid] at hd'
      exact absurd hd hd'
  | updateDomain => simp [domains_get_updateDomain, hd] at hd'
  | deleteDomain => simp [domains_get_deleteDomain, hd] at hd'
  | _ => exact absurd hd hd'

/-- Only an insertion makes a scan appear. -/
theorem new_scan_of_wrote (h : db.Wrote now w db') {x : Id} (hx : db.scans.get x = none)
    (hx' : db'.scans.get x ≠ none) : ∃ d st user, w = .insertScan x d st user := by
  cases h with
  | @insertScan id d st user =>
    by_cases hid : id = x
    · exact ⟨d, st, user, by rw [hid]⟩
    · rw [scans_get_insertScan, if_neg hid] at hx'
      exact absurd hx hx'
  | updateScan => simp [scans_get_updateScan, hx] at hx'
  | deleteDomain => simp [scans_get_deleteDomain, hx] at hx'
  | _ => exact absurd hx hx'

/-- Only a deletion makes a domain disappear. -/
theorem lost_domain_of_wrote (h : db.Wrote now w db') {d : Id} (hd : db.domains.get d ≠ none)
    (hd' : db'.domains.get d = none) : w = .deleteDomain d := by
  cases h with
  | insertDomain =>
    rw [domains_get_insertDomain] at hd'
    split at hd'
    · exact absurd hd' (by simp)
    · exact absurd hd' hd
  | updateDomain =>
    rw [domains_get_updateDomain] at hd'
    split at hd'
    · exact absurd (Option.map_eq_none_iff.1 hd') hd
    · exact absurd hd' hd
  | @deleteDomain d' =>
    rw [domains_get_deleteDomain] at hd'
    split at hd'
    · next hdd => rw [hdd]
    · exact absurd hd' hd
  | _ => exact absurd hd' hd

/-- The same of a transaction. -/
theorem new_domain_of_writeAll (h : db.writeAll now ws = .ok db') {d : Id}
    (hd : db.domains.get d = none) (hd' : db'.domains.get d ≠ none) :
    ∃ name st user, .insertDomain d name st user ∈ ws := by
  induction ws generalizing db with
  | nil =>
    rw [writeAll_nil h] at hd'
    exact absurd hd hd'
  | cons w ws ih =>
    obtain ⟨db₁, h₁, h₂⟩ := writeAll_cons h
    by_cases hd₁ : db₁.domains.get d = none
    · obtain ⟨name, st, user, hmem⟩ := ih h₂ hd₁
      exact ⟨name, st, user, List.mem_cons_of_mem _ hmem⟩
    · obtain ⟨name, st, user, rfl⟩ := new_domain_of_wrote (wrote_of_write h₁) hd hd₁
      exact ⟨name, st, user, List.mem_cons_self⟩

/-- Scans that a transaction makes appear. -/
theorem new_scan_of_writeAll (h : db.writeAll now ws = .ok db') {x : Id}
    (hx : db.scans.get x = none) (hx' : db'.scans.get x ≠ none) :
    ∃ d st user, .insertScan x d st user ∈ ws := by
  induction ws generalizing db with
  | nil =>
    rw [writeAll_nil h] at hx'
    exact absurd hx hx'
  | cons w ws ih =>
    obtain ⟨db₁, h₁, h₂⟩ := writeAll_cons h
    by_cases hx₁ : db₁.scans.get x = none
    · obtain ⟨d, st, user, hmem⟩ := ih h₂ hx₁
      exact ⟨d, st, user, List.mem_cons_of_mem _ hmem⟩
    · obtain ⟨d, st, user, rfl⟩ := new_scan_of_wrote (wrote_of_write h₁) hx hx₁
      exact ⟨d, st, user, List.mem_cons_self⟩

/-- Domains that a transaction makes disappear. -/
theorem lost_domain_of_writeAll (h : db.writeAll now ws = .ok db') {d : Id}
    (hd : db.domains.get d ≠ none) (hd' : db'.domains.get d = none) : .deleteDomain d ∈ ws := by
  induction ws generalizing db with
  | nil =>
    rw [writeAll_nil h] at hd'
    exact absurd hd' hd
  | cons w ws ih =>
    obtain ⟨db₁, h₁, h₂⟩ := writeAll_cons h
    by_cases hd₁ : db₁.domains.get d = none
    · rw [lost_domain_of_wrote (wrote_of_write h₁) hd hd₁]
      exact List.mem_cons_self
    · exact List.mem_cons_of_mem _ (ih h₂ hd₁)

/-- A scan that is stored after a statement belonged to its domain before, or has been inserted. -/
theorem scan_of_wrote (h : db.Wrote now w db') {x : Id} {row' : Scan}
    (hx : db'.scans.get x = some row') :
    (∃ row, db.scans.get x = some row ∧ row.domainId = row'.domainId) ∨
      ∃ st user, w = .insertScan x row'.domainId st user := by
  cases h with
  | @insertScan id d st user =>
    rw [scans_get_insertScan] at hx
    split at hx
    · next hid =>
      obtain rfl := Option.some.inj hx
      obtain rfl : id = x := hid
      exact Or.inr ⟨st, user, rfl⟩
    · exact Or.inl ⟨row', hx, rfl⟩
  | updateScan =>
    rw [scans_get_updateScan] at hx
    split at hx
    · obtain ⟨row, hrow, rfl⟩ := Option.map_eq_some_iff.1 hx
      exact Or.inl ⟨row, hrow, rfl⟩
    · exact Or.inl ⟨row', hx, rfl⟩
  | deleteDomain =>
    rw [scans_get_deleteDomain] at hx
    exact Or.inl ⟨row', Option.eq_some_of_filter_eq_some hx, rfl⟩
  | _ => exact Or.inl ⟨row', hx, rfl⟩

/-- The scans that are stored after a transaction. -/
theorem scan_of_writeAll (h : db.writeAll now ws = .ok db') {x : Id} {row' : Scan}
    (hx : db'.scans.get x = some row') :
    (∃ row, db.scans.get x = some row ∧ row.domainId = row'.domainId) ∨
      ∃ st user, .insertScan x row'.domainId st user ∈ ws := by
  induction ws generalizing db with
  | nil =>
    rw [writeAll_nil h] at hx
    exact Or.inl ⟨row', hx, rfl⟩
  | cons w ws ih =>
    obtain ⟨db₁, h₁, h₂⟩ := writeAll_cons h
    rcases ih h₂ with ⟨row₁, hrow₁, hd₁⟩ | ⟨st, user, hmem⟩
    · rcases scan_of_wrote (wrote_of_write h₁) hrow₁ with ⟨row, hrow, hd⟩ | ⟨st, user, rfl⟩
      · exact Or.inl ⟨row, hrow, hd.trans hd₁⟩
      · rw [hd₁]
        exact Or.inr ⟨st, user, List.mem_cons_self⟩
    · exact Or.inr ⟨st, user, List.mem_cons_of_mem _ hmem⟩

theorem assetsOf_ne_nil {x : Id} : db.assetsOf x ≠ [] ↔ ∃ a ∈ db.assets, a.scanId = x := by
  simp [assetsOf, List.filter_eq_nil_iff, Table.mem_rows]

/-- Only the deletion of a domain makes an asset disappear. -/
theorem mem_assets_of_wrote (h : db.Wrote now w db') (hw : ∀ d, w ≠ .deleteDomain d) {a : Asset}
    (ha : a ∈ db.assets) : a ∈ db'.assets := by
  cases h with
  | insertAsset _ hid => exact (Table.mem_insert (h := hid)).2 (Or.inl ha)
  | @deleteDomain d => exact absurd rfl (hw d)
  | _ => exact ha

/-- Without a deletion a transaction keeps the assets. -/
theorem mem_assets_of_writeAll (h : db.writeAll now ws = .ok db')
    (hws : ∀ w ∈ ws, ∀ d, w ≠ .deleteDomain d) {a : Asset} (ha : a ∈ db.assets) :
    a ∈ db'.assets := by
  induction ws generalizing db with
  | nil => rwa [writeAll_nil h]
  | cons w ws ih =>
    obtain ⟨db₁, h₁, h₂⟩ := writeAll_cons h
    exact ih h₂ (fun w' hw' ↦ hws w' (List.mem_cons_of_mem _ hw'))
      (mem_assets_of_wrote (wrote_of_write h₁) (hws w List.mem_cons_self) ha)

/-- Only an insertion makes an asset appear. -/
theorem new_asset_of_wrote (h : db.Wrote now w db') {a : Asset} (ha : a ∈ db'.assets) :
    a ∈ db.assets ∨ w = .insertAsset a.id a.scanId a.domainId a.type a.value := by
  cases h with
  | insertAsset _ hid =>
    rcases (Table.mem_insert (h := hid)).1 ha with ha | rfl
    · exact Or.inl ha
    · exact Or.inr rfl
  | deleteDomain => exact Or.inl (Table.mem_filter.1 ha).1
  | _ => exact Or.inl ha

/-- The assets that are stored after a transaction. -/
theorem new_asset_of_writeAll (h : db.writeAll now ws = .ok db') {a : Asset}
    (ha : a ∈ db'.assets) :
    a ∈ db.assets ∨ .insertAsset a.id a.scanId a.domainId a.type a.value ∈ ws := by
  induction ws generalizing db with
  | nil =>
    rw [writeAll_nil h] at ha
    exact Or.inl ha
  | cons w ws ih =>
    obtain ⟨db₁, h₁, h₂⟩ := writeAll_cons h
    rcases ih h₂ with ha₁ | hmem
    · rcases new_asset_of_wrote (wrote_of_write h₁) ha₁ with ha₀ | rfl
      · exact Or.inl ha₀
      · exact Or.inr List.mem_cons_self
    · exact Or.inr (List.mem_cons_of_mem _ hmem)

/-! ### New ids -/

/-- Every id is below the bound. -/
theorem lt_idBound {id : Id} (h : id ∈ db.domains.rows.map Domain.id ∨
    id ∈ db.scans.rows.map Scan.id ∨ id ∈ db.assets.rows.map Asset.id) : id < db.idBound := by
  have hmem : id + 1 ∈ (db.domains.rows.map Domain.id ++ db.scans.rows.map Scan.id ++
      db.assets.rows.map Asset.id).map (· + 1) := by
    refine List.mem_map.2 ⟨id, ?_, rfl⟩
    simp only [List.mem_append]
    exact or_assoc.2 h
  exact List.le_max_of_le' 0 hmem le_rfl

/-- An id above the bound is no key. -/
theorem scans_get_of_idBound_le {id : Id} (h : db.idBound ≤ id) : db.scans.get id = none := by
  refine Table.get_eq_none_iff.2 fun row hrow hid ↦ ?_
  have hlt : id < db.idBound := lt_idBound (Or.inr (Or.inl (List.mem_map.2 ⟨row, hrow, hid⟩)))
  exact absurd h (not_le.2 hlt)

theorem domains_get_of_idBound_le {id : Id} (h : db.idBound ≤ id) :
    db.domains.get id = none := by
  refine Table.get_eq_none_iff.2 fun row hrow hid ↦ ?_
  have hlt : id < db.idBound := lt_idBound (Or.inl (List.mem_map.2 ⟨row, hrow, hid⟩))
  exact absurd h (not_le.2 hlt)

theorem assets_get_of_idBound_le {id : Id} (h : db.idBound ≤ id) : db.assets.get id = none := by
  refine Table.get_eq_none_iff.2 fun row hrow hid ↦ ?_
  have hlt : id < db.idBound := lt_idBound (Or.inr (Or.inr (List.mem_map.2 ⟨row, hrow, hid⟩)))
  exact absurd h (not_le.2 hlt)

end Database

end AssetDiscovery
