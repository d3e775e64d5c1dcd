import AssetDiscovery.Alone.Foreseen

/-!
# Operations on different domains

`trigger_manual_scan`, `delete_domain` and a delivery of a scan, on two different domains, one after
the other: the order does not matter (`DomainOperation.independent`). Both orders give the same
answers, the same messages and the same rows, up to the ids that are drawn and the times that are
stamped on the way, and each operation changes only rows of its own domain and publishes only scans
of it.

Two facts carry this. What an operation does is a function of the view of its domain
(`DomainOperation.execute_eq`), and an operation on another domain leaves that view as it is
(`DomainEffect.CarriedOut.view_eq`). So in either order each operation has the same effect, and the
edits of the two commute.
-/

set_option autoImplicit false

namespace AssetDiscovery

open Effect

/-- An operation on one domain. -/
inductive DomainOperation where
  | trigger (d user : Id)
  | delete (d : Id)
  /-- A delivery of scan `x`; `task` is `request.retries` of the bound task, if there is one. -/
  | deliver (x : Id) (task : Option ℕ)

namespace DomainOperation

/-- The domain that it is on. -/
def On (db : Database) (d : Id) : DomainOperation → Prop
  | trigger d' _ => d' = d
  | delete d' => d' = d
  | deliver x _ => ∃ row, db.scans.get x = some row ∧ row.domainId = d

variable (cfg : Settings) (u : Unicode)

/-- The code that carries it out. -/
def code : DomainOperation → Py Response
  | trigger d user => (Request.trigger d user).code u
  | delete d => (Request.delete d).code u
  | deliver x task => do
    processScan cfg x task
    return .done

/-- What it does to domain `d`, if it draws `x` for a new scan. -/
def effect (w : Outlook) (d x : Id) (v : DomainView) : DomainOperation → DomainEffect
  | trigger _ user => triggerEffect w d user x v
  | delete _ => deleteEffect v
  | deliver x' task => deliveryEffect cfg w x' task v

/-- Carry it out alone in this outlook: the answer and the store that it leaves. -/
def execute (w : Outlook) (ω : ℕ → Env) (s : Store) (op : DomainOperation) :
    Option (Except Exn Response × Store) :=
  ((Py.start (op.code cfg u)).run (serveForeseen w) ω s).map fun r ↦ (r.1, r.2.2)

variable (w : Outlook) {d x : Id} {db : Database} {op : DomainOperation}

/-- Each operation does what its effect says. -/
theorem foreseen (q : Trail) (h : op.On db d) :
    Py.Foreseen w
      (fun a _ db' q' ↦ ∃ x, (op.effect cfg w d x (db.view d)).Describes d db q a db' q')
      (op.code cfg u) .new db q := by
  cases op with
  | trigger d' user =>
    obtain rfl : d' = d := h
    exact Py.foreseen_tryFinally_close Py.foreseen_triggerManualScan
  | delete d' =>
    obtain rfl : d' = d := h
    refine Py.foreseen_tryFinally_close (Py.foreseen_deleteDomain.mono ?_)
    exact fun a _ db' q' hdescribes ↦ ⟨0, hdescribes⟩
  | deliver x task =>
    obtain ⟨row, hx, hd⟩ := h
    refine Py.foreseen_bind ((Py.foreseen_processScan hx hd).mono ?_)
    rintro (e | a) σ db' q' hdescribes
    · exact ⟨0, hdescribes⟩
    · exact Py.foreseen_pure ⟨0, hdescribes⟩

/-- **An operation does what its effect says**, a function of what it sees of its domain. -/
theorem execute_eq {s : Store} (hs : s.Free) (h : op.On s.db d) (ω : ℕ → Env) :
    ∃ a s' x, op.execute cfg u w ω s = some (a, s') ∧ s'.Free ∧
      (op.effect cfg w d x (s.db.view d)).Describes d s.db s.queue a s'.db s'.queue := by
  obtain ⟨a, ω', s', σ, q, hrun, hfree, hqueue, x, hdescribes⟩ :=
    (foreseen cfg u w s.trail h).run hs ω
  refine ⟨a, s', x, ?_, hfree, ?_⟩
  · rw [execute, hrun]
    rfl
  · rw [← hqueue]
    exact hdescribes

end DomainOperation

/-! ### What an operation leaves alone -/

/-- From `s` to `s'` only rows of domain `d`, of its scans and of their assets have changed, and
only its scans have been published. -/
structure Store.ChangesOnly (s : Store) (d : Id) (s' : Store) : Prop where
  domains : ∀ row, row.id ≠ d → (row ∈ s'.db.domains ↔ row ∈ s.db.domains)
  scans : ∀ row, row.domainId ≠ d → (row ∈ s'.db.scans ↔ row ∈ s.db.scans)
  assets : ∀ a, ¬ s.db.Owns d a → (a ∈ s'.db.assets ↔ a ∈ s.db.assets)
  published : ∃ ms, s'.queue = s.queue ++ ms ∧
    ∀ m ∈ ms, ∃ row, s'.db.scans.get m.scan = some row ∧ row.domainId = d

namespace DomainEffect.CarriedOut

variable {o : DomainEffect} {d d' : Id} {db db' : Database} {ps : List ScanPatch}
  {new : List Scan} {as : List Asset}

theorem length_new (h : o.CarriedOut d db ps new as db') : new.length = o.enrolled.length := by
  rw [← h.enrolled, List.length_map]

theorem length_assets (h : o.CarriedOut d db ps new as db') : as.length = o.records.length := by
  rw [← h.records, List.length_map]

/-- An effect changes scans of its domain only. -/
theorem within_scans (h : o.CarriedOut d db ps new as db') :
    (o.scanEdit d ps new).Within fun s ↦ s.domainId = d :=
  within_scanEdit fun s hs ↦ (h.fresh s hs).2

/-- An effect changes assets of its domain only. -/
theorem within_assets (h : o.CarriedOut d db ps new as db') :
    (o.assetEdit d db as).Within (db.Owns d) where
  outside a ha := if_neg fun hdrop ↦ ha hdrop.2
  inside a a' ha hkeep := by
    simp only [assetEdit] at hkeep
    split at hkeep
    · exact absurd hkeep (by simp)
    · exact Option.some.inj hkeep ▸ ha
  added a ha := Or.inl (h.stored a ha).2.2.1

/-- The other domains are there as before. -/
theorem mem_domains (h : o.CarriedOut d db ps new as db') {row : Domain} (hrow : row.id ≠ d) :
    row ∈ db'.domains ↔ row ∈ db.domains := by
  rw [← Table.mem_rows, h.domains]
  exact within_domainEdit.mem_apply hrow

/-- The scans of other domains are there as before. -/
theorem mem_scans (h : o.CarriedOut d db ps new as db') {row : Scan} (hrow : row.domainId ≠ d) :
    row ∈ db'.scans ↔ row ∈ db.scans := by
  rw [← Table.mem_rows, h.scans]
  exact h.within_scans.mem_apply hrow

/-- The assets of other domains are there as before. -/
theorem mem_assets (h : o.CarriedOut d db ps new as db') {a : Asset} (ha : ¬ db.Owns d a) :
    a ∈ db'.assets ↔ a ∈ db.assets := by
  rw [← Table.mem_rows, h.assets]
  exact h.within_assets.mem_apply ha

/-- What another operation sees of its domain is what it would have seen before. -/
theorem view_eq (h : o.CarriedOut d db ps new as db') (hne : d' ≠ d) :
    db'.view d' = db.view d' := by
  have hdomain : db'.domains.get d' = db.domains.get d' := by
    refine Option.ext fun row ↦ ?_
    rw [Table.get_eq_some_iff, Table.get_eq_some_iff]
    refine and_congr_left fun hid ↦ h.mem_domains ?_
    rw [hid]
    exact hne
  have hscans : db'.scansOf d' = db.scansOf d' := by
    rw [Database.scansOf, h.scans]
    refine h.within_scans.filter_apply fun s hs hown ↦ hne ?_
    rw [← hown]
    exact (of_decide_eq_true hs).symm
  rw [Database.view, Database.view, hdomain, hscans]

/-- A scan of the domain is still there, unless it has been removed with the domain. -/
theorem get_scan (h : o.CarriedOut d db ps new as db') (hkept : o.removes = false) {row : Scan}
    (hrow : row ∈ db.scans) (hd : row.domainId = d) :
    db'.scans.get row.id = some (row.marked o.scan ps) := by
  have hmem : row.marked o.scan ps ∈ db'.scans := by
    rw [← Table.mem_rows, h.scans, Edit.mem_apply]
    refine Or.inl ⟨row, hrow, ?_⟩
    simp [scanEdit, hd, hkept]
  have hget := Table.get_key hmem
  rwa [Scan.marked_id] at hget

/-- So the scans that the operation saw are there afterwards, unless it has removed them. -/
theorem isSome_get_own (h : o.CarriedOut d db ps new as db') (hkept : o.removes = false)
    {row : Scan} (hrow : row ∈ db.scansOf d) : (db'.scans.get row.id).isSome := by
  obtain ⟨hmem, hd⟩ := List.mem_filter.1 hrow
  rw [h.get_scan hkept hmem (of_decide_eq_true hd)]
  rfl

/-- The scans of other domains are there afterwards. -/
theorem isSome_get_other (h : o.CarriedOut d db ps new as db') {row : Scan} (hrow : row ∈ db.scans)
    (hd : row.domainId ≠ d) : (db'.scans.get row.id).isSome :=
  Table.isSome_get_key ((h.mem_scans hd).2 hrow)

theorem get_new (h : o.CarriedOut d db ps new as db') {row : Scan} (hrow : row ∈ new) :
    db'.scans.get row.id = some row := by
  refine Table.get_key ?_
  rw [← Table.mem_rows, h.scans, Edit.mem_apply]
  exact Or.inr hrow

/-- The assets that belong to another domain are the same. -/
theorem owns_iff (h : o.CarriedOut d db ps new as db') (hne : d' ≠ d) (a : Asset) :
    db'.Owns d' a ↔ db.Owns d' a := by
  refine or_congr_right ?_
  have hscan : ∀ s : Scan, s.domainId = d' →
      (db'.scans.get a.scanId = some s ↔ db.scans.get a.scanId = some s) := by
    intro s hs
    rw [Table.get_eq_some_iff, Table.get_eq_some_iff]
    refine and_congr_left fun _ ↦ h.mem_scans ?_
    rw [hs]
    exact hne
  constructor
  · rintro ⟨s, hget, hs⟩
    exact ⟨s, (hscan s hs).1 hget, hs⟩
  · rintro ⟨s, hget, hs⟩
    exact ⟨s, (hscan s hs).2 hget, hs⟩

theorem mem_assets_new (h : o.CarriedOut d db ps new as db') {a : Asset} (ha : a ∈ as) :
    a ∈ db'.assets := by
  rw [← Table.mem_rows, h.assets, Edit.mem_apply]
  exact Or.inr ha

/-- A new asset belongs to no other domain. -/
theorem not_owns_new (h : o.CarriedOut d db ps new as db') (hne : d' ≠ d) {a : Asset}
    (ha : a ∈ as) : ¬ db'.Owns d' a := by
  rw [h.owns_iff hne]
  obtain ⟨-, hscan, hd, s, hs, hid, hsd⟩ := h.stored a ha
  rintro (hd' | ⟨s', hs', hd'⟩)
  · exact hne (hd'.symm.trans hd)
  · rw [hscan, ← hid, Table.get_key hs] at hs'
    rw [← Option.some.inj hs'] at hd'
    exact hne (hd'.symm.trans hsd)

/-- The scan for which assets are stored is there before and afterwards. -/
theorem exists_scan (h : o.CarriedOut d db ps new as db') (has : as ≠ []) :
    ∃ s ∈ db.scans, s.id = o.scan ∧ s.domainId = d ∧ (db'.scans.get s.id).isSome := by
  obtain ⟨a, ha⟩ := List.exists_mem_of_ne_nil as has
  obtain ⟨-, hscan, -, s, hs, hid, hsd⟩ := h.stored a ha
  refine ⟨s, hs, hid, hsd, ?_⟩
  rw [hid, ← hscan]
  exact db'.asset_scan a (h.mem_assets_new ha)

/-- An asset that is not removed is there afterwards. -/
theorem mem_assets_of_keep (h : o.CarriedOut d db ps new as db') {a : Asset} (ha : a ∈ db.assets)
    (hkeep : ¬ (o.removes = true ∧ db.Owns d a)) : a ∈ db'.assets := by
  rw [← Table.mem_rows, h.assets, Edit.mem_apply]
  exact Or.inl ⟨a, ha, if_neg hkeep⟩

end DomainEffect.CarriedOut

/-- An effect on one domain is not seen from another. -/
theorem DomainEffect.Describes.view_eq {o : DomainEffect} {d d' : Id} {db db' : Database}
    {q q' : List Message} {a : Except Exn Response} (h : o.Describes d db q a db' q')
    (hne : d' ≠ d) : db'.view d' = db.view d' := by
  obtain ⟨-, -, ps, new, as, hrows⟩ := h
  exact hrows.view_eq hne

namespace DomainOperation

variable {cfg : Settings} {w : Outlook} {d d' x : Id} {db db' : Database} {op : DomainOperation}

/-- An operation is still on its domain when another domain has been worked on. -/
theorem On.of_view_eq (h : op.On db d) (hview : db'.view d = db.view d) : op.On db' d := by
  cases op with
  | trigger | delete => exact h
  | deliver x task =>
    obtain ⟨row, hx, hd⟩ := h
    have hscans : db'.scansOf d = db.scansOf d := congrArg DomainView.scans hview
    have hmem : row ∈ db'.scansOf d := by
      rw [hscans]
      exact List.mem_filter.2 ⟨Table.mem_of_get hx, decide_eq_true hd⟩
    refine ⟨row, ?_, hd⟩
    rw [← Table.key_of_get hx]
    exact Table.get_key (List.mem_filter.1 hmem).1

/-- What is published is a new scan, or one of those that the operation saw and leaves. -/
theorem published {m : Message}
    (hm : m ∈ (op.effect cfg w d x (db.view d)).published) :
    (∃ s ∈ (op.effect cfg w d x (db.view d)).enrolled, s.id = m.scan) ∨
      (op.effect cfg w d x (db.view d)).removes = false ∧ ∃ s ∈ db.scansOf d, s.id = m.scan := by
  cases op with
  | trigger d' user => exact Or.inl (triggerEffect_published m hm)
  | delete d' =>
    have hnone : m ∈ (deleteEffect (db.view d)).published := hm
    rw [(deleteEffect_published (db.view d)).1] at hnone
    exact absurd hnone List.not_mem_nil
  | deliver x' task =>
    have hjob := isJob_deliveryEffect cfg w x' task (db.view d)
    exact Or.inr ⟨hjob.removes, hjob.published m hm⟩

/-- **Each operation changes only rows of its own domain, its scans and their assets, and publishes
only scans of its own domain.** -/
theorem changesOnly {s s' : Store} {a : Except Exn Response}
    (h : (op.effect cfg w d x (s.db.view d)).Describes d s.db s.queue a s'.db s'.queue) :
    s.ChangesOnly d s' := by
  obtain ⟨-, hqueue, ps, new, as, hcarried⟩ := h
  refine ⟨fun _ ↦ hcarried.mem_domains, fun _ ↦ hcarried.mem_scans, fun _ ↦ hcarried.mem_assets,
    _, hqueue, fun m hm ↦ ?_⟩
  rcases published hm with ⟨row, hrow, hid⟩ | ⟨hkept, row, hrow, hid⟩
  · rw [← hcarried.enrolled] at hrow
    obtain ⟨row', hrow', rfl⟩ := List.mem_map.1 hrow
    refine ⟨row', ?_, (hcarried.fresh row' hrow').2⟩
    rw [← hid]
    exact hcarried.get_new hrow'
  · obtain ⟨hmem, hd⟩ := List.mem_filter.1 hrow
    rw [← hid]
    exact ⟨_, hcarried.get_scan hkept hmem (of_decide_eq_true hd),
      (Scan.marked_domainId ps).trans (of_decide_eq_true hd)⟩

end DomainOperation

/-! ### Up to ids and times -/

/-- The message, with its scan renamed. -/
def Message.rename (ρ : Id → Id) (m : Message) : Message :=
  { m with scan := ρ m.scan }

/-- The row of a scan, with its id renamed. -/
def Scan.rename (ρ : Id → Id) (s : Scan) : Scan :=
  { s with id := ρ s.id }

/-- The row of an asset, with its id renamed by `α` and that of its scan by `ρ`. -/
def Asset.rename (ρ α : Id → Id) (a : Asset) : Asset :=
  { a with id := α a.id, scanId := ρ a.scanId }

/-- The answer, with the scan that it names renamed. -/
def Response.rename (ρ : Id → Id) : Response → Response
  | domain d name st => .domain d name st
  | trigger x st => .trigger (ρ x) st
  | done => .done

/-- The effect, with the new scan renamed. -/
def DomainEffect.rename (ρ : Id → Id) (o : DomainEffect) : DomainEffect :=
  { o with
    answer := o.answer.map (Response.rename ρ)
    published := o.published.map (Message.rename ρ)
    enrolled := o.enrolled.map (Scan.rename ρ) }

/-- The same rows in both databases, up to their order, the times in them, and a renaming of scans
by `ρ` and of assets by `α`. -/
structure Database.Alike (ρ α : Id → Id) (db db' : Database) : Prop where
  domains : db.domains = db'.domains
  scans : (db.scans.rows.map fun s ↦ (s.rename ρ).timeless).Perm (db'.scans.rows.map Scan.timeless)
  assets :
    (db.assets.rows.map fun a ↦ (a.rename ρ α).timeless).Perm (db'.assets.rows.map Asset.timeless)

namespace DomainOperation

variable {cfg : Settings} {w : Outlook} {d x x' : Id} {v : DomainView} {op : DomainOperation}
  {ρ : Id → Id}

/-- How much an operation adds and removes does not depend on the new id. -/
theorem effect_size (op : DomainOperation) (cfg : Settings) (w : Outlook) (d x x' : Id)
    (v : DomainView) :
    (op.effect cfg w d x v).enrolled.length = (op.effect cfg w d x' v).enrolled.length ∧
      (op.effect cfg w d x v).records = (op.effect cfg w d x' v).records ∧
      (op.effect cfg w d x v).removes = (op.effect cfg w d x' v).removes := by
  cases op with
  | trigger d' user =>
    simp only [effect, triggerEffect]
    cases v.domain with
    | none => exact ⟨rfl, rfl, rfl⟩
    | some row => by_cases hactive : v.Active <;> simp [hactive]
  | delete | deliver => exact ⟨rfl, rfl, rfl⟩

/-- Another new id makes the same effect, renamed. -/
theorem effect_rename
    (hnew : (op.effect cfg w d x v).enrolled.map (fun s ↦ ρ s.id) =
      (op.effect cfg w d x' v).enrolled.map Scan.id)
    (hold : (op.effect cfg w d x v).removes = false → ∀ s ∈ v.scans, ρ s.id = s.id) :
    op.effect cfg w d x' v = (op.effect cfg w d x v).rename ρ := by
  cases op with
  | trigger d' user =>
    simp only [effect, triggerEffect] at hnew ⊢
    cases hd : v.domain with
    | none => rfl
    | some row =>
      simp only [hd] at hnew ⊢
      by_cases hactive : v.Active
      · simp only [if_pos hactive]
        rfl
      · simp only [if_neg hactive] at hnew ⊢
        obtain rfl : ρ x = x' := by simpa using hnew
        cases w.up <;> rfl
  | delete d' =>
    simp only [effect, deleteEffect]
    cases v.domain <;> rfl
  | deliver y task =>
    have hjob := isJob_deliveryEffect cfg w y task v
    obtain ⟨a, ha⟩ := hjob.answer
    have hanswer : (deliveryEffect cfg w y task v).answer.map (Response.rename ρ) =
        (deliveryEffect cfg w y task v).answer := by
      rw [ha]
      cases a <;> rfl
    have hpublished : (deliveryEffect cfg w y task v).published.map (Message.rename ρ) =
        (deliveryEffect cfg w y task v).published := by
      refine (List.map_congr_left fun m hm ↦ ?_).trans (List.map_id _)
      obtain ⟨s, hs, hid⟩ := hjob.published m hm
      rw [Message.rename, ← hid, hold hjob.removes s hs, hid]
      rfl
    simp only [effect, DomainEffect.rename, hanswer, hpublished, hjob.enrolled, List.map_nil]
    rw [← hjob.enrolled]

end DomainOperation

/-! ### Both orders -/

section BothOrders

variable {o₁ o₂ : DomainEffect} {d₁ d₂ : Id} {db db₁ db₂ db₁₂ db₂₁ : Database}
  {ps₁ ps₁' ps₂ ps₂' : List ScanPatch} {new₁ new₁' new₂ new₂' : List Scan}
  {as₁ as₁' as₂ as₂' : List Asset} {ρ α : Equiv.Perm Id}

/-- The ids that are drawn in one order can be renamed to those that are drawn in the other. -/
theorem exists_renamings {o₁' o₂' : DomainEffect} (hne : d₁ ≠ d₂)
    (h₁ : o₁.CarriedOut d₁ db ps₁ new₁ as₁ db₁) (h₂ : o₂.CarriedOut d₂ db₁ ps₂ new₂ as₂ db₁₂)
    (h₂' : o₂'.CarriedOut d₂ db ps₂' new₂' as₂' db₂)
    (h₁' : o₁'.CarriedOut d₁ db₂ ps₁' new₁' as₁' db₂₁)
    (hnew₁ : new₁.length = new₁'.length) (hnew₂ : new₂.length = new₂'.length)
    (has₁ : as₁.length = as₁'.length) (has₂ : as₂.length = as₂'.length) :
    ∃ ρ α : Equiv.Perm Id,
      db.scans.Fixes db₁.scans db₂.scans ρ ∧ db.assets.Fixes db₁.assets db₂.assets α ∧
      new₁.map (fun s ↦ ρ s.id) = new₁'.map Scan.id ∧
      new₂.map (fun s ↦ ρ s.id) = new₂'.map Scan.id ∧
      as₁.map (fun a ↦ α a.id) = as₁'.map Asset.id ∧
      as₂.map (fun a ↦ α a.id) = as₂'.map Asset.id := by
  obtain ⟨ρ, hρ₁, hρ₂, hρ⟩ := Table.exists_renaming h₁.scans h₂.scans h₂'.scans h₁'.scans
    (fun s hs ↦ h₂.within_scans.outside s fun hd ↦ hne ((h₁.fresh s hs).2.symm.trans hd))
    (fun s hs ↦ h₁'.within_scans.outside s fun hd ↦ hne (hd.symm.trans (h₂'.fresh s hs).2))
    (fun s hs ↦ (h₁.fresh s hs).1) (fun s hs ↦ (h₂.fresh s hs).1) (fun s hs ↦ (h₂'.fresh s hs).1)
    (fun s hs ↦ (h₁'.fresh s hs).1) hnew₁ hnew₂
  obtain ⟨α, hα₁, hα₂, hα⟩ := Table.exists_renaming h₁.assets h₂.assets h₂'.assets h₁'.assets
    (fun a ha ↦ if_neg fun hdrop ↦ h₁.not_owns_new hne.symm ha hdrop.2)
    (fun a ha ↦ if_neg fun hdrop ↦ h₂'.not_owns_new hne ha hdrop.2)
    (fun a ha ↦ (h₁.stored a ha).1) (fun a ha ↦ (h₂.stored a ha).1)
    (fun a ha ↦ (h₂'.stored a ha).1) (fun a ha ↦ (h₁'.stored a ha).1) has₁ has₂
  exact ⟨ρ, α, hρ, hα, hρ₁, hρ₂, hα₁, hα₂⟩

/-- What becomes of the scans of a domain in either order, up to times and renaming. -/
theorem map_keep_scanEdit {o : DomainEffect} {d : Id} {ps ps' : List ScanPatch}
    {new new' : List Scan} {s : Scan} (hps : ps.map ScanPatch.timeless = ps'.map ScanPatch.timeless)
    (hd : s.domainId = d) (hfix : o.removes = false → ρ s.id = s.id) :
    ((o.scanEdit d ps new).keep s).map (fun s ↦ (s.rename ρ).timeless) =
      (((o.rename ρ).scanEdit d ps' new').keep s).map Scan.timeless := by
  simp only [DomainEffect.scanEdit, if_pos hd]
  show Option.map _ (if o.removes then none else some (s.marked o.scan ps)) =
    Option.map _ (if o.removes then none else some (s.marked o.scan ps'))
  by_cases hremoves : o.removes = true
  · rw [if_pos hremoves, if_pos hremoves]
    rfl
  · have hid : (s.marked o.scan ps).rename ρ = s.marked o.scan ps := by
      rw [Scan.rename, Scan.marked_id, hfix (Bool.not_eq_true _ ▸ hremoves),
        ← Scan.marked_id (x := o.scan) ps]
    rw [if_neg hremoves, if_neg hremoves, Option.map_some, Option.map_some, hid,
      Scan.timeless_marked_congr hps]

/-- The new assets of an operation in either order. -/
theorem map_added_assets {x d : Id} {as as' : List Asset}
    (hids : as.map (fun a ↦ α a.id) = as'.map Asset.id)
    (hrecords : as.map Database.recordOf = as'.map Database.recordOf)
    (hof : ∀ a ∈ as, a.scanId = x ∧ a.domainId = d)
    (hof' : ∀ a ∈ as', a.scanId = x ∧ a.domainId = d) (hx : as ≠ [] → ρ x = x) :
    as.map (fun a ↦ (a.rename ρ α).timeless) = as'.map Asset.timeless := by
  have hrow : ∀ as' : List Asset, (∀ a ∈ as', a.scanId = x ∧ a.domainId = d) →
      as'.map Asset.timeless = List.zipWith (fun id r ↦ ⟨id, x, d, r.1, r.2, 0⟩)
        (as'.map Asset.id) (as'.map Database.recordOf) := by
    intro as' hof'
    rw [List.zipWith_map, List.zipWith_self]
    refine List.map_congr_left fun a ha ↦ ?_
    rw [← (hof' a ha).1, ← (hof' a ha).2]
    rfl
  rw [hrow as' hof', ← hids, ← hrecords, List.zipWith_map, List.zipWith_self]
  refine List.map_congr_left fun a ha ↦ ?_
  obtain ⟨hscan, hd⟩ := hof a ha
  rw [Asset.rename, Asset.timeless, hscan, hd, hx (List.ne_nil_of_mem ha)]
  rfl

variable (hne : d₁ ≠ d₂) (h₁ : o₁.CarriedOut d₁ db ps₁ new₁ as₁ db₁)
  (h₂ : o₂.CarriedOut d₂ db₁ ps₂ new₂ as₂ db₁₂)
  (h₂' : (o₂.rename ρ).CarriedOut d₂ db ps₂' new₂' as₂' db₂)
  (h₁' : (o₁.rename ρ).CarriedOut d₁ db₂ ps₁' new₁' as₁' db₂₁)
  (hρ : db.scans.Fixes db₁.scans db₂.scans ρ) (hα : db.assets.Fixes db₁.assets db₂.assets α)

include hne h₁ h₂ h₂' h₁'

/-- Both orders lead to the same domains. -/
theorem domains_eq : db₁₂.domains = db₂₁.domains := by
  refine Table.ext ?_
  rw [h₂.domains, h₁.domains, h₁'.domains, h₂'.domains]
  refine Edit.apply_apply_eq (fun row _ ↦ ?_) rfl rfl rfl rfl
  have hbind := Edit.bind_keep_eq (f := id) (g := id)
    (DomainEffect.within_domainEdit (o := o₁) (d := d₁))
    (DomainEffect.within_domainEdit (o := o₂) (d := d₂))
    (DomainEffect.within_domainEdit (o := o₁.rename ρ) (d := d₁))
    (DomainEffect.within_domainEdit (o := o₂.rename ρ) (d := d₂))
    (fun row hid hid' ↦ hne (hid.symm.trans hid')) (r := row) (fun _ ↦ rfl) (fun _ ↦ rfl)
    fun _ _ ↦ rfl
  simpa only [Option.map_id, id] using hbind

include hρ

/-- Both orders lead to the same scans, up to their order, their new ids and their times. -/
theorem scans_perm : (db₁₂.scans.rows.map fun s ↦ (s.rename ρ).timeless).Perm
    (db₂₁.scans.rows.map Scan.timeless) := by
  rw [h₂.scans, h₁.scans, h₁'.scans, h₂'.scans]
  have hadded : ∀ {o : DomainEffect} {d d' : Id} {db db' db₀ db₀' : Database}
      {ps ps' : List ScanPatch} {new new' : List Scan} {as as' : List Asset},
      o.CarriedOut d db ps new as db' → (o.rename ρ).CarriedOut d' db₀ ps' new' as' db₀' →
      new.map (fun s ↦ (s.rename ρ).timeless) = new'.map Scan.timeless := by
    intro o d d' db db' db₀ db₀' ps ps' new new' as as' h h'
    rw [h'.enrolled]
    show _ = o.enrolled.map (Scan.rename ρ)
    rw [← h.enrolled, List.map_map]
    rfl
  -- a scan of the table: changed by neither, by one, or by both, which `hne` excludes
  refine Edit.perm_apply_apply (fun s hs ↦ ?_) (fun s hs ↦ ?_) (fun s hs ↦ ?_) (hadded h₁ h₁')
    (hadded h₂ h₂')
  · refine Edit.bind_keep_eq h₁.within_scans h₂.within_scans h₁'.within_scans h₂'.within_scans
      (fun s hd hd' ↦ hne (hd.symm.trans hd')) (fun hd ↦ ?_) (fun hd ↦ ?_) fun hd hd' ↦ ?_
    · refine map_keep_scanEdit (h₁.marks.trans h₁'.marks.symm) hd fun hkept ↦ ?_
      exact hρ s.id (Table.isSome_get_key hs)
        (h₁.isSome_get_own hkept (List.mem_filter.2 ⟨hs, decide_eq_true hd⟩))
        (h₂'.isSome_get_other hs fun hd' ↦ hne (hd.symm.trans hd'))
    · refine map_keep_scanEdit (h₂.marks.trans h₂'.marks.symm) hd fun hkept ↦ ?_
      exact hρ s.id (Table.isSome_get_key hs)
        (h₁.isSome_get_other hs fun hd' ↦ hne (hd'.symm.trans hd))
        (h₂'.isSome_get_own hkept (List.mem_filter.2 ⟨hs, decide_eq_true hd⟩))
    · have hid : ρ s.id = s.id := hρ s.id (Table.isSome_get_key hs) (h₁.isSome_get_other hs hd)
        (h₂'.isSome_get_other hs hd')
      rw [Scan.rename, hid]
  · exact h₂.within_scans.outside s fun hd ↦ hne ((h₁.fresh s hs).2.symm.trans hd)
  · exact h₁'.within_scans.outside s fun hd ↦ hne (hd.symm.trans (h₂'.fresh s hs).2)

include hα

/-- Both orders lead to the same assets, up to their order, their new ids and their times. -/
theorem assets_perm (hα₁ : as₁.map (fun a ↦ α a.id) = as₁'.map Asset.id)
    (hα₂ : as₂.map (fun a ↦ α a.id) = as₂'.map Asset.id) :
    (db₁₂.assets.rows.map fun a ↦ (a.rename ρ α).timeless).Perm
      (db₂₁.assets.rows.map Asset.timeless) := by
  rw [h₂.assets, h₁.assets, h₁'.assets, h₂'.assets]
  refine Edit.perm_apply_apply (fun a ha ↦ ?_) (fun a ha ↦ ?_) (fun a ha ↦ ?_) ?_ ?_
  · -- both orders drop the assets that either operation removes, and no others
    have hkeep₂ : (o₂.assetEdit d₂ db₁ as₂).keep a =
        if o₂.removes ∧ db.Owns d₂ a then none else some a := by
      simp only [DomainEffect.assetEdit, h₁.owns_iff hne.symm]
    have hkeep₁' : ((o₁.rename ρ).assetEdit d₁ db₂ as₁').keep a =
        if o₁.removes ∧ db.Owns d₁ a then none else some a := by
      simp only [DomainEffect.assetEdit, h₂'.owns_iff hne]
      rfl
    by_cases hdrop₁ : o₁.removes = true ∧ db.Owns d₁ a
    · have hkeep₁ : (o₁.assetEdit d₁ db as₁).keep a = none := if_pos hdrop₁
      rw [if_pos hdrop₁] at hkeep₁'
      rw [hkeep₁]
      by_cases hdrop₂ : o₂.removes = true ∧ db.Owns d₂ a
      · have hkeep₂' : ((o₂.rename ρ).assetEdit d₂ db as₂').keep a = none := if_pos hdrop₂
        rw [hkeep₂']
        rfl
      · have hkeep₂' : ((o₂.rename ρ).assetEdit d₂ db as₂').keep a = some a := if_neg hdrop₂
        rw [hkeep₂', Option.bind_some, hkeep₁']
        rfl
    have hkeep₁ : (o₁.assetEdit d₁ db as₁).keep a = some a := if_neg hdrop₁
    rw [if_neg hdrop₁] at hkeep₁'
    rw [hkeep₁, Option.bind_some, hkeep₂]
    by_cases hdrop₂ : o₂.removes = true ∧ db.Owns d₂ a
    · have hkeep₂' : ((o₂.rename ρ).assetEdit d₂ db as₂').keep a = none := if_pos hdrop₂
      rw [hkeep₂', if_pos hdrop₂]
      rfl
    have hkeep₂' : ((o₂.rename ρ).assetEdit d₂ db as₂').keep a = some a := if_neg hdrop₂
    rw [hkeep₂', if_neg hdrop₂, Option.bind_some, hkeep₁', Option.map_some, Option.map_some]
    have ha₁ := h₁.mem_assets_of_keep ha hdrop₁
    have ha₂ := h₂'.mem_assets_of_keep ha hdrop₂
    rw [Asset.rename,
      hρ a.scanId (db.asset_scan a ha) (db₁.asset_scan a ha₁) (db₂.asset_scan a ha₂),
      hα a.id (Table.isSome_get_key ha) (Table.isSome_get_key ha₁) (Table.isSome_get_key ha₂)]
  · exact if_neg fun hdrop ↦ h₁.not_owns_new hne.symm ha hdrop.2
  · exact if_neg fun hdrop ↦ h₂'.not_owns_new hne ha hdrop.2
  · refine map_added_assets hα₁ (h₁.records.trans h₁'.records.symm)
      (fun a ha ↦ ⟨(h₁.stored a ha).2.1, (h₁.stored a ha).2.2.1⟩)
      (fun a ha ↦ ⟨(h₁'.stored a ha).2.1, (h₁'.stored a ha).2.2.1⟩) fun has ↦ ?_
    obtain ⟨s, hs, hid, hd, hs₁⟩ := h₁.exists_scan has
    rw [← hid]
    exact hρ s.id (Table.isSome_get_key hs) hs₁
      (h₂'.isSome_get_other hs fun hd' ↦ hne (hd.symm.trans hd'))
  -- what the second operation stores is of a scan that the first one has not touched
  · refine map_added_assets hα₂ (h₂.records.trans h₂'.records.symm)
      (fun a ha ↦ ⟨(h₂.stored a ha).2.1, (h₂.stored a ha).2.2.1⟩)
      (fun a ha ↦ ⟨(h₂'.stored a ha).2.1, (h₂'.stored a ha).2.2.1⟩) fun has ↦ ?_
    have has' : as₂' ≠ [] := by
      rintro rfl
      exact has (List.map_eq_nil_iff.1 hα₂)
    obtain ⟨s, hs, hid, hd, hs₂⟩ := h₂'.exists_scan has'
    have hid' : s.id = o₂.scan := hid
    rw [← hid']
    exact hρ s.id (Table.isSome_get_key hs)
      (h₁.isSome_get_other hs fun hd' ↦ hne (hd'.symm.trans hd)) hs₂

end BothOrders

/-- From `s`, by way of `s₁` in one order and of `s₂` in the other, the same operations have led to
`s₁₂` and `s₂₁`. Up to times and to the ids that were drawn on the way, which `ρ` and `α` rename,
the rows and the published messages are the same; no row that is there all along is renamed. -/
structure Store.SameEnds (ρ α : Equiv.Perm Id) (s s₁ s₁₂ s₂ s₂₁ : Store) : Prop where
  scans : s.db.scans.Fixes s₁.db.scans s₂.db.scans ρ
  assets : s.db.assets.Fixes s₁.db.assets s₂.db.assets α
  alike : s₁₂.db.Alike ρ α s₂₁.db
  published : ∃ ms ms', s₁₂.queue = s.queue ++ ms ∧ s₂₁.queue = s.queue ++ ms' ∧
    (ms.map (Message.rename ρ)).Perm ms'

namespace DomainOperation

/-- From `s`, `op₁` on `d₁` and `op₂` on `d₂` run to their ends in either order, with the same
answers, the same rows and the same messages up to ids and times, and each changes only rows of its
domain and publishes only scans of it. The times that pass and the ids that are drawn may differ
between all four runs. -/
def Commute (cfg : Settings) (u : Unicode) (s : Store) (d₁ d₂ : Id) (op₁ op₂ : DomainOperation)
    (w₁ w₂ : Outlook) : Prop :=
  ∀ ω₁ ω₂ ω₂' ω₁' : ℕ → Env, ∃ a₁ s₁ a₂ s₁₂ a₂' s₂ a₁' s₂₁,
    (op₁.execute cfg u w₁ ω₁ s = some (a₁, s₁) ∧ op₂.execute cfg u w₂ ω₂ s₁ = some (a₂, s₁₂)) ∧
    (op₂.execute cfg u w₂ ω₂' s = some (a₂', s₂) ∧ op₁.execute cfg u w₁ ω₁' s₂ = some (a₁', s₂₁)) ∧
    (s.ChangesOnly d₁ s₁ ∧ s₁.ChangesOnly d₂ s₁₂ ∧ s.ChangesOnly d₂ s₂ ∧ s₂.ChangesOnly d₁ s₂₁) ∧
    ∃ ρ α : Equiv.Perm Id, a₁' = a₁.map (Response.rename ρ) ∧ a₂' = a₂.map (Response.rename ρ) ∧
      Store.SameEnds ρ α s s₁ s₁₂ s₂ s₂₁

section Commute

variable {cfg : Settings} {u : Unicode} {op₁ op₂ : DomainOperation} {d₁ d₂ x₁ x₁' x₂ x₂' : Id}
  {w₁ w₂ : Outlook} {s s₁ s₂ s₁₂ s₂₁ : Store} {a₁ a₁' a₂ a₂' : Except Exn Response}

/-- Where each operation sees the same in both orders, both orders end alike. -/
theorem exists_sameEnds (hne : d₁ ≠ d₂)
    (h₁ : (op₁.effect cfg w₁ d₁ x₁ (s.db.view d₁)).Describes d₁ s.db s.queue a₁ s₁.db s₁.queue)
    (h₂ : (op₂.effect cfg w₂ d₂ x₂ (s.db.view d₂)).Describes d₂ s₁.db s₁.queue a₂ s₁₂.db s₁₂.queue)
    (h₂' : (op₂.effect cfg w₂ d₂ x₂' (s.db.view d₂)).Describes d₂ s.db s.queue a₂' s₂.db s₂.queue)
    (h₁' : (op₁.effect cfg w₁ d₁ x₁' (s.db.view d₁)).Describes d₁ s₂.db s₂.queue a₁' s₂₁.db
      s₂₁.queue) :
    ∃ ρ α : Equiv.Perm Id, a₁' = a₁.map (Response.rename ρ) ∧ a₂' = a₂.map (Response.rename ρ) ∧
      Store.SameEnds ρ α s s₁ s₁₂ s₂ s₂₁ := by
  obtain ⟨rfl, hqueue₁, ps₁, new₁, as₁, h₁⟩ := h₁
  obtain ⟨rfl, hqueue₂, ps₂, new₂, as₂, h₂⟩ := h₂
  obtain ⟨rfl, hqueue₂', ps₂', new₂', as₂', h₂'⟩ := h₂'
  obtain ⟨rfl, hqueue₁', ps₁', new₁', as₁', h₁'⟩ := h₁'
  obtain ⟨hnew₁, hrecords₁, -⟩ := op₁.effect_size cfg w₁ d₁ x₁ x₁' (s.db.view d₁)
  obtain ⟨hnew₂, hrecords₂, hremoves₂⟩ := op₂.effect_size cfg w₂ d₂ x₂ x₂' (s.db.view d₂)
  obtain ⟨ρ, α, hρ, hα, hρ₁, hρ₂, hα₁, hα₂⟩ := exists_renamings hne h₁ h₂ h₂' h₁'
    (by rw [h₁.length_new, h₁'.length_new, hnew₁]) (by rw [h₂.length_new, h₂'.length_new, hnew₂])
    (by rw [h₁.length_assets, h₁'.length_assets, hrecords₁])
    (by rw [h₂.length_assets, h₂'.length_assets, hrecords₂])
  -- so the effects of the second order are those of the first, renamed
  have heffect₁ : op₁.effect cfg w₁ d₁ x₁' (s.db.view d₁) =
      (op₁.effect cfg w₁ d₁ x₁ (s.db.view d₁)).rename ρ := by
    refine effect_rename ?_ fun hkept row hrow ↦ ?_
    · rw [← h₁.enrolled, ← h₁'.enrolled, List.map_map, List.map_map]
      exact hρ₁
    · obtain ⟨hmem, hd⟩ := List.mem_filter.1 hrow
      exact hρ row.id (Table.isSome_get_key hmem) (h₁.isSome_get_own hkept hrow)
        (h₂'.isSome_get_other hmem fun hd' ↦ hne ((of_decide_eq_true hd).symm.trans hd'))
  have heffect₂ : op₂.effect cfg w₂ d₂ x₂' (s.db.view d₂) =
      (op₂.effect cfg w₂ d₂ x₂ (s.db.view d₂)).rename ρ := by
    refine effect_rename ?_ fun hkept row hrow ↦ ?_
    · rw [← h₂.enrolled, ← h₂'.enrolled, List.map_map, List.map_map]
      exact hρ₂
    · obtain ⟨hmem, hd⟩ := List.mem_filter.1 hrow
      exact hρ row.id (Table.isSome_get_key hmem)
        (h₁.isSome_get_other hmem fun hd' ↦ hne (hd'.symm.trans (of_decide_eq_true hd)))
        (h₂'.isSome_get_own (hremoves₂.symm.trans hkept) hrow)
  rw [heffect₁] at h₁' hqueue₁'
  rw [heffect₂] at h₂' hqueue₂'
  rw [hqueue₁] at hqueue₂
  rw [hqueue₂'] at hqueue₁'
  refine ⟨ρ, α, by rw [heffect₁]; rfl, by rw [heffect₂]; rfl, hρ, hα,
    ⟨domains_eq hne h₁ h₂ h₂' h₁', scans_perm hne h₁ h₂ h₂' h₁' hρ,
      assets_perm hne h₁ h₂ h₂' h₁' hρ hα hα₁ hα₂⟩,
    _, _, hqueue₂.trans (List.append_assoc ..), hqueue₁'.trans (List.append_assoc ..), ?_⟩
  rw [List.map_append]
  exact List.perm_append_comm

variable (cfg u w₁ w₂) in
/-- **Operations on different domains are independent.** -/
theorem independent (hne : d₁ ≠ d₂) (hs : s.Free) (hop₁ : op₁.On s.db d₁)
    (hop₂ : op₂.On s.db d₂) : Commute cfg u s d₁ d₂ op₁ op₂ w₁ w₂ := by
  intro ω₁ ω₂ ω₂' ω₁'
  obtain ⟨a₁, s₁, x₁, hrun₁, hs₁, h₁⟩ := execute_eq cfg u w₁ hs hop₁ ω₁
  obtain ⟨a₂', s₂, x₂', hrun₂', hs₂, h₂'⟩ := execute_eq cfg u w₂ hs hop₂ ω₂'
  -- each operation sees the same of its domain after the other as before
  have hview₁ : s₂.db.view d₁ = s.db.view d₁ := h₂'.view_eq hne
  have hview₂ : s₁.db.view d₂ = s.db.view d₂ := h₁.view_eq hne.symm
  obtain ⟨a₂, s₁₂, x₂, hrun₂, -, h₂⟩ := execute_eq cfg u w₂ hs₁ (hop₂.of_view_eq hview₂) ω₂
  obtain ⟨a₁', s₂₁, x₁', hrun₁', -, h₁'⟩ := execute_eq cfg u w₁ hs₂ (hop₁.of_view_eq hview₁) ω₁'
  refine ⟨a₁, s₁, a₂, s₁₂, a₂', s₂, a₁', s₂₁, ⟨hrun₁, hrun₂⟩, ⟨hrun₂', hrun₁'⟩,
    ⟨changesOnly h₁, changesOnly h₂, changesOnly h₂', changesOnly h₁'⟩, ?_⟩
  rw [hview₂] at h₂
  rw [hview₁] at h₁'
  exact exists_sameEnds hne h₁ h₂ h₂' h₁'

end Commute

end DomainOperation

/-- A deployment with a PENDING scan of one domain, and another domain without one. -/
def Store.neighbours : Store :=
  { awaiting with
    db := awaiting.db.insertDomain ⟨2, "c.d", .completed, 7, 0⟩ rfl
      fun d hd ↦ by rw [List.mem_singleton.1 hd]; decide }

theorem Store.free_neighbours : neighbours.Free :=
  free_awaiting

theorem DomainOperation.independent_neighbours :
    Commute {} .plain .neighbours 2 0 (.trigger 2 7) (.deliver 1 (some 0)) {}
      { lookups := fun _ ↦ .answer [{ toText := "192.0.2.1" }] } :=
  independent {} .plain {} _ (by decide) Store.free_neighbours rfl ⟨_, rfl, rfl⟩

end AssetDiscovery
