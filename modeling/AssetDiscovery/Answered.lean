import AssetDiscovery.Inquiries
import AssetDiscovery.Library.Runs
import AssetDiscovery.Provenance

/-!
# Stored assets are answers of the resolver

Every asset that is stored for a scan stands for a record of an answer that a worker has had: the
stored records of a scan are those of whole inquiries, one after another (`assets_answered`). An
inquiry is made by one process, a worker that has been started for a message for the scan; it asks
once for each record type, for the name of the domain that the scan belongs to, and no look-up of it
fails. A scan that is completed has at least one.

The proof keeps next to each process how far it is with its inquiry, and next to each scan the list
of the processes that have stored theirs.
-/

set_option autoImplicit false

namespace AssetDiscovery

open Effect Runs

/-! ### Transactions -/

namespace Database

variable {db db₁ db' : Database} {now : Time} {own : Option Id} {w : Write} {ws : List Write}
  {x d : Id}

theorem records_of_get (hx : db.scans.get x = none) : db.ledger.records x = [] := by
  show (db.assetsOf x).map recordOf = []
  rw [List.map_eq_nil_iff, assetsOf, List.filter_eq_nil_iff]
  intro a ha hax
  have hscan := db.asset_scan a ha
  rw [of_decide_eq_true hax, hx] at hscan
  exact absurd hscan (by simp)

/-- Of a transaction that leaves `records`: a scan that is stored after it has been stored before,
with these records, or is inserted by it and has none; only the process's own scan may be completed
by it. -/
def Leaves (own : Option Id) (ws : List Write) (records : Id → List (AssetType × String))
    (db db' : Database) : Prop :=
  ∀ x row', db'.scans.get x = some row' →
    (∃ row, db.scans.get x = some row ∧ db'.ledger.records x = records x ∧
      (row'.status = .completed → own = some x ∨ row.status = .completed)) ∨
    ((∃ d st user, .insertScan x d st user ∈ ws) ∧ db'.ledger.records x = [] ∧
      (row'.status = .completed → own = some x))

theorem leaves_self (own : Option Id) (ws : List Write) (db : Database) :
    Leaves own ws db.ledger.records db db :=
  fun _ row hrow ↦ Or.inl ⟨row, hrow, rfl, Or.inr⟩

theorem Leaves.weaken {records : Id → List (AssetType × String)}
    (h : Leaves none ws records db db') : Leaves own ws records db db' := by
  intro x row' hrow'
  refine (h x row' hrow').imp ?_ ?_
  · rintro ⟨row, hrow, hrecords, hst⟩
    exact ⟨row, hrow, hrecords, fun h ↦ Or.inr ((hst h).resolve_left (by simp))⟩
  · rintro ⟨hinsert, hrecords, hst⟩
    exact ⟨hinsert, hrecords, fun h ↦ absurd (hst h) (by simp)⟩

/-- A modest statement leaves the records of every scan that is still stored. -/
theorem leaves_of_wrote (h : db.Wrote now w db') (hdb : db.Coherent) (hw : w.Modest own) :
    Leaves own [w] db.ledger.records db db' := by
  intro x row' hrow'
  cases h with
  | insertDomain | updateDomain => exact Or.inl ⟨row', hrow', rfl, Or.inr⟩
  | insertAsset => exact absurd hw id
  | insertScan hid =>
    rw [scans_get_insertScan] at hrow'
    split at hrow'
    · next hx =>
      obtain rfl := Option.some.inj hrow'
      obtain rfl : _ = x := hx
      have hrecords : db.ledger.records _ = [] := records_of_get hid
      exact Or.inr ⟨⟨_, _, _, List.mem_singleton_self _⟩, hrecords, fun hst ↦ absurd hst hw⟩
    · exact Or.inl ⟨row', hrow', rfl, Or.inr⟩
  | @updateScan y p =>
    rw [scans_get_updateScan] at hrow'
    split at hrow'
    · next hx =>
      obtain ⟨row, hrow, rfl⟩ := Option.map_eq_some_iff.1 hrow'
      subst hx
      refine Or.inl ⟨row, hrow, rfl, fun hst ↦ ?_⟩
      cases hp : p.status with
      | none =>
        refine Or.inr (Eq.trans ?_ hst)
        simp [ScanPatch.apply, hp]
      | some st =>
        have hst' : st = .completed := by simpa [ScanPatch.apply, hp] using hst
        exact Or.inl (hw (hp.trans (congrArg some hst')))
    · exact Or.inl ⟨row', hrow', rfl, Or.inr⟩
  | @deleteDomain d =>
    rw [scans_get_deleteDomain] at hrow'
    obtain ⟨hrow, hkept⟩ := Option.filter_eq_some_iff.1 hrow'
    refine Or.inl ⟨row', hrow, ?_, Or.inr⟩
    show List.map recordOf (List.filter _ (List.filter _ db.assets.rows)) = _
    rw [List.filter_filter]
    refine congrArg (List.map recordOf) (List.filter_congr fun a ha ↦ ?_)
    by_cases hax : a.scanId = x
    · -- the asset belongs to the domain of its scan, which stays
      subst hax
      have hd : a.domainId ≠ d := hdb a ha row' hrow ▸ of_decide_eq_true hkept
      have hscan : ((db.scans.get a.scanId).filter fun row ↦ row.domainId ≠ d).isSome := by
        rw [hrow']
        rfl
      simpa [hd] using hscan
    · simp [hax]

/-- One statement after another. -/
theorem Leaves.cons (h : Leaves own [w] db.ledger.records db db₁)
    (h' : Leaves own ws db₁.ledger.records db₁ db') :
    Leaves own (w :: ws) db.ledger.records db db' := by
  intro x row' hrow'
  rcases h' x row' hrow' with ⟨row₁, hrow₁, hrecords₁, hst₁⟩ | ⟨⟨d, st, user, hmem⟩, hrest⟩
  · rcases h x row₁ hrow₁ with ⟨row, hrow, hrecords, hst⟩ | ⟨⟨d, st, user, hmem⟩, hrecords, hst⟩
    · exact Or.inl ⟨row, hrow, hrecords₁.trans hrecords, fun h ↦ (hst₁ h).elim Or.inl hst⟩
    · obtain rfl := List.mem_singleton.1 hmem
      exact Or.inr ⟨⟨d, st, user, List.mem_cons_self⟩, hrecords₁.trans hrecords,
        fun h ↦ (hst₁ h).elim id hst⟩
  · exact Or.inr ⟨⟨d, st, user, List.mem_cons_of_mem _ hmem⟩, hrest⟩

/-- Modest statements leave the records as they are. -/
theorem leaves_of_writeAll (h : db.writeAll now ws = .ok db') (hdb : db.Coherent)
    (hws : ∀ w ∈ ws, w.Modest own) : Leaves own ws db.ledger.records db db' := by
  induction ws generalizing db with
  | nil =>
    rw [writeAll_nil h]
    exact leaves_self own [] db
  | cons w ws ih =>
    obtain ⟨db₁, h₁, h₂⟩ := writeAll_cons h
    have hwrote := wrote_of_write h₁
    obtain ⟨hw, hws⟩ := List.forall_mem_cons.1 hws
    refine (leaves_of_wrote hwrote hdb hw).cons (ih h₂ (coherent_of_wrote hwrote hdb ?_) hws)
    rintro id x d type value rfl
    exact absurd hw fun h ↦ h

/-- The transaction with the assets of a scan stores their records. -/
theorem stored_of_writeAll {records : List (AssetType × String)}
    (h : db.writeAll now ws = .ok db') (hws : StoresRecords x d records ws) :
    Stored db x d records db' := by
  induction hws generalizing db with
  | nil =>
    rw [writeAll_nil h]
    exact ⟨rfl, rfl, [], (List.append_nil _).symm, rfl, fun _ ha ↦ absurd ha List.not_mem_nil⟩
  | @cons r w records ws hw _ ih =>
    obtain ⟨db₁, h₁, h₂⟩ := writeAll_cons h
    obtain ⟨id, rfl⟩ := hw
    obtain ⟨hdomains, hscans, rows, hassets, hrows, hof⟩ := ih h₂
    cases wrote_of_write h₁ with
    | insertAsset =>
      refine ⟨hdomains, hscans, ⟨id, x, d, r.1, r.2, now⟩ :: rows, ?_, congrArg (r :: ·) hrows,
        List.forall_mem_cons.2 ⟨⟨rfl, rfl⟩, hof⟩⟩
      exact hassets.trans (List.append_assoc ..)

theorem leaves_of_stored {records : List (AssetType × String)} (h : Stored db x d records db') :
    Leaves own ws (db.ledger.addRecords x records).records db db' := by
  intro y row hrow
  rw [h.scans] at hrow
  exact Or.inl ⟨row, hrow, congrFun (congrArg Ledger.records h.filled.ledger) y, Or.inr⟩

end Database

/-! ### Operations -/

/-- The answer of a look-up. -/
def Op.hears : (o : Op) → o.Res → List Answer
  | .lookup name type, r => [⟨name, type, r⟩]
  | _, _ => []

namespace Inquiry

variable {v : Inquiry} {o : Op} {r : o.Res} {x : Id}

/-- The scan for which the process has stored its answers. -/
def storedFor : Inquiry → Option Id
  | stored x _ _ _ => some x
  | _ => none

theorem eq_stored (h : v.storedFor = some x) : ∃ d name heard, v = stored x d name heard := by
  cases v with
  | stored x' d name heard =>
    obtain rfl := Option.some.inj h
    exact ⟨d, name, heard, rfl⟩
  | _ => exact absurd h (by simp [storedFor])

theorem storedFor_ite {p : Prop} [Decidable p] {v v' : Inquiry} (h : v.storedFor = none)
    (h' : v'.storedFor = none) : (if p then v else v').storedFor = none := by
  split
  · exact h
  · exact h'

theorem storedFor_sawScan (h : v.storedFor = none) (y : Id) (row : Option Scan) :
    (v.sawScan y row).storedFor = none := by
  cases v with
  | opening =>
    cases row with
    | none => rfl
    | some row => exact storedFor_ite rfl rfl
  | _ => exact h

theorem storedFor_sawDomain (h : v.storedFor = none) (d : Id) (row : Option Domain) :
    (v.sawDomain d row).storedFor = none := by
  cases v with
  | opening x domain =>
    cases domain with
    | none => rfl
    | some d' =>
      cases row with
      | none => rfl
      | some row => exact storedFor_ite rfl rfl
  | asking x d' name heard =>
    cases heard with
    | cons q heard => rfl
    | nil =>
      cases row with
      | none => rfl
      | some row => exact storedFor_ite rfl rfl
  | _ => exact h

/-- Only a commit stores anything. -/
theorem storedFor_observe (ho : ∀ site ws, o ≠ .commit site ws) (r : o.Res) :
    (v.observe o r).storedFor = v.storedFor := by
  cases hv : v.storedFor with
  | some x =>
    obtain ⟨d, name, heard, rfl⟩ := eq_stored hv
    rw [observe_stored]
    rfl
  | none =>
    cases o with
    | query q =>
      rcases r with err | row
      · cases q <;> exact hv
      · cases q with
        | scan y => exact storedFor_sawScan hv y row
        | domain d => exact storedFor_sawDomain hv d row
        | _ => exact hv
    | lookup =>
      cases v with
      | asking => exact storedFor_ite rfl rfl
      | _ => exact hv
    | commit site ws => exact absurd rfl (ho site ws)
    | _ => exact hv

/-- What an operation does to the stage and to the assets: a process that has asked for everything
becomes one that has stored the records of its answers, or the stored records stay. -/
inductive Turn (v : Inquiry) (o : Op) (v' : Inquiry) (db db' : Database) : Prop
  | stay {ws} (ho : ws = [] ∨ ∃ site, o = .commit site ws) (hv' : v'.storedFor = v.storedFor)
    (hdb : db.Leaves v.storedFor ws db.ledger.records db')
  | store {site ws x d name heard} (ho : o = .commit site ws) (hv : v = asking x d name heard)
    (hv' : v' = stored x d name heard)
    (hdb : db.Leaves none ws (db.ledger.addRecords x (gathered heard)).records db')

/-- What a commit that goes through does to the assets, in each view of a worker. -/
theorem turn_of_commit {site : Site} {ws : List Write} (hallowed : v.Allowed (.commit site ws))
    {db db' : Database} (hdb : db.Coherent) {now : Time} (hws : db.writeAll now ws = .ok db') :
    v.Turn (.commit site ws) (v.observe (.commit site ws) (.ok ())) db db' := by
  cases hallowed with
  | modest ho =>
    have hleaves := Database.leaves_of_writeAll hws hdb ho
    cases v with
    | asking x d name heard =>
      by_cases hstores : Complete heard ∧ ws.filterMap Write.record = gathered heard
      · -- modest statements store nothing, so nothing has been answered
        have hnone : gathered heard = [] := by
          refine hstores.2.symm.trans (List.filterMap_eq_nil_iff.2 fun w hw ↦ ?_)
          cases w with
          | insertAsset => exact absurd (ho _ hw) id
          | _ => rfl
        refine .store rfl rfl (if_pos hstores) ?_
        rwa [hnone, Ledger.addRecords_nil]
      · refine .stay (Or.inr ⟨site, rfl⟩) ?_ hleaves
        show (if Complete heard ∧ _ then _ else asking x d name heard).storedFor = none
        rw [if_neg hstores]
        rfl
    | _ => exact .stay (Or.inr ⟨site, rfl⟩) rfl hleaves.weaken
  | store hheard hstores =>
    exact .store rfl rfl (if_pos ⟨hheard, hstores.filterMap_record⟩)
      (Database.leaves_of_stored (Database.stored_of_writeAll hws hstores))
  | own ho => exact .stay (Or.inr ⟨site, rfl⟩) rfl (Database.leaves_of_writeAll hws hdb ho)

/-- What an operation does to the assets, in each view of a worker. -/
theorem turn_of_allowed (hallowed : v.Allowed o) {i : ℕ} {e : Env} {s s' : Store}
    (hdb : s.db.Coherent) (hserve : serve i o e s = some (r, s')) :
    v.Turn o (v.observe o r) s.db s'.db := by
  by_cases ho : ∃ site ws, o = .commit site ws
  · obtain ⟨site, ws, rfl⟩ := ho
    rcases (serve_commit hserve).2 with ⟨⟨err, rfl⟩, hsame⟩ | ⟨rfl, -, now, hws⟩
    · rw [hsame]
      refine .stay (Or.inl rfl) ?_ (Database.leaves_self _ _ _)
      cases v with
      | asking => exact storedFor_ite rfl rfl
      | _ => rfl
    · exact turn_of_commit hallowed hdb hws
  · have hsame := (serve_db hserve).resolve_right fun ⟨site, ws, _, h, _⟩ ↦ ho ⟨site, ws, h⟩
    rw [hsame]
    exact .stay (Or.inl rfl) (storedFor_observe (fun site ws h ↦ ho ⟨site, ws, h⟩) r)
      (Database.leaves_self _ _ _)

end Inquiry

namespace World

variable {cfg : Settings} {u : Unicode} {vs : List Inquiry}

section Steps

variable {w w' : World} {a : Action} {d x : Id} {name : String}

/-! ### Stages -/

/-- If there is a domain `d`, now or later, its name is `name`. -/
structure Called (w : World) (d : Id) (name : String) : Prop where
  settled : w.Settled d
  name : ∀ row, w.shared.db.domains.get d = some row → row.name = name

/-- A domain keeps its name. -/
theorem Called.act (h : w.Called d name) (hw : w.Recorded) (ha : w.act cfg u a = some w') :
    w'.Called d name := by
  refine ⟨h.settled.act ha, fun row' hrow' ↦ ?_⟩
  cases hrow : w.shared.db.domains.get d with
  | none =>
    have hgone := domain_of_act h.settled hw.anchored.disciplined ha hrow
    exact absurd (hgone.symm.trans hrow') (by simp)
  | some row =>
    rcases keeps_act hw.anchored hw.coherent ha d with hgone | hkeeps
    · exact absurd (hgone.symm.trans hrow') (by simp)
    · obtain ⟨row₁, hrow₁, horigin⟩ := hkeeps.domain row hrow
      obtain rfl := Option.some.inj (hrow₁.symm.trans hrow')
      exact (congrArg Prod.fst horigin).trans (h.name row hrow)

/-- A stored domain has its name for good. -/
theorem Named.called (h : w.Named) {row : Domain} (hrow : w.shared.db.domains.get d = some row) :
    w.Called d row.name := by
  refine ⟨Pool.Named.settled h (Or.inl (by simp [hrow])), fun row' hrow' ↦ ?_⟩
  rw [hrow] at hrow'
  rw [Option.some.inj hrow']

/-- How a process that has `heard` these answers and works for messages of the scans `job` has come
to a stage. -/
def Backs (w : World) (job : Id → Prop) (heard : List Answer) : Inquiry → Prop
  | .opening x domain => job x ∧ heard = [] ∧ ∀ d ∈ domain, w.Belongs x d
  | .asking x d name heard' => (job x ∧ w.Belongs x d ∧ w.Called d name) ∧ heard = heard' ∧
      ∀ q ∈ heard', q.name = name ∧ q.lookup.raised = none
  | .stored x d name heard' => (job x ∧ w.Belongs x d ∧ w.Called d name) ∧ heard = heard' ∧
      (∀ q ∈ heard', q.name = name ∧ q.lookup.raised = none) ∧ Inquiry.Complete heard'
  | .aside => True

variable {job job' : Id → Prop} {heard : List Answer} {v : Inquiry}

/-- What backs an inquiry is not lost in a step. -/
theorem Backs.act (h : w.Backs job heard v) (hjob : ∀ x, job x → job' x) (hw : w.Recorded)
    (ha : w.act cfg u a = some w') : w'.Backs job' heard v := by
  have hdisc := hw.anchored.disciplined
  cases v with
  | opening x domain =>
    obtain ⟨hx, hheard, hdomain⟩ := h
    exact ⟨hjob x hx, hheard, fun d hd ↦ (hdomain d hd).act hdisc ha⟩
  | asking x d name heard' =>
    obtain ⟨⟨hx, hd, hname⟩, hrest⟩ := h
    exact ⟨⟨hjob x hx, hd.act hdisc ha, hname.act hw ha⟩, hrest⟩
  | stored x d name heard' =>
    obtain ⟨⟨hx, hd, hname⟩, hrest⟩ := h
    exact ⟨⟨hjob x hx, hd.act hdisc ha, hname.act hw ha⟩, hrest⟩
  | aside => trivial

/-- The scan of an inquiry that has stored its assets belongs to a domain. -/
theorem Backs.belongs (h : w.Backs job heard v) (hv : v.storedFor = some x) :
    ∃ d, w.Belongs x d := by
  obtain ⟨d, name, heard', rfl⟩ := Inquiry.eq_stored hv
  exact ⟨d, h.1.2.1⟩

/-- The row that a query has found is stored. -/
theorem domains_get_of_serve {i : ℕ} {e : Env} {s s' : Store} {row : Domain}
    (h : serve i (.query (.domain d)) e s = some (.ok (some row), s')) :
    s.db.domains.get d = some row := by
  rcases (serve_query h).2.2 with ⟨err, herr⟩ | hok
  · exact absurd herr (by simp)
  · exact (Except.ok.inj hok).symm

/-- The row of the scan names the domain that is asked about. -/
theorem Backs.sawScan (h : w.Backs job heard v) {y : Id} {row : Scan}
    (hrow : w.Belongs y row.domainId) : w.Backs job heard (v.sawScan y (some row)) := by
  cases v with
  | opening x domain =>
    show w.Backs job heard (if y = x then .opening x (some row.domainId) else .opening x domain)
    split
    · next hyx =>
      subst hyx
      refine ⟨h.1, h.2.1, fun d hd ↦ ?_⟩
      obtain rfl := Option.some.inj hd
      exact hrow
    · exact h
  | _ => exact h

/-- The row of the domain names what is asked for. -/
theorem Backs.sawDomain (h : w.Backs job heard v) {row : Domain} (hrow : w.Called d row.name) :
    w.Backs job heard (v.sawDomain d (some row)) := by
  cases v with
  | opening x domain =>
    cases domain with
    | none => exact h
    | some d' =>
      show w.Backs job heard (if d = d' then .asking x d' row.name [] else .opening x (some d'))
      split
      · next hdd =>
        subst hdd
        exact ⟨⟨h.1, h.2.2 d rfl, hrow⟩, h.2.1, fun _ hq ↦ absurd hq List.not_mem_nil⟩
      · exact h
  | asking x d' name heard' =>
    cases heard' with
    | nil =>
      show w.Backs job heard (if d = d' then .asking x d' row.name [] else .asking x d' name [])
      split
      · next hdd =>
        subst hdd
        exact ⟨⟨h.1.1, h.1.2.1, hrow⟩, h.2.1, fun _ hq ↦ absurd hq List.not_mem_nil⟩
      · exact h
    | cons => exact h
  | _ => exact h

/-- Every operation leads to a stage that has come about in the same way. -/
theorem Backs.observe (h : w.Backs job heard v) (hw : w.Recorded) {o : Op} {r : o.Res}
    (hallowed : v.Allowed o) {i : ℕ} {e : Env} {s : Store}
    (hserve : serve i o e w.shared = some (r, s)) :
    w.Backs job (heard ++ o.hears r) (v.observe o r) := by
  cases o with
  | query q =>
    show w.Backs job (heard ++ []) _
    rw [List.append_nil]
    rcases r with err | row
    · cases q <;> exact h
    · cases q with
      | scan y =>
        cases row with
        | none => cases v <;> exact h
        | some row => exact h.sawScan (hw.anchored.named.belongs (get_of_serve hserve))
      | domain d =>
        cases row with
        | none =>
          cases v with
          | opening x domain => cases domain <;> exact h
          | asking x d' name heard' => cases heard' <;> exact h
          | _ => exact h
        | some row => exact h.sawDomain (hw.anchored.named.called (domains_get_of_serve hserve))
      | _ => exact h
  -- an answer that raises ends the inquiry, every other one is heard
  | lookup name type =>
    cases hallowed with
    | modest ho => exact absurd ho id
    | aside => trivial
    | own ho => exact absurd ho id
    | ask =>
      show w.Backs job (heard ++ [⟨_, type, r⟩]) (if r.raised = none then _ else .aside)
      split
      · next hraised =>
        obtain ⟨hjob, rfl, hall⟩ := h
        refine ⟨hjob, rfl, fun q hq ↦ ?_⟩
        rcases List.mem_append.1 hq with hq | hq
        · exact hall q hq
        · obtain rfl := List.mem_singleton.1 hq
          exact ⟨rfl, hraised⟩
      · trivial
  -- the commit of `create_assets` closes the inquiry, if it goes through
  | commit site ws =>
    show w.Backs job (heard ++ []) _
    rw [List.append_nil]
    cases v with
    | asking x d name heard' =>
      show w.Backs job heard (if _ ∧ _ then if r.toBool then _ else .aside else _)
      split
      · next hstores =>
        split
        · exact ⟨h.1, h.2.1, h.2.2, hstores.1⟩
        · trivial
      · exact h
    | _ => exact h
  | _ =>
    show w.Backs job (heard ++ []) v
    rw [List.append_nil]
    exact h

/-! ### Batches -/

/-- The processes `is` are those that have stored assets for scan `x`, in this order. -/
structure Fed (db : Database) (vs : List Inquiry) (told : ℕ → List Answer) (x : Id)
    (st : ScanStatus) (is : List ℕ) : Prop where
  nodup : is.Nodup
  mem : ∀ i : ℕ, i ∈ is ↔ vs[i]?.bind Inquiry.storedFor = some x
  records : db.ledger.records x = is.flatMap fun i ↦ gathered (told i)
  completed : st = .completed → is ≠ []

variable {db db' : Database} {told told' : ℕ → List Answer}
  {st st' : ScanStatus} {is : List ℕ} {i : ℕ} {v' : Inquiry}

/-- A scan that nobody has stored assets for is fed by nobody. -/
theorem fed_nil (hvs : ∀ i : ℕ, vs[i]?.bind Inquiry.storedFor ≠ some x)
    (hrecords : db.ledger.records x = []) (hst : st ≠ .completed) : Fed db vs told x st [] where
  nodup := List.nodup_nil
  mem i := ⟨fun h ↦ absurd h List.not_mem_nil, fun h ↦ absurd h (hvs i)⟩
  records := hrecords
  completed h := absurd h hst

/-- A process that has just begun feeds no scan. -/
theorem Fed.append (h : Fed db vs told x st is) (hv : v.storedFor = none) :
    Fed db (vs ++ [v]) told x st is where
  nodup := h.nodup
  mem i := by
    rw [h.mem, List.getElem?_append]
    split
    · rfl
    · next hi =>
      rw [List.getElem?_eq_none (Nat.le_of_not_lt hi)]
      cases hj : [v][i - vs.length]? with
      | none => rfl
      | some v' =>
        obtain rfl := List.mem_singleton.1 (List.mem_of_getElem? hj)
        simp [hv]
  records := h.records
  completed := h.completed

theorem storedFor_set (hi : vs[i]? = some v) (j : ℕ) :
    (vs.set i v')[j]?.bind Inquiry.storedFor =
      if i = j then v'.storedFor else vs[j]?.bind Inquiry.storedFor := by
  split
  · next hij =>
    subst hij
    rw [List.getElem?_set_self (List.getElem?_eq_some_iff.1 hi).1]
    rfl
  · next hij => rw [List.getElem?_set_ne hij]

/-- A process goes on without storing anything for the scan. -/
theorem Fed.keep (h : Fed db vs told x st is) (hi : vs[i]? = some v)
    (hv' : v'.storedFor = some x ↔ v.storedFor = some x)
    (hrecords : db'.ledger.records x = db.ledger.records x) (htold : ∀ j ∈ is, told' j = told j)
    (hst : st' = .completed → v.storedFor = some x ∨ st = .completed) :
    Fed db' (vs.set i v') told' x st' is where
  nodup := h.nodup
  mem j := by
    rw [h.mem, storedFor_set hi]
    split
    · next hij =>
      subst hij
      rw [hi]
      exact hv'.symm
    · rfl
  records := by
    rw [hrecords, h.records]
    exact (List.flatMap_congr fun j hj ↦ congrArg gathered (htold j hj)).symm
  completed hst' := by
    rcases hst hst' with hv | hst
    · have hmem : i ∈ is := (h.mem i).2 (by rw [hi]; exact hv)
      exact List.ne_nil_of_mem hmem
    · exact h.completed hst

/-- A process stores what it has heard. -/
theorem Fed.grow (h : Fed db vs told x st is) (hi : vs[i]? = some v) (hv : v.storedFor = none)
    (hv' : v'.storedFor = some x)
    (hrecords : db'.ledger.records x = db.ledger.records x ++ gathered (told' i))
    (htold : ∀ j ∈ is, told' j = told j) : Fed db' (vs.set i v') told' x st' (is ++ [i]) where
  nodup := by
    have hnot : i ∉ is := fun hmem ↦ by
      have hstored := (h.mem i).1 hmem
      rw [hi] at hstored
      exact absurd (hv.symm.trans hstored) (by simp)
    refine List.nodup_append.2 ⟨h.nodup, List.nodup_singleton i, ?_⟩
    rintro j hj _ hmem rfl
    exact hnot (List.mem_singleton.1 hmem ▸ hj)
  mem j := by
    rw [List.mem_append, List.mem_singleton, h.mem, storedFor_set hi]
    split
    · next hij => simp [hij, hv']
    · next hij => simp [Ne.symm hij]
  records := by
    rw [hrecords, h.records, List.flatMap_append, List.flatMap_singleton]
    refine congrArg (· ++ gathered (told' i)) ?_
    exact (List.flatMap_congr fun j hj ↦ congrArg gathered (htold j hj)).symm
  completed _ := by simp

/-! ### Steps -/

/-- What the resolver answers process `j` in an action. -/
def hears (w : World) (j : ℕ) : Action → List Answer
  | .perform i e =>
    if i = j then
      match w.asks i with
      | some (.lookup name type) => [⟨name, type, e.lookups type⟩]
      | _ => []
    else []
  | _ => []

theorem hears_perform {e : Env} {o : Op} {r : o.Res} {s : Store} (hasks : w.asks i = some o)
    (hserve : serve i o e w.shared = some (r, s)) : w.hears i (.perform i e) = o.hears r := by
  rw [World.hears, if_pos rfl, hasks]
  cases o with
  | lookup =>
    obtain ⟨rfl, -⟩ := Prod.mk.inj (Option.some.inj hserve)
    rfl
  | _ => rfl

/-- Each process is as far as `vs` says, which accounts for what it has heard and for the assets. -/
structure Accounted (w : World) (job : ℕ → Id → Prop) (told : ℕ → List Answer)
    (vs : List Inquiry) : Prop where
  recorded : w.Recorded
  follows : w.Follows Inquiry.discipline (fun _ _ ↦ True) vs
  backs : ∀ i v, vs[i]? = some v → w.Backs (job i) (told i) v
  silent : ∀ i, w.threads.length ≤ i → told i = []
  fed : ∀ x row, w.shared.db.scans.get x = some row →
    ∃ is, Fed w.shared.db vs told x row.status is

/-- In an empty deployment there is nothing to account for. -/
theorem accounted_boot (job : ℕ → Id → Prop) :
    (boot .empty).Accounted job (fun _ ↦ []) [] where
  recorded := recorded_boot (by decide) Database.coherent_empty
  follows := ⟨rfl, fun ht ↦ absurd ht (by simp [boot])⟩
  backs _ _ h := absurd h (by simp)
  silent _ _ := rfl
  fed x row hrow := absurd hrow (by simp [boot, Store.empty, Database.empty])

variable {job job' : ℕ → Id → Prop}

theorem Recorded.act (h : w.Recorded) (ha : w.act cfg u a = some w') : w'.Recorded :=
  ⟨h.anchored.act ha, coherent_act h.anchored h.coherent ha⟩

/-- A new process keeps the accounts. -/
theorem Accounted.spawn (h : w.Accounted job told vs) (ha : w.act cfg u a = some w')
    (hdb : w'.shared.db = w.shared.db) (hjob : ∀ i x, job i x → job' i x)
    (hfollows : w'.Follows Inquiry.discipline (fun _ _ ↦ True) (vs ++ [v]))
    (hv : v.storedFor = none) (hnew : w'.Backs (job' w.threads.length) [] v) :
    w'.Accounted job' told (vs ++ [v]) where
  recorded := h.recorded.act ha
  follows := hfollows
  backs i v' hi := by
    rw [List.getElem?_append] at hi
    split at hi
    · exact (h.backs i v' hi).act (hjob i) h.recorded ha
    · next hlt =>
      rw [h.follows.length] at hlt
      obtain rfl := List.mem_singleton.1 (List.mem_of_getElem? hi)
      obtain ⟨hi, -⟩ := List.getElem?_eq_some_iff.1 hi
      have hi' : i = w.threads.length := by
        rw [h.follows.length] at hi
        simp only [List.length_singleton] at hi
        omega
      rw [h.silent i (Nat.le_of_not_lt hlt), hi']
      exact hnew
  silent i hi := by
    refine h.silent i (Nat.le_trans ?_ hi)
    rw [← h.follows.length, ← hfollows.length, List.length_append]
    exact Nat.le_add_right ..
  fed x row hrow := by
    rw [hdb] at hrow ⊢
    obtain ⟨is, his⟩ := h.fed x row hrow
    exact ⟨is, his.append hv⟩

/-- A step that touches neither processes nor rows keeps the accounts. -/
theorem Accounted.still (h : w.Accounted job told vs) (ha : w.act cfg u a = some w')
    (hdb : w'.shared.db = w.shared.db) (hthreads : w'.threads = w.threads)
    (hjob : ∀ i x, job i x → job' i x) : w'.Accounted job' told vs where
  recorded := h.recorded.act ha
  follows := h.follows.of_threads hthreads
  backs i v hi := (h.backs i v hi).act (hjob i) h.recorded ha
  silent i hi := h.silent i (by rwa [hthreads] at hi)
  fed := by rw [hdb]; exact h.fed

/-- A process that has stored its answers asks nothing any more. -/
theorem hears_of_storedFor {o : Op} (hallowed : v.Allowed o) (hv : v.storedFor = some x)
    (r : o.Res) : o.hears r = [] := by
  cases hallowed with
  | modest ho | own ho =>
    cases o with
    | lookup => exact absurd ho id
    | _ => rfl
  | aside | ask => exact absurd hv (by simp [Inquiry.storedFor])
  | store => rfl

/-- A scan that is settled is not inserted by a transaction. -/
theorem not_inserted_of_settled (hx : w.Settled x) {o : Op} (hasks : w.asks i = some o)
    {ws : List Write} (ho : ws = [] ∨ ∃ site, o = .commit site ws) :
    ¬ ∃ d st user, .insertScan x d st user ∈ ws := by
  rintro ⟨d, st, user, hmem⟩
  rcases ho with rfl | ⟨site, rfl⟩
  · exact absurd hmem List.not_mem_nil
  · exact hx.not_mem_inserts hasks hmem (List.mem_singleton_self x)

/-- A scan that assets have been stored for is settled. -/
theorem Accounted.settled (h : w.Accounted job told vs) {i : ℕ}
    (hi : vs[i]?.bind Inquiry.storedFor = some x) : w.Settled x := by
  obtain ⟨v, hv, hstored⟩ := Option.bind_eq_some_iff.1 hi
  obtain ⟨d, hbelongs⟩ := (h.backs i v hv).belongs hstored
  exact hbelongs.settled

/-- The operation of a process keeps the accounts. -/
theorem Accounted.perform (h : w.Accounted job told vs) (hjob : ∀ i x, job i x → job' i x)
    {e : Env} (ha : w.act cfg u (.perform i e) = some w') :
    ∃ vs', w'.Accounted job' (fun j ↦ told j ++ w.hears j (.perform i e)) vs' := by
  obtain ⟨v, o, r, hi, hasks, hallowed, hserve, hfollows⟩ := h.follows.step ha possible_of_serve
  have hturn := Inquiry.turn_of_allowed hallowed h.recorded.coherent hserve
  have hlast := (h.backs i v hi).observe h.recorded hallowed hserve
  have hself := hears_perform hasks hserve
  have hother : ∀ j, i ≠ j → told j ++ w.hears j (.perform i e) = told j := by
    intro j hij
    rw [World.hears, if_neg hij, List.append_nil]
  have hkept : ∀ j y, vs[j]?.bind Inquiry.storedFor = some y →
      told j ++ w.hears j (.perform i e) = told j := by
    intro j y hj
    by_cases hij : i = j
    · subst hij
      rw [hi] at hj
      rw [hself, hears_of_storedFor hallowed hj r, List.append_nil]
    · exact hother j hij
  refine ⟨vs.set i (v.observe o r), h.recorded.act ha, hfollows, fun j l hj ↦ ?_, fun j hj ↦ ?_,
    fun y row' hrow' ↦ ?_⟩
  · rcases getElem?_set_view hj with ⟨rfl, rfl⟩ | ⟨hji, hj⟩
    · rw [hself]
      exact hlast.act (hjob j) h.recorded ha
    · rw [hother j (Ne.symm hji)]
      exact (h.backs j l hj).act (hjob j) h.recorded ha
  · have hlen : w'.threads.length = w.threads.length := by
      rw [← hfollows.length, ← h.follows.length, List.length_set]
    rw [hlen] at hj
    have hlt : i < w.threads.length := h.follows.length ▸ (List.getElem?_eq_some_iff.1 hi).1
    rw [hother j (by omega), h.silent j hj]
  · -- a scan that is inserted has nothing stored for it by any process
    have hnew : ∀ {ws}, (ws = [] ∨ ∃ site, o = .commit site ws) →
        (∃ d st user, .insertScan y d st user ∈ ws) → ∀ j : ℕ,
        vs[j]?.bind Inquiry.storedFor ≠ some y :=
      fun ho hinsert j hj ↦ not_inserted_of_settled (h.settled hj) hasks ho hinsert
    cases hturn with
    | stay ho hv' hleaves =>
      -- the stage accounts for the same scans as before
      rcases hleaves y row' hrow' with ⟨row, hrow, hrecords, hst⟩ | ⟨hinsert, hrecords, hst⟩
      · obtain ⟨is, his⟩ := h.fed y row hrow
        exact ⟨is, his.keep hi (by rw [hv']) hrecords (fun j hj ↦ hkept j y ((his.mem j).1 hj)) hst⟩
      · have hnone := hnew ho hinsert
        have hv : v.storedFor ≠ some y := fun hv ↦ hnone i (by rw [hi]; exact hv)
        refine ⟨[], fed_nil (fun j ↦ ?_) hrecords fun h ↦ hv (hst h)⟩
        rw [storedFor_set hi, hv']
        split
        · exact hv
        · exact hnone j
    | @store site ws x d name told' ho hv hv' hleaves =>
      subst hv ho
      have hbacks := h.backs i _ hi
      rcases hleaves y row' hrow' with ⟨row, hrow, hrecords, hst⟩ | ⟨hinsert, hrecords, hst⟩
      · obtain ⟨is, his⟩ := h.fed y row hrow
        have hkept' := fun j hj ↦ hkept j y ((his.mem j).1 hj)
        by_cases hyx : y = x
        · -- the process adds its own batch to those of its scan
          subst hyx
          refine ⟨is ++ [i], his.grow hi rfl (by rw [hv']; rfl) ?_ hkept'⟩
          rw [hrecords, Ledger.addRecords_records_self, hself, hbacks.2.1]
          simp [Op.hears]
        · refine ⟨is, his.keep hi ?_ (hrecords.trans (if_neg hyx)) hkept' fun h ↦ ?_⟩
          · simp [hv', Inquiry.storedFor, Ne.symm hyx]
          · exact Or.inr ((hst h).resolve_left (by simp))
      · have hnone := hnew (Or.inr ⟨site, rfl⟩) hinsert
        refine ⟨[], fed_nil (fun j ↦ ?_) hrecords fun h ↦ absurd (hst h) (by simp)⟩
        rw [storedFor_set hi, hv']
        split
        · intro hxy
          obtain rfl := Option.some.inj hxy
          exact not_inserted_of_settled hbacks.1.2.1.settled hasks (Or.inr ⟨site, rfl⟩) hinsert
        · exact hnone j

end Steps

/-! ### Runs -/

/-- In the first `n` steps of a run, process `i` is started as a worker for a message for scan
`x`. -/
def Serves (w : ℕ → World) (a : ℕ → Action) (n i : ℕ) (x : Id) : Prop :=
  ∃ k < n, ∃ q m, a k = .take q ∧ (w k).shared.queue[q]? = some m ∧ m.scan = x ∧
    (w k).threads.length = i

/-- What the resolver answers process `i` in the first `n` steps of a run, in order. -/
def heard (w : ℕ → World) (a : ℕ → Action) (n i : ℕ) : List Answer :=
  (List.range n).flatMap fun k ↦ (w k).hears i (a k)

/-- Process `i` works for a message for scan `x`, has asked for the records of each type of one
name, and no look-up has failed. -/
structure Inquires (w : ℕ → World) (a : ℕ → Action) (n : ℕ) (x : Id) (name : String) (i : ℕ) :
    Prop where
  serves : Serves w a n i x
  asked : (heard w a n i).map (fun q ↦ (q.name, q.type)) = recordTypes.map fun type ↦ (name, type)
  succeeded : ∀ q ∈ heard w a n i, q.lookup.raised = none

theorem serves_succ {w : ℕ → World} {a : ℕ → Action} {n i : ℕ} {x : Id}
    (h : Serves w a n i x) : Serves w a (n + 1) i x := by
  obtain ⟨k, hk, h⟩ := h
  exact ⟨k, Nat.lt_succ_of_lt hk, h⟩

theorem heard_succ (w : ℕ → World) (a : ℕ → Action) (n : ℕ) :
    heard w a (n + 1) = fun i ↦ heard w a n i ++ (w n).hears i (a n) := by
  funext i
  rw [heard, List.range_succ, List.flatMap_append, List.flatMap_singleton]
  rfl

/-- Every step of a run keeps the account. -/
theorem Accounted.step {w : ℕ → World} {a : ℕ → Action} {k : ℕ}
    (h : (w k).Accounted (Serves w a k) (heard w a k) vs)
    (ha : (w k).act cfg u (a k) = some (w (k + 1))) :
    ∃ vs', (w (k + 1)).Accounted (Serves w a (k + 1)) (heard w a (k + 1)) vs' := by
  have hjob : ∀ i x, Serves w a k i x → Serves w a (k + 1) i x := fun _ _ ↦ serves_succ
  rw [heard_succ]
  cases hact : a k with
  -- a request hears nothing
  | start r =>
    rw [hact] at ha
    have hw := Option.some.inj ha
    have hfollows : (w (k + 1)).Follows Inquiry.discipline (fun _ _ ↦ True) (vs ++ [.aside]) := by
      rw [← hw]
      exact h.follows.spawn (Inquiry.follows_request u r)
    simp only [World.hears, List.append_nil]
    exact ⟨_, h.spawn ha (by rw [← hw]; rfl) hjob hfollows rfl trivial⟩
  -- a worker opens an inquiry for the scan of its message
  | take q =>
    rw [hact] at ha
    have hstep := ha
    simp only [World.act] at ha
    split at ha
    · next m hm =>
      have hw := Option.some.inj ha
      have hfollows : (w (k + 1)).Follows Inquiry.discipline (fun _ _ ↦ True)
          (vs ++ [.opening m.scan none]) := by
        rw [← hw]
        refine Pool.Follows.spawn ?_ (Inquiry.follows_worker cfg m)
        exact h.follows.of_threads rfl
      simp only [World.hears, List.append_nil]
      have hserves : Serves w a (k + 1) (w k).threads.length m.scan :=
        ⟨k, Nat.lt_succ_self k, q, m, hact, hm, rfl, rfl⟩
      exact ⟨_, h.spawn hstep (by rw [← hw]; rfl) hjob hfollows rfl
        ⟨hserves, rfl, fun _ hd ↦ absurd hd (by simp)⟩⟩
    · exact absurd ha (by simp)
  | duplicate q =>
    rw [hact] at ha
    have hstep := ha
    simp only [World.act] at ha
    split at ha
    · have hw := Option.some.inj ha
      simp only [World.hears, List.append_nil]
      exact ⟨vs, h.still hstep (by rw [← hw]) (by rw [← hw]) hjob⟩
    · exact absurd ha (by simp)
  | perform i e =>
    rw [hact] at ha
    exact h.perform hjob ha

/-- **Stored assets are answers of the resolver**, in every state of every run from an empty
deployment, with any requests, deletions, deliveries and failures: the assets of a stored scan are
the records of whole inquiries of different workers for this scan, one after another. Each inquiry
goes through all record types and asks for the name of the scan's domain, and none of its look-ups
fails. A completed scan has at least one. -/
theorem assets_answered (cfg : Settings) (u : Unicode) {w : ℕ → World} {a : ℕ → Action} {n : ℕ}
    (hrun : Trace (act cfg u) (boot .empty) w a n) {x : Id} {row : Scan}
    (hx : (w n).shared.db.scans.get x = some row) :
    ∃ domain is, (w n).shared.db.domains.get row.domainId = some domain ∧ is.Nodup ∧
      (∀ i ∈ is, Inquires w a n x domain.name i) ∧
      ((w n).shared.db.assetsOf x).map Database.recordOf =
        is.flatMap (fun i ↦ gathered (heard w a n i)) ∧
      (row.status = .completed → is ≠ []) := by
  have hall := hrun.invariant
    (I := fun k ↦ ∃ vs, (w k).Accounted (Serves w a k) (heard w a k) vs)
    ⟨[], by rw [hrun.start]; exact accounted_boot _⟩ fun k _ ha ⟨_, h⟩ ↦ h.step ha
  obtain ⟨vs, h⟩ := hall n (Nat.le_refl n)
  obtain ⟨is, his⟩ := h.fed x row hx
  obtain ⟨domain, hdomain⟩ := Option.isSome_iff_exists.1
    ((w n).shared.db.scan_domain row (Table.mem_of_get hx))
  refine ⟨domain, is, hdomain, his.nodup, fun i hi ↦ ?_, his.records, his.completed⟩
  obtain ⟨v, hv, hstored⟩ := Option.bind_eq_some_iff.1 ((his.mem i).1 hi)
  obtain ⟨d, name, heard', rfl⟩ := Inquiry.eq_stored hstored
  obtain ⟨⟨hserves, hbelongs, hcalled⟩, hheard, hanswers, hcomplete⟩ := h.backs i _ hv
  have hname : domain.name = name :=
    hcalled.name domain (by rw [← hbelongs.domain row hx]; exact hdomain)
  rw [← hheard] at hanswers hcomplete
  refine ⟨hserves, ?_, fun q hq ↦ (hanswers q hq).2⟩
  rw [← hcomplete, List.map_map, hname]
  exact List.map_congr_left fun q hq ↦ Prod.ext (hanswers q hq).1 rfl

/-- The broker delivers the message of a scan twice: one worker reads the name of the domain, the
other one carries its scan out, and then the first one goes on. -/
def discoveredTwice : List Action :=
  .start (.create "a.b" 7) :: performs 0 13 ++ .duplicate 0 :: .take 0 :: .take 0 ::
    (List.replicate 3 (.perform 1 oneAddress) ++ List.replicate 25 (.perform 2 oneAddress) ++
      List.replicate 22 (.perform 1 oneAddress))

theorem assets_answered_discoveredTwice :
    ∃ w a n row domain is, Trace (act {} .plain) (boot .empty) w a n ∧
      (w n).shared.db.scans.get 1 = some row ∧ row.status = .completed ∧
      ((w n).shared.db.assetsOf 1).length = 2 ∧
      (w n).shared.db.domains.get row.domainId = some domain ∧ is.Nodup ∧
      (∀ i ∈ is, Inquires w a n 1 domain.name i) ∧
      ((w n).shared.db.assetsOf 1).map Database.recordOf =
        is.flatMap (fun i ↦ gathered (heard w a n i)) ∧ is ≠ [] := by
  obtain ⟨w', hreach, hst, hlength⟩ := Runs.exists_reach (act {} .plain) (fun _ _ ↦ True)
    (fun w ↦ (w.shared.db.scans.get 1).any (fun row ↦ row.status = .completed) ∧
      (w.shared.db.assetsOf 1).length = 2) (s := boot .empty) discoveredTwice (by decide +kernel)
  have : Nonempty Action := ⟨.take 0⟩
  obtain ⟨w, a, n, hrun, -, rfl⟩ := hreach.exists_trace
  obtain ⟨row, hrow, hcompleted⟩ := (Option.any_eq_true _ _).1 hst
  obtain ⟨domain, is, hdomain, hnodup, hinquires, hrecords, hne⟩ :=
    assets_answered {} .plain hrun hrow
  exact ⟨w, a, n, row, domain, is, hrun, hrow, of_decide_eq_true hcompleted, hlength, hdomain,
    hnodup, hinquires, hrecords, hne (of_decide_eq_true hcompleted)⟩

end World

end AssetDiscovery
