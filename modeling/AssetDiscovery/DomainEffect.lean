import AssetDiscovery.Alone.Requests
import AssetDiscovery.Library.Edit

/-!
# What an operation does to one domain

`trigger_manual_scan`, `delete_domain` and a delivery each work on one domain. What they answer,
publish and write is said here as a function of what they can see of it: a `DomainView` is the row
of the domain and its scans, in their order, and a `DomainEffect` is everything that a run does but
for the times it stamps and the ids it draws for new assets. The id of a new scan is an argument,
since it is answered and published.

`DomainEffect.CarriedOut` is the connection to the tables: the rows of the domain, its scans and
their assets are edited as the effect says, at some times and with some new ids, and all other rows
are left in their places. `Worked` follows the commits of a delivery one by one.
-/

set_option autoImplicit false

namespace AssetDiscovery

/-- What the environment decides about a run, the clock and the drawing of ids aside. -/
structure Outlook where
  /-- The broker takes messages. -/
  up : Bool := true
  /-- The text of the failure when it does not. -/
  text : String := ""
  /-- What the resolver answers. -/
  lookups : AssetType → Lookup := fun _ ↦ .answer []
  /-- Which of several equally old PENDING scans is returned as the oldest one. -/
  pick : ℕ := 0

/-! ### Rows without times -/

/-- The columns an `UPDATE scans` sets, with every time at 0. -/
def ScanPatch.timeless (p : ScanPatch) : ScanPatch :=
  { p with
    startedAt := p.startedAt.map (·.map fun _ ↦ 0)
    completedAt := p.completedAt.map (·.map fun _ ↦ 0) }

/-- The row of a scan with every time at 0. -/
def Scan.timeless (s : Scan) : Scan :=
  { s with
    startedAt := s.startedAt.map fun _ ↦ 0
    completedAt := s.completedAt.map fun _ ↦ 0
    createdAt := 0 }

/-- The row of an asset with its time at 0. -/
def Asset.timeless (a : Asset) : Asset :=
  { a with createdAt := 0 }

/-- The row after `UPDATE`s of scan `x`, one after the other. -/
def Scan.marked (x : Id) (ps : List ScanPatch) (s : Scan) : Scan :=
  if s.id = x then ps.foldl (fun s p ↦ p.apply s) s else s

/-- The row after an `UPDATE` of domain `d`, if it gets a new status. -/
def Domain.marked (d : Id) (st : Option DomainStatus) (row : Domain) : Domain :=
  if row.id = d then { row with status := st.getD row.status } else row

section Timeless

variable {x : Id} {s : Scan} {p : ScanPatch}

@[simp] theorem Scan.timeless_id (s : Scan) : s.timeless.id = s.id := rfl

/-- A patch does the same to the times of a row whenever it is applied. -/
theorem ScanPatch.timeless_apply (p : ScanPatch) (s : Scan) :
    (p.apply s).timeless = p.timeless.apply s.timeless := by
  have h : ∀ (o : Option (Option Time)) (t : Option Time),
      (o.getD t).map (fun _ ↦ 0) = (o.map (·.map fun _ ↦ 0)).getD (t.map fun _ ↦ 0) := by
    intro o t
    cases o <;> rfl
  simp only [apply, Scan.timeless, timeless, h]

/-- What an `UPDATE` leaves depends, times aside, on what it found and set, times aside. -/
theorem Scan.timeless_marked_congr {ps ps' : List ScanPatch}
    (h : ps.map ScanPatch.timeless = ps'.map ScanPatch.timeless) :
    (s.marked x ps).timeless = (s.marked x ps').timeless := by
  have hfold : ∀ (ps : List ScanPatch) (s : Scan), (ps.foldl (fun s p ↦ p.apply s) s).timeless =
      (ps.map ScanPatch.timeless).foldl (fun s p ↦ p.apply s) s.timeless := by
    intro ps
    induction ps with
    | nil => exact fun _ ↦ rfl
    | cons p ps ih =>
      intro s
      rw [List.foldl_cons, ih, ScanPatch.timeless_apply]
      rfl
  unfold marked
  split
  · rw [hfold, hfold, h]
  · rfl

/-- Patches do not move a scan. -/
theorem Scan.foldl_apply (ps : List ScanPatch) (s : Scan) :
    (ps.foldl (fun s p ↦ p.apply s) s).id = s.id ∧
      (ps.foldl (fun s p ↦ p.apply s) s).domainId = s.domainId ∧
      (ps.foldl (fun s p ↦ p.apply s) s).createdAt = s.createdAt := by
  induction ps generalizing s with
  | nil => exact ⟨rfl, rfl, rfl⟩
  | cons p ps ih => exact ih (p.apply s)

@[simp] theorem Scan.marked_id (ps : List ScanPatch) : (s.marked x ps).id = s.id := by
  unfold marked
  split
  · exact (foldl_apply ps s).1
  · rfl

@[simp] theorem Scan.marked_domainId (ps : List ScanPatch) :
    (s.marked x ps).domainId = s.domainId := by
  unfold marked
  split
  · exact (foldl_apply ps s).2.1
  · rfl

/-- Only the scan is marked. -/
theorem Scan.marked_of_ne (ps : List ScanPatch) (h : s.id ≠ x) : s.marked x ps = s :=
  if_neg h

@[simp] theorem Scan.marked_nil : s.marked x [] = s := by
  unfold marked
  split <;> rfl

/-- The last patch is applied last. -/
theorem Scan.marked_append (ps : List ScanPatch) :
    s.marked x (ps ++ [p]) = if s.id = x then p.apply (s.marked x ps) else s.marked x ps := by
  unfold marked
  split
  · rw [List.foldl_append]
    rfl
  · rfl

@[simp] theorem Domain.marked_none (d : Id) (row : Domain) : row.marked d none = row := by
  unfold marked
  split <;> rfl

@[simp] theorem Domain.marked_id (d : Id) (st : Option DomainStatus) (row : Domain) :
    (row.marked d st).id = row.id := by
  unfold marked
  split <;> rfl

end Timeless

/-! ### What an operation sees of a domain -/

/-- The row of a domain and its scans. -/
structure DomainView where
  domain : Option Domain
  scans : List Scan

/-- What a database holds about domain `d`. -/
def Database.view (db : Database) (d : Id) : DomainView :=
  ⟨db.domains.get d, db.scansOf d⟩

/-- The PENDING ones among some scans that no other PENDING one is older than. -/
def oldestOf (scans : List Scan) : List Scan :=
  let pending := scans.filter fun s ↦ s.status = .pending
  pending.filter fun s ↦ ∀ s' ∈ pending, s.createdAt ≤ s'.createdAt

/-- The one of them that the ordered query returns. -/
def nextOf (scans : List Scan) (pick : ℕ) : Option Id :=
  (oldestOf scans)[pick % (oldestOf scans).length]?.map Scan.id

/-- The next-pending query looks at the scans of the domain only. -/
theorem Database.nextPending_eq (db : Database) (d : Id) (pick : ℕ) :
    db.nextPending d pick = nextOf (db.scansOf d) pick :=
  rfl

namespace DomainView

variable (v : DomainView)

/-- The row of scan `x` among those of the domain. -/
def scan (x : Id) : Option Scan :=
  v.scans.find? fun s ↦ s.id = x

/-- A scan of the domain is queued or in progress. -/
def Active : Prop :=
  ∃ s ∈ v.scans, s.status.IsActive

/-- A scan of the domain is in progress. -/
def Running : Prop :=
  ∃ s ∈ v.scans, s.status = .running

instance : Decidable v.Active :=
  inferInstanceAs (Decidable (∃ s ∈ v.scans, s.status.IsActive))

instance : Decidable v.Running :=
  inferInstanceAs (Decidable (∃ s ∈ v.scans, s.status = .running))

/-- The scan whose turn it is once `x` is finished. -/
def next (x : Id) (pick : ℕ) : Option Id :=
  nextOf (v.scans.filter fun s ↦ s.id ≠ x) pick

variable {db : Database} {x d : Id} {row : Scan}

/-- A scan of the domain is in its view. -/
theorem scan_view (hx : db.scans.get x = some row) (hd : row.domainId = d) :
    (db.view d).scan x = some row := by
  have hid : row.id = x := Table.key_of_get hx
  have hmem : row ∈ db.scansOf d :=
    List.mem_filter.2 ⟨Table.mem_of_get hx, decide_eq_true hd⟩
  show (db.scansOf d).find? (fun s ↦ s.id = x) = some row
  cases h : (db.scansOf d).find? fun s ↦ s.id = x with
  | none => exact absurd hid (by simpa using List.find?_eq_none.1 h row hmem)
  | some row' =>
    have hid' : row'.id = x := by simpa using List.find?_some h
    have hmem' := (List.mem_filter.1 (List.mem_of_find?_eq_some h)).1
    rw [Table.eq_of_key_eq hmem' (Table.mem_of_get hx) (hid'.trans hid.symm)]

/-- The view shows whether the domain has an active scan. -/
theorem active_view : (db.view d).Active ↔ (db.activeScan d).isSome := by
  rw [Database.activeScan, Option.isSome_map, List.find?_isSome]
  simp [Active, Database.view]

/-- The view shows whether it has a RUNNING one. -/
theorem running_view : (db.view d).Running ↔ (db.runningScan d).isSome := by
  rw [Database.runningScan, Option.isSome_map, List.find?_isSome]
  simp [Running, Database.view]

end DomainView

/-! ### What it does -/

/-- What a run does, the times it stamps and the ids of new assets aside. -/
structure DomainEffect where
  /-- What it returns or raises. -/
  answer : Except Exn Response
  /-- The messages it publishes. -/
  published : List Message := []
  /-- The domain is removed, with its scans and their assets. -/
  removes : Bool := false
  /-- The status that the domain gets. -/
  status : Option DomainStatus := none
  /-- The scan that is worked on. -/
  scan : Id := 0
  /-- The `UPDATE`s of its row, with every time at 0. -/
  marks : List ScanPatch := []
  /-- The records that are stored for it. -/
  records : List (AssetType × String) := []
  /-- The new scans, with every time at 0. -/
  enrolled : List Scan := []

/-- `enqueue_scan` of the scan whose turn it is, if there is one: how it ends and what it
publishes. -/
def Outlook.announce (w : Outlook) : Option Id → Except Exn Unit × List Message
  | none => (.ok (), [])
  | some y => if w.up then (.ok (), [⟨y, 0⟩]) else (.error (.broker w.text), [])

/-- An announcement reaches the broker, or fails. -/
theorem Outlook.announce_some (w : Outlook) (y : Id) : w.announce (some y) =
    (if w.up then .ok () else .error (.broker w.text), if w.up then [⟨y, 0⟩] else []) := by
  rw [announce]
  split <;> rfl

/-- An announcement that fails publishes nothing, and its error is not one that is tried again. -/
theorem Outlook.announce_error {w : Outlook} {next : Option Id} {e : Exn}
    (h : (w.announce next).1 = .error e) : (w.announce next).2 = [] ∧ ¬ e.IsRetryable := by
  cases next with
  | none => exact absurd h (by simp [announce])
  | some y =>
    rw [announce_some] at h ⊢
    by_cases hup : w.up = true
    · exact absurd h (by simp [hup])
    · rw [if_neg hup] at h
      obtain rfl := Except.error.inj h
      exact ⟨if_neg hup, id⟩

/-- How a job ends whose code ends in `a`. -/
def jobAnswer (a : Except Exn Unit) : Except Exn Response :=
  a.map fun _ ↦ .done

/-- `request.retries` of the attempt that may follow, if the task may be retried. -/
def nextAttempt (cfg : Settings) (task : Option ℕ) : Option ℕ :=
  (task.filter fun retries ↦ retries < cfg.scanMaxRetries).map (· + 1)

/-- What `_process_scan` does from the `mark_scan_running` call on, when `next` is the scan whose
turn it is after `x`. -/
def discoveryEffect (cfg : Settings) (w : Outlook) (x : Id) (task : Option ℕ) (next : Option Id) :
    DomainEffect :=
  match answers w.lookups with
  | .error e =>
    match if e.IsRetryable then nextAttempt cfg task else none with
    | some retries =>
      { answer := .error (if w.up then .retry else .reject w.text)
        published := if w.up then [⟨x, retries⟩] else []
        status := some .running
        scan := x
        marks := [.running 0] }
    | none =>
      { answer := jobAnswer (w.announce next).1
        published := (w.announce next).2
        status := some .failed
        scan := x
        marks := [.running 0, .failed 0 e.message] }
  | .ok records =>
    if ¬ Fits records then
      { answer := .error .pendingRollback
        status := some .running
        scan := x
        marks := [.running 0] }
    else
      match (w.announce next).1 with
      | .ok () =>
        { answer := .ok .done
          published := (w.announce next).2
          status := some .completed
          scan := x
          marks := [.running 0, .completed 0]
          records := records }
      | .error e =>
        -- the publish at the end fails, and is handled like an error of the discovery
        { answer := jobAnswer (w.announce next).1
          published := (w.announce next).2
          status := some .failed
          scan := x
          marks := [.running 0, .completed 0, .failed 0 e.message]
          records := records }

/-- What a delivery of scan `x` does. -/
def deliveryEffect (cfg : Settings) (w : Outlook) (x : Id) (task : Option ℕ) (v : DomainView) :
    DomainEffect :=
  match v.scan x with
  | none => { answer := .ok .done }
  | some row =>
    if ¬ row.status.IsActive then { answer := .ok .done }
    else if v.Running ∧ row.status ≠ .running then { answer := .ok .done }
    else discoveryEffect cfg w x task (v.next x w.pick)

/-- The next scan is one of the domain. -/
theorem DomainView.mem_of_next {v : DomainView} {x y : Id} {pick : ℕ}
    (h : v.next x pick = some y) : ∃ s ∈ v.scans, s.id = y := by
  obtain ⟨s, hs, rfl⟩ := Option.map_eq_some_iff.1 h
  have hpending := (List.mem_filter.1 (List.mem_of_getElem? hs)).1
  exact ⟨s, (List.mem_filter.1 (List.mem_filter.1 hpending).1).1, rfl⟩

/-- Only the next scan is announced. -/
theorem Outlook.mem_announce {w : Outlook} {next : Option Id} {m : Message}
    (h : m ∈ (w.announce next).2) : next = some m.scan := by
  cases next with
  | none => exact absurd h List.not_mem_nil
  | some y =>
    rw [announce_some] at h
    split at h
    · rw [List.mem_singleton.1 h]
    · exact absurd h List.not_mem_nil

/-- The effect of a job: it answers nothing but its end, removes nothing, enrolls nothing, and
publishes only scans that it has seen. -/
structure DomainEffect.IsJob (v : DomainView) (o : DomainEffect) : Prop where
  answer : ∃ a, o.answer = jobAnswer a
  removes : o.removes = false
  enrolled : o.enrolled = []
  published : ∀ m ∈ o.published, ∃ s ∈ v.scans, s.id = m.scan

/-- A discovery works on scans of its domain. -/
theorem isJob_discoveryEffect {cfg : Settings} {w : Outlook} {x : Id} {task : Option ℕ}
    {next : Option Id} {v : DomainView} (hx : ∃ s ∈ v.scans, s.id = x)
    (hnext : ∀ y, next = some y → ∃ s ∈ v.scans, s.id = y) :
    (discoveryEffect cfg w x task next).IsJob v := by
  have hannounced : ∀ m ∈ (w.announce next).2, ∃ s ∈ v.scans, s.id = m.scan :=
    fun m hm ↦ hnext m.scan (Outlook.mem_announce hm)
  unfold discoveryEffect
  split
  · split
    · refine ⟨⟨.error _, rfl⟩, rfl, rfl, fun m hm ↦ ?_⟩
      simp only at hm
      split at hm
      · rw [List.mem_singleton.1 hm]
        exact hx
      · exact absurd hm List.not_mem_nil
    · exact ⟨⟨_, rfl⟩, rfl, rfl, hannounced⟩
  · split
    · exact ⟨⟨.error _, rfl⟩, rfl, rfl, fun m hm ↦ absurd hm List.not_mem_nil⟩
    · split
      · exact ⟨⟨.ok (), rfl⟩, rfl, rfl, hannounced⟩
      · exact ⟨⟨_, rfl⟩, rfl, rfl, hannounced⟩

/-- So does a delivery. -/
theorem isJob_deliveryEffect (cfg : Settings) (w : Outlook) (x : Id) (task : Option ℕ)
    (v : DomainView) : (deliveryEffect cfg w x task v).IsJob v := by
  have hnothing : DomainEffect.IsJob v { answer := .ok .done } :=
    ⟨⟨.ok (), rfl⟩, rfl, rfl, fun m hm ↦ absurd hm List.not_mem_nil⟩
  unfold deliveryEffect
  cases hx : v.scan x with
  | none => exact hnothing
  | some row =>
    simp only
    split
    · exact hnothing
    split
    · exact hnothing
    · have hid : row.id = x := by simpa using List.find?_some hx
      exact isJob_discoveryEffect ⟨row, List.mem_of_find?_eq_some hx, hid⟩
        fun y hy ↦ DomainView.mem_of_next hy

/-- What `trigger_manual_scan` does, if it draws `x`. -/
def triggerEffect (w : Outlook) (d user x : Id) (v : DomainView) : DomainEffect :=
  match v.domain with
  | none => { answer := .error (.http 404 "Domain not found") }
  | some row =>
    if v.Active then
      { answer := .error (.http 409 "A scan is already running for this domain") }
    else
      { answer := if w.up then .ok (.trigger x .pending) else .error (.broker w.text)
        published := if w.up then [⟨x, 0⟩] else []
        status := if row.status = .running then none else some .pending
        enrolled := [⟨x, d, .pending, some user, none, none, none, 0⟩] }

/-- What `delete_domain` does. -/
def deleteEffect (v : DomainView) : DomainEffect :=
  match v.domain with
  | none => { answer := .error (.http 404 "Domain not found") }
  | some _ => { answer := .ok .done, removes := true }

/-- A trigger publishes the scan that it enrolls. -/
theorem triggerEffect_published {w : Outlook} {d user x : Id} {v : DomainView} :
    ∀ m ∈ (triggerEffect w d user x v).published,
      ∃ s ∈ (triggerEffect w d user x v).enrolled, s.id = m.scan := by
  unfold triggerEffect
  split
  · exact fun m hm ↦ absurd hm List.not_mem_nil
  split
  · exact fun m hm ↦ absurd hm List.not_mem_nil
  · intro m hm
    simp only at hm
    split at hm
    · exact ⟨_, List.mem_singleton.2 rfl, by rw [List.mem_singleton.1 hm]⟩
    · exact absurd hm List.not_mem_nil

/-- A deletion publishes nothing and enrolls nothing. -/
theorem deleteEffect_published (v : DomainView) :
    (deleteEffect v).published = [] ∧ (deleteEffect v).enrolled = [] := by
  unfold deleteEffect
  split
  · exact ⟨rfl, rfl⟩
  · exact ⟨rfl, rfl⟩

/-! ### How the tables carry it out -/

/-- An asset of domain `d`, or of one of its scans. -/
def Database.Owns (db : Database) (d : Id) (a : Asset) : Prop :=
  a.domainId = d ∨ ∃ s ∈ db.scans.get a.scanId, s.domainId = d

instance (db : Database) (d : Id) : DecidablePred (db.Owns d) := fun a ↦
  inferInstanceAs (Decidable (a.domainId = d ∨ ∃ s ∈ db.scans.get a.scanId, s.domainId = d))

namespace DomainEffect

variable (o : DomainEffect) (d : Id)

/-- What becomes of the domains. -/
def domainEdit : Edit Domain where
  keep row :=
    if row.id = d then if o.removes then none else some (row.marked d o.status) else some row
  added := []

/-- What becomes of the scans, with the `UPDATE`s that were made and the rows that were added. -/
def scanEdit (ps : List ScanPatch) (new : List Scan) : Edit Scan where
  keep s :=
    if s.domainId = d then if o.removes then none else some (s.marked o.scan ps) else some s
  added := new

/-- What becomes of the assets, with the rows that were added. -/
def assetEdit (db : Database) (new : List Asset) : Edit Asset where
  keep a := if o.removes ∧ db.Owns d a then none else some a
  added := new

/-- The tables are edited as the effect says, with the `UPDATE`s `ps` and the new rows `new` and
`as`. -/
structure CarriedOut (db : Database) (ps : List ScanPatch) (new : List Scan) (as : List Asset)
    (db' : Database) : Prop where
  domains : db'.domains.rows = (o.domainEdit d).apply db.domains.rows
  scans : db'.scans.rows = (o.scanEdit d ps new).apply db.scans.rows
  assets : db'.assets.rows = (o.assetEdit d db as).apply db.assets.rows
  marks : ps.map ScanPatch.timeless = o.marks
  enrolled : new.map Scan.timeless = o.enrolled
  records : as.map Database.recordOf = o.records
  fresh : ∀ s ∈ new, db.scans.get s.id = none ∧ s.domainId = d
  stored : ∀ a ∈ as, db.assets.get a.id = none ∧ a.scanId = o.scan ∧ a.domainId = d ∧
    ∃ s ∈ db.scans, s.id = o.scan ∧ s.domainId = d

/-- A run that ends in `a` does what the effect says. -/
def Describes (db : Database) (q : List Message) (a : Except Exn Response) (db' : Database)
    (q' : List Message) : Prop :=
  a = o.answer ∧ q' = q ++ o.published ∧ ∃ ps new as, o.CarriedOut d db ps new as db'

variable {o d} {db db' : Database} {ps : List ScanPatch} {new : List Scan} {as : List Asset}

/-- The edit of the domains concerns one of them. -/
theorem within_domainEdit : (o.domainEdit d).Within fun row ↦ row.id = d where
  outside row hrow := if_neg hrow
  inside row row' hrow hkeep := by
    simp only [domainEdit, if_pos hrow] at hkeep
    split at hkeep
    · exact absurd hkeep (by simp)
    · rw [← Option.some.inj hkeep, Domain.marked_id]
      exact hrow
  added row hrow := absurd hrow List.not_mem_nil

/-- The edit of the scans concerns those of the domain. -/
theorem within_scanEdit (hnew : ∀ s ∈ new, s.domainId = d) :
    (o.scanEdit d ps new).Within fun s ↦ s.domainId = d where
  outside s hs := if_neg hs
  inside s s' hs hkeep := by
    simp only [scanEdit, if_pos hs] at hkeep
    split at hkeep
    · exact absurd hkeep (by simp)
    · rw [← Option.some.inj hkeep, Scan.marked_domainId]
      exact hs
  added s hs := hnew s hs

/-- An operation that does nothing but answer. -/
theorem carriedOut_self (d : Id) (db : Database) (a : Except Exn Response) :
    CarriedOut { answer := a } d db [] [] [] db := by
  refine ⟨?_, ?_, ?_, rfl, rfl, rfl, by simp, by simp⟩
  · rw [Edit.apply_eq_append fun row _ ↦ by simp [domainEdit]]
    exact (List.append_nil _).symm
  · rw [Edit.apply_eq_append fun s _ ↦ by simp [scanEdit]]
    exact (List.append_nil _).symm
  · rw [Edit.apply_eq_append fun a _ ↦ by simp [assetEdit]]
    exact (List.append_nil _).symm

/-- What changes nothing is described by no edit. -/
theorem describes_self {q : List Message} (a : Except Exn Response) :
    Describes { answer := a } d db q a db q :=
  ⟨rfl, (List.append_nil q).symm, [], [], [], carriedOut_self d db a⟩

/-- `DELETE FROM domains`, with its cascades. -/
theorem carriedOut_deleteDomain (d : Id) (db : Database) (a : Except Exn Response) :
    CarriedOut { answer := a, removes := true } d db [] [] [] (db.deleteDomain d) := by
  refine ⟨?_, ?_, ?_, rfl, rfl, rfl, by simp, by simp⟩
  · rw [Edit.apply_eq_filter (p := fun row ↦ row.id ≠ d) fun row _ ↦ ?_]
    · exact (List.append_nil _).symm
    · by_cases hrow : row.id = d <;> simp [domainEdit, hrow]
  · rw [Edit.apply_eq_filter (p := fun s ↦ s.domainId ≠ d) fun s _ ↦ ?_]
    · exact (List.append_nil _).symm
    · by_cases hs : s.domainId = d <;> simp [scanEdit, hs]
  · rw [Edit.apply_eq_filter (p := fun r ↦ r.domainId ≠ d ∧
      ((db.scans.get r.scanId).filter fun s ↦ s.domainId ≠ d).isSome) fun r hr ↦ ?_]
    · exact (List.append_nil _).symm
    · obtain ⟨s, hs⟩ := Option.isSome_iff_exists.1 (db.asset_scan r hr)
      by_cases hd : r.domainId = d <;> by_cases hsd : s.domainId = d <;>
        simp [assetEdit, Database.Owns, hs, hd, hsd, Option.filter]

/-- A new scan `row` of the domain, which may get the status `st`. -/
theorem carriedOut_enroll (row : Scan) (st : Option DomainStatus)
    (hfree : db.scans.get row.id = none) (hd : row.domainId = d)
    (hdomains : db'.domains.rows = db.domains.rows.map (Domain.marked d st))
    (hscans : db'.scans.rows = db.scans.rows ++ [row]) (hassets : db'.assets = db.assets)
    (a : Except Exn Response) (ms : List Message) :
    CarriedOut { answer := a, published := ms, status := st, enrolled := [row.timeless] } d db []
      [row] [] db' := by
  refine ⟨?_, ?_, ?_, rfl, rfl, rfl, ?_, by simp⟩
  · rw [hdomains, Edit.apply_eq_map (F := Domain.marked d st) fun r _ ↦ ?_]
    · exact (List.append_nil _).symm
    · by_cases hr : r.id = d <;> simp [domainEdit, Domain.marked, hr]
  · rw [hscans, Edit.apply_eq_append fun s _ ↦ by simp [scanEdit]]
    rfl
  · rw [hassets, Edit.apply_eq_append fun a _ ↦ by simp [assetEdit]]
    exact (List.append_nil _).symm
  · rintro s hs
    obtain rfl := List.mem_singleton.1 hs
    exact ⟨hfree, hd⟩

/-- A trigger that finds the domain in `row`, without active scans. -/
theorem triggerEffect_eq {w : Outlook} {x user : Id} {row : Domain} {v : DomainView}
    (hd : v.domain = some row) (hfree : ¬ v.Active) : triggerEffect w d user x v =
      { answer := if w.up then .ok (.trigger x .pending) else .error (.broker w.text)
        published := if w.up then [⟨x, 0⟩] else []
        status := if row.status = .running then none else some .pending
        enrolled := [⟨x, d, .pending, some user, none, none, none, 0⟩] } := by
  simp only [triggerEffect, hd, if_neg hfree]

/-- The transaction of a trigger that has found the domain in `row`, without active scans. -/
theorem carriedOut_trigger {w : Outlook} {x user : Id} {row : Domain} (now : Time)
    (hx : db.scans.get x = none) (hd : db.domains.get d = some row)
    (hfree : ¬ (db.view d).Active) {ws : List Write}
    (hws : if row.status = .running then ws = []
      else (ws = [] ∧ row.status = .pending) ∨ ws = [.updateDomain d .pending]) :
    ∃ db', db.writeAll now (.insertScan x d .pending (some user) :: ws) = .ok db' ∧
      db'.scans.get x = some ⟨x, d, .pending, some user, none, none, none, now⟩ ∧
      (triggerEffect w d user x (db.view d)).CarriedOut d db []
        [⟨x, d, .pending, some user, none, none, none, now⟩] [] db' := by
  have hsome : (db.domains.get d).isSome := by rw [hd]; rfl
  have hwrite := Database.write_insertScan now (some user) hx hsome
  have hget : (db.insertScan ⟨x, d, .pending, some user, none, none, none, now⟩ hx hsome).scans.get
      x = some ⟨x, d, .pending, some user, none, none, none, now⟩ :=
    (Table.get_insert _ _ hx x).trans (if_pos rfl)
  rw [triggerEffect_eq hd hfree, Database.writeAll, hwrite]
  -- the rows of the domains when only the scan has been inserted
  have hsame : ∀ st : Option DomainStatus, st.getD row.status = row.status →
      db.domains.rows = db.domains.rows.map (Domain.marked d st) := by
    intro st hst
    refine ((List.map_congr_left fun r hr ↦ ?_).trans (List.map_id _)).symm
    unfold Domain.marked
    split
    · next hid =>
      obtain rfl : r = row := Option.some.inj ((hid ▸ Table.get_key hr).symm.trans hd)
      rw [hst]
      rfl
    · rfl
  by_cases hrunning : row.status = .running
  · rw [if_pos hrunning] at hws ⊢
    subst hws
    refine ⟨_, rfl, hget, carriedOut_enroll ⟨x, d, .pending, some user, none, none, none, now⟩ none
      hx rfl ?_ ?_ ?_ _ _⟩
    exacts [hsame none rfl, rfl, rfl]
  · rw [if_neg hrunning] at hws ⊢
    rcases hws with ⟨rfl, hpending⟩ | rfl
    · refine ⟨_, rfl, hget, carriedOut_enroll ⟨x, d, .pending, some user, none, none, none, now⟩
        (some .pending) hx rfl ?_ ?_ ?_ _ _⟩
      exacts [hsame (some .pending) hpending.symm, rfl, rfl]
    · have hd' : (db.insertScan ⟨x, d, .pending, some user, none, none, none, now⟩ hx
          hsome).domains.get d = some row := hd
      refine ⟨_, Database.writeAll_updateDomain now hd' .pending, hget, carriedOut_enroll
        ⟨x, d, .pending, some user, none, none, none, now⟩ (some .pending) hx rfl ?_ ?_ ?_ _ _⟩
      exacts [rfl, rfl, rfl]

end DomainEffect

/-! ### The commits of a delivery -/

/-- So far the scan `x` of domain `d` has been updated by `ps`, the domain has got the status `st`,
if any, and the assets `as` have been stored. -/
structure Worked (db : Database) (x d : Id) (ps : List ScanPatch) (st : Option DomainStatus)
    (as : List Asset) (db' : Database) : Prop where
  domains : db'.domains.rows = db.domains.rows.map (Domain.marked d st)
  scans : db'.scans.rows = db.scans.rows.map (Scan.marked x ps)
  assets : db'.assets.rows = db.assets.rows ++ as
  stored : ∀ a ∈ as, a.scanId = x ∧ a.domainId = d

namespace Worked

variable {db db₁ db₂ : Database} {x d : Id} {ps : List ScanPatch} {st : Option DomainStatus}
  {as : List Asset}

/-- A scan on which nothing has been done yet. -/
theorem refl (db : Database) (x d : Id) : Worked db x d [] none [] db := by
  refine ⟨?_, ?_, (List.append_nil _).symm, by simp⟩
  · refine ((List.map_congr_left fun row _ ↦ ?_).trans (List.map_id _)).symm
    simp [Domain.marked]
  · refine ((List.map_congr_left fun s _ ↦ ?_).trans (List.map_id _)).symm
    simp

/-- A `mark_scan_*` and the `set_domain_status` after it. -/
theorem settle (h : Worked db x d ps st as db₁) (p : ScanPatch) (st' : DomainStatus) :
    Worked db x d (ps ++ [p]) (some st') as (db₁.settle x d p st') := by
  refine ⟨?_, ?_, h.assets, h.stored⟩
  · show db₁.domains.rows.map _ = _
    rw [h.domains, List.map_map]
    refine List.map_congr_left fun row _ ↦ ?_
    by_cases hrow : row.id = d <;> simp [Domain.marked, hrow]
  · show db₁.scans.rows.map _ = _
    rw [h.scans, List.map_map]
    refine List.map_congr_left fun s _ ↦ ?_
    rw [Scan.marked_append, Function.comp, Scan.marked_id]

/-- `create_assets`. -/
theorem store (h : Worked db x d ps st as db₁) {rs : List (AssetType × String)}
    (hstored : Stored db₁ x d rs db₂) :
    ∃ as', as'.map Database.recordOf = rs ∧ Worked db x d ps st (as ++ as') db₂ := by
  obtain ⟨as', hassets, hrecords, hof⟩ := hstored.assets
  refine ⟨as', hrecords, ?_, ?_, ?_, ?_⟩
  · rw [hstored.domains, h.domains]
  · rw [hstored.scans, h.scans]
  · rw [hassets, h.assets, List.append_assoc]
  · intro a ha
    rcases List.mem_append.1 ha with ha | ha
    · exact h.stored a ha
    · exact hof a ha

/-- The scans of the domain afterwards. -/
theorem scansOf (h : Worked db x d ps st as db₁) :
    db₁.scansOf d = (db.scansOf d).map (Scan.marked x ps) := by
  rw [Database.scansOf, h.scans, List.filter_map, Database.scansOf]
  congr 1
  refine List.filter_congr fun s _ ↦ ?_
  simp

/-- The scan whose turn it is once `x` has got a final status. -/
theorem nextPending {p : ScanPatch} (h : Worked db x d (ps ++ [p]) st as db₁) {xst : ScanStatus}
    (hp : p.status = some xst) (hxst : xst ≠ .pending) (pick : ℕ) :
    db₁.nextPending d pick = (db.view d).next x pick := by
  have hmarked : ∀ s : Scan, ((s.marked x (ps ++ [p])).status = .pending ↔
      s.id ≠ x ∧ s.status = .pending) := by
    intro s
    by_cases hs : s.id = x
    · simp [Scan.marked_append, hs, hp, hxst]
    · simp [Scan.marked_of_ne _ hs, hs]
  have hpending : (db₁.scansOf d).filter (fun s ↦ s.status = .pending) =
      ((db.view d).scans.filter fun s ↦ s.id ≠ x).filter fun s ↦ s.status = .pending := by
    rw [h.scansOf, List.filter_map, List.filter_filter]
    refine (List.map_congr_left fun s hs ↦ ?_).trans ((List.map_id _).trans ?_)
    · have hs' := (List.mem_filter.1 hs).2
      simp only [Function.comp, hmarked, decide_eq_true_eq] at hs'
      exact Scan.marked_of_ne _ hs'.1
    · refine List.filter_congr fun s _ ↦ ?_
      simp only [Function.comp, hmarked]
      by_cases hs : s.id = x <;> simp [hs]
  rw [Database.nextPending_eq, DomainView.next, nextOf, nextOf, oldestOf, oldestOf, hpending]

/-- A database is carried out by what has been done so far. -/
theorem carriedOut (h : Worked db x d ps st as db₁) {row : Scan}
    (hx : db.scans.get x = some row) (hd : row.domainId = d) (a : Except Exn Response)
    (ms : List Message) :
    DomainEffect.CarriedOut
      { answer := a, published := ms, status := st, scan := x, marks := ps.map ScanPatch.timeless
        records := as.map Database.recordOf } d db ps [] as db₁ := by
  refine ⟨?_, ?_, ?_, rfl, rfl, rfl, by simp, fun r hr ↦ ⟨?_, (h.stored r hr).1, (h.stored r hr).2,
    row, Table.mem_of_get hx, Table.key_of_get hx, hd⟩⟩
  · rw [h.domains, Edit.apply_eq_map (F := Domain.marked d st) fun row _ ↦ ?_]
    · exact (List.append_nil _).symm
    · by_cases hrow : row.id = d <;> simp [DomainEffect.domainEdit, Domain.marked, hrow]
  · rw [h.scans, Edit.apply_eq_map (F := Scan.marked x ps) fun s hs ↦ ?_]
    · exact (List.append_nil _).symm
    · by_cases hsd : s.domainId = d
      · simp [DomainEffect.scanEdit, hsd]
      · have hne : s.id ≠ x := by
          rintro rfl
          rw [Table.get_key hs] at hx
          exact hsd (Option.some.inj hx ▸ hd)
        simp [DomainEffect.scanEdit, hsd, Scan.marked_of_ne ps hne]
  · rw [h.assets, Edit.apply_eq_append fun r _ ↦ by simp [DomainEffect.assetEdit]]
    rfl
  · have hnodup := db₁.assets.nodup
    rw [h.assets, List.map_append] at hnodup
    refine Table.get_eq_none_iff.2 fun r' hr' hid ↦ ?_
    exact List.disjoint_of_nodup_append hnodup (List.mem_map_of_mem hr')
      (hid ▸ List.mem_map_of_mem hr)

/-- What is left to prove when a delivery ends: its effect is one with these rows. -/
theorem describes {db' : Database} {row : Scan} {ms : List Message} {a : Except Exn Response}
    {marks : List ScanPatch} {records : List (AssetType × String)} {q q' : List Message}
    (h : Worked db x d ps st as db')
    (hx : db.scans.get x = some row) (hd : row.domainId = d)
    (hmarks : ps.map ScanPatch.timeless = marks) (hrecords : as.map Database.recordOf = records)
    (hq' : q' = q ++ ms) :
    DomainEffect.Describes { answer := a, published := ms, status := st, scan := x, marks := marks
                             records := records } d db q a db' q' := by
  subst hmarks hrecords
  exact ⟨rfl, hq', ps, [], as, h.carriedOut hx hd a ms⟩

end Worked

end AssetDiscovery
