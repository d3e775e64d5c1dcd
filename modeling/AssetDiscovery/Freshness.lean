import AssetDiscovery.Library.Names
import AssetDiscovery.Rows
import AssetDiscovery.Work
import AssetDiscovery.World

/-!
# Every row gets an id of its own

The ids of new domains and scans are drawn by the request that inserts them, after which it forgets
them, so two inserts never carry the same id: not even when the row of the first one has been
deleted in between. `naming` is what the operations of the service do with ids, `Store.Taken` and
`Store.Drawn` are what the store knows of them, and `World.Named` is the invariant.

The requests that insert rows are gone through function by function (`Py.Draws`); the other
processes never come into a phase in which they could insert one.
-/

set_option autoImplicit false

namespace AssetDiscovery

open Effect

/-- The ids of the domains and scans that a statement inserts. -/
def Write.inserts : Write → List Id
  | .insertDomain d _ _ _ => [d]
  | .insertScan x _ _ _ => [x]
  | .insertAsset .. | .updateScan .. | .updateDomain .. | .deleteDomain _ => []

/-- The ids that an answer hands out. -/
def Op.drawn : (o : Op) → o.Res → List Id
  | .uuid4, id => [id]
  | .query _, _ | .flush _, _ | .commit _ _, _ | .rollback, _ | .close, _ | .publish _, _
  | .lookup _ _, _ | .now, _ => []

/-- The ids under which an operation inserts rows. -/
def Op.inserts : Op → List Id
  | .commit _ ws => ws.flatMap Write.inserts
  | .query _ | .flush _ | .rollback | .close | .publish _ | .lookup _ _ | .now | .uuid4 => []

/-- The ids under which it has done so. -/
def Op.inserted : (o : Op) → o.Res → List Id
  | .commit _ ws, .ok () => ws.flatMap Write.inserts
  | .commit _ _, .error _ | .query _, _ | .flush _, _ | .rollback, _ | .close, _ | .publish _, _
  | .lookup _ _, _ | .now, _ | .uuid4, _ => []

/-- What has been inserted was to be inserted. -/
theorem Op.mem_inserts_of_inserted {o : Op} {r : o.Res} {y : Id} (h : y ∈ o.inserted r) :
    y ∈ o.inserts := by
  cases o with
  | commit site ws =>
    cases r with
    | error => exact absurd h List.not_mem_nil
    | ok => exact h
  | _ => exact absurd h List.not_mem_nil

/-- What the operations of the service do with ids. -/
def naming : Naming Op Op.Res Id where
  drawn := Op.drawn
  used := Op.inserts
  spent := Op.inserted
  spent_used := Op.mem_inserts_of_inserted

namespace Store

/-- `uuid4` has returned this id. -/
def Drawn (s : Store) (y : Id) : Prop :=
  y < s.uuids

/-- There is a domain or a scan with this id. -/
def Taken (s : Store) (y : Id) : Prop :=
  s.db.domains.get y ≠ none ∨ s.db.scans.get y ≠ none

end Store

/-- Only an insertion under an id makes a row with this id appear. -/
theorem Database.taken_of_writeAll {db db' : Database} {now : Time} {ws : List Write} {y : Id}
    (hdb : db.writeAll now ws = .ok db') (h : db'.domains.get y ≠ none ∨ db'.scans.get y ≠ none) :
    (db.domains.get y ≠ none ∨ db.scans.get y ≠ none) ∨ y ∈ ws.flatMap Write.inserts := by
  refine or_iff_not_imp_left.2 fun hfree ↦ List.mem_flatMap.2 ?_
  simp only [not_or, ne_eq, not_not] at hfree
  rcases h with h | h
  · obtain ⟨name, st, user, hmem⟩ := Database.new_domain_of_writeAll hdb hfree.1 h
    exact ⟨_, hmem, List.mem_singleton_self y⟩
  · obtain ⟨d, st, user, hmem⟩ := Database.new_scan_of_writeAll hdb hfree.2 h
    exact ⟨_, hmem, List.mem_singleton_self y⟩

/-- Ids are never handed out again. -/
theorem uuids_le_of_serve {i : ℕ} {o : Op} {e : Env} {s s' : Store} {r : o.Res}
    (h : serve i o e s = some (r, s')) : s.uuids ≤ s'.uuids := by
  cases o with
  | query q =>
    simp only [serve] at h
    split at h
    · obtain ⟨-, rfl⟩ := Prod.mk.inj (Option.some.inj h)
      exact le_rfl
    · cases q with
      | domainForUpdate d =>
        simp only at h
        split at h
        · exact absurd h (by simp)
        · split at h
          · obtain ⟨-, rfl⟩ := Prod.mk.inj (Option.some.inj h)
            exact le_rfl
          · obtain ⟨-, rfl⟩ := Prod.mk.inj (Option.some.inj h)
            exact le_rfl
      | _ =>
        obtain ⟨-, rfl⟩ := Prod.mk.inj (Option.some.inj h)
        exact le_rfl
  | flush ws | commit site ws =>
    simp only [serve] at h
    split at h
    · obtain ⟨-, rfl⟩ := Prod.mk.inj (Option.some.inj h)
      exact le_rfl
    · split at h
      · exact absurd h (by simp)
      · split at h
        · obtain ⟨-, rfl⟩ := Prod.mk.inj (Option.some.inj h)
          exact le_rfl
        · obtain ⟨-, rfl⟩ := Prod.mk.inj (Option.some.inj h)
          exact le_rfl
  | publish m =>
    simp only [serve] at h
    split at h
    · obtain ⟨-, rfl⟩ := Prod.mk.inj (Option.some.inj h)
      exact le_rfl
    · obtain ⟨-, rfl⟩ := Prod.mk.inj (Option.some.inj h)
      exact le_rfl
  | uuid4 =>
    obtain ⟨-, rfl⟩ := Prod.mk.inj (Option.some.inj h)
    exact (le_max_left _ _).trans (Nat.le_succ _)
  | rollback | close | lookup | now =>
    obtain ⟨-, rfl⟩ := Prod.mk.inj (Option.some.inj h)
    exact le_rfl

/-- The store hands out new ids only, and rows get ids only by being inserted. -/
theorem naming_sound : naming.Sound Phase.Possible Store.Drawn Store.Taken serve where
  possible h := World.possible_of_serve h
  fresh := by
    intro i o e r s s' y h hy
    cases o with
    | uuid4 =>
      obtain ⟨rfl, rfl⟩ := Prod.mk.inj (Option.some.inj h)
      obtain rfl := List.mem_singleton.1 hy
      exact ⟨(le_max_left _ _).not_gt, Nat.lt_succ_self _⟩
    | _ => exact absurd hy List.not_mem_nil
  mono h hy := Nat.lt_of_lt_of_le hy (uuids_le_of_serve h)
  taken := by
    intro i o e r s s' y h hy
    cases o with
    -- only a commit adds rows, and their ids stand in its statements
    | commit site ws =>
      rcases (serve_commit h).2 with ⟨-, hdb⟩ | ⟨rfl, -, now, hdb⟩
      · rw [Store.Taken, hdb] at hy
        exact Or.inl hy
      · exact Database.taken_of_writeAll hdb hy
    | _ =>
      rcases serve_db h with hdb | ⟨site, ws, now, ho, -⟩
      · rw [Store.Taken, hdb] at hy
        exact Or.inl hy
      · exact absurd ho (by simp)

/-! ### The code draws the ids that it inserts -/

namespace Session

variable {σ : Session}

/-- The ids that the open transaction inserts. -/
def inserts (σ : Session) : List Id :=
  (σ.flushed ++ σ.work).flatMap Write.inserts

theorem inserts_addWork (w : Write) : (σ.addWork w).inserts = σ.inserts ++ w.inserts := by
  simp [inserts, addWork]

theorem inserts_assignDomain (d : Id) (st : DomainStatus) :
    (σ.assignDomain d st).inserts = σ.inserts := by
  unfold assignDomain
  split
  · exact (inserts_addWork _).trans (List.append_nil _)
  · split
    · rfl
    · exact (inserts_addWork _).trans (List.append_nil _)

end Session

namespace Py

variable {α β : Type}

/-- The code inserts only rows whose ids it has drawn itself. -/
def Draws (m : Py α) : Prop :=
  ∀ (σ : Session) (hand : Set Id), (∀ y ∈ σ.inserts, y ∈ hand) →
    (m σ).Follows (naming.discipline Phase.Possible) (fun q hand ↦ ∀ y ∈ q.2.inserts, y ∈ hand)
      hand

theorem draws_pure (a : α) : Draws (pure a) :=
  fun _ _ h ↦ h

theorem draws_raise (e : Exn) : Draws (raise e : Py α) :=
  fun _ _ h ↦ h

theorem draws_session : Draws session :=
  fun _ _ h ↦ h

theorem draws_modify {f : Session → Session} (h : ∀ σ, (f σ).inserts = σ.inserts) :
    Draws (modify f) := by
  intro σ hand hσ
  show ∀ y ∈ (f σ).inserts, y ∈ hand
  rwa [h]

/-- The rule of sequential composition. -/
theorem Draws.bind {m : Py α} {f : α → Py β} (hm : Draws m) (hf : ∀ a, Draws (f a)) :
    Draws (m >>= f) := by
  intro σ hand h
  refine Program.follows_bind.2 (Program.Follows.mono (hm σ hand h) ?_)
  rintro ⟨e | a, σ'⟩ hand' h'
  · exact h'
  · exact hf a σ' hand' h'

/-- What a lookup has found decides how the code goes on. -/
theorem Draws.bindOption {m : Py (Option α)} {f : Option α → Py β} (hm : Draws m)
    (hnone : Draws (f none)) (hsome : ∀ a, Draws (f (some a))) : Draws (m >>= f) := by
  refine hm.bind fun found ↦ ?_
  cases found with
  | none => exact hnone
  | some a => exact hsome a

/-- An operation that uses up no id. -/
theorem draws_call {o : Op} (h : o.inserts = []) : Draws (call o) := by
  intro σ hand hσ
  have hnone : ∀ y, y ∉ o.inserts := fun y hy ↦ by
    rw [h] at hy
    exact absurd hy List.not_mem_nil
  exact ⟨fun y hy ↦ absurd hy (hnone y), fun r _ y hy ↦
    Or.inr ⟨hσ y hy, fun hy' ↦ hnone y (Op.mem_inserts_of_inserted hy')⟩⟩

/-- The id of a new row is drawn right before the row is added. -/
theorem draws_add {w : Id → Write} {k : Id → Py α} (hw : ∀ id, (w id).inserts = [id])
    (hk : ∀ id, Draws (k id)) :
    Draws (do
      let id ← call .uuid4
      add (w id)
      k id) := by
  intro σ hand hσ
  refine ⟨fun y hy ↦ absurd hy List.not_mem_nil, fun id _ ↦ hk id _ _ fun y hy ↦ ?_⟩
  rw [Session.inserts_addWork, hw] at hy
  rcases List.mem_append.1 hy with hy | hy
  · exact Or.inr ⟨hσ y hy, List.not_mem_nil⟩
  · exact Or.inl hy

theorem draws_select {q : Query} : Draws (select q) := by
  intro σ hand hσ
  unfold select
  split
  · exact hσ
  · refine ⟨fun y hy ↦ absurd hy List.not_mem_nil, fun r _ ↦ ?_⟩
    cases r with
    | ok row => exact fun y hy ↦ Or.inr ⟨hσ y hy, List.not_mem_nil⟩
    | error err => exact fun y hy ↦ Or.inr ⟨hσ y hy, List.not_mem_nil⟩

theorem draws_flush : Draws flush := by
  intro σ hand hσ
  unfold flush
  split
  · exact hσ
  · refine ⟨fun y hy ↦ absurd hy List.not_mem_nil, fun r _ ↦ ?_⟩
    cases r with
    | ok _ =>
      intro y hy
      rw [Session.inserts, List.append_nil] at hy
      exact Or.inr ⟨hσ y hy, List.not_mem_nil⟩
    | error err => exact fun y hy ↦ absurd hy List.not_mem_nil

/-- A commit inserts what the session holds, and nothing is left. -/
theorem draws_commit {site : Site} : Draws (commit site) := by
  intro σ hand hσ
  unfold commit
  split
  · exact hσ
  · refine ⟨hσ, fun r _ ↦ ?_⟩
    cases r with
    | ok _ => exact fun y hy ↦ absurd hy List.not_mem_nil
    | error err => exact fun y hy ↦ absurd hy List.not_mem_nil

theorem draws_rollback : Draws rollback :=
  fun _ _ _ ↦ ⟨fun _ hy ↦ absurd hy List.not_mem_nil, fun _ _ _ hy ↦ absurd hy List.not_mem_nil⟩

/-- Closing the session draws no id. -/
theorem draws_tryFinally_close {m : Py α} (hm : Draws m) : Draws (tryFinally m close) := by
  intro σ hand h
  refine Program.follows_bind.2 (Program.Follows.mono (hm σ hand h) ?_)
  rintro ⟨a, σ'⟩ hand' h'
  exact ⟨fun y hy ↦ absurd hy List.not_mem_nil, fun _ _ y hy ↦ Or.inr ⟨h' y hy, List.not_mem_nil⟩⟩

/-! ### Instances -/

/-- Reading rows inserts nothing. -/
theorem draws_fetchScan (x : Id) : Draws (fetchScan x) :=
  (draws_select (q := .scan x)).bindOption (draws_pure none) fun row ↦
    (draws_modify fun _ ↦ rfl).bind fun _ ↦ draws_pure (some row)

theorem draws_fetchDomain (d : Id) : Draws (fetchDomain d) :=
  (draws_select (q := .domain d)).bindOption (draws_pure none) fun row ↦
    (draws_modify fun _ ↦ rfl).bind fun _ ↦ draws_pure (some row)

theorem draws_getScan (x : Id) : Draws (getScan x) := by
  refine draws_session.bind fun σ ↦ ?_
  split
  · exact draws_pure _
  · exact draws_fetchScan x

theorem draws_getDomain (d : Id) : Draws (getDomain d) := by
  refine draws_session.bind fun σ ↦ ?_
  split
  · exact draws_pure _
  · exact draws_fetchDomain d

theorem draws_readScan (x : Id) : Draws (readScan x) :=
  (draws_getScan x).bindOption (draws_raise _) draws_pure

theorem draws_refreshScan (x : Id) : Draws (refreshScan x) :=
  (draws_fetchScan x).bindOption (draws_raise _) draws_pure

theorem draws_readDomain (d : Id) : Draws (readDomain d) :=
  (draws_getDomain d).bindOption (draws_raise _) draws_pure

theorem draws_refreshDomain (d : Id) : Draws (refreshDomain d) :=
  (draws_fetchDomain d).bindOption (draws_raise _) draws_pure

theorem draws_assignDomain (d : Id) (st : DomainStatus) : Draws (assignDomain d st) :=
  draws_modify fun _ ↦ Session.inserts_assignDomain d st

/-- A publish inserts nothing. -/
theorem draws_enqueueScan (x : Id) : Draws (enqueueScan x) := by
  refine (draws_call rfl).bind fun r ↦ ?_
  cases r with
  | ok _ => exact draws_pure ()
  | error text => exact draws_raise (.broker text)

/-! ### Requests that insert rows -/

theorem draws_setDomainStatus (d : Id) (st : DomainStatus) :
    Draws (ScanRepo.setDomainStatus d st) :=
  (draws_assignDomain d st).bind fun _ ↦ draws_commit.bind fun _ ↦ draws_refreshDomain d

/-- A new scan has the id that has been drawn for it. -/
theorem draws_createScan (d : Id) (user : Option Id) : Draws (ScanRepo.createScan d user) :=
  draws_add (fun _ ↦ rfl) fun x ↦ draws_commit.bind fun _ ↦
    (draws_refreshScan x).bind fun _ ↦ draws_pure x

theorem draws_createScanUncommitted (d : Id) (user : Option Id) :
    Draws (ScanRepo.createScanUncommitted d user) :=
  draws_add (fun _ ↦ rfl) fun x ↦ draws_flush.bind fun _ ↦ draws_pure x

/-- So has a new domain. -/
theorem draws_createDomain (name : String) (user : Id) (st : DomainStatus) :
    Draws (DomainRepo.createDomain name user st) :=
  draws_add (fun _ ↦ rfl) fun d ↦ draws_commit.bind fun _ ↦ draws_refreshDomain d

theorem draws_enqueueInitialScan (d : Id) (user : Option Id) :
    Draws (ScanService.enqueueInitialScan d user) := by
  have hsend : ∀ x, Draws (do let row ← readScan x; enqueueScan row.id) := fun x ↦
    (draws_readScan x).bind fun row ↦ draws_enqueueScan row.id
  refine (draws_createScan d user).bind fun x ↦
    (draws_getDomain d).bindOption (hsend x) fun domain ↦ ?_
  show Draws (if domain.status ≠ .running then _ else _)
  split
  · exact (draws_setDomainStatus d .pending).bind fun _ ↦ hsend x
  · exact hsend x

/-- `create_domain`. -/
theorem draws_create (u : Unicode) (payload : String) (user : Id) :
    Draws (DomainService.createDomain u payload user) := by
  have hname : Draws (normalizeAndValidateFqdn u payload) := by
    rw [normalizeAndValidateFqdn_eq]
    split
    · exact draws_pure _
    · exact draws_raise _
  refine hname.bind fun name ↦ (draws_select (q := .domainByName name)).bindOption ?_ fun _ ↦
    draws_raise _
  refine (draws_createDomain name user .pending).bind fun domain ↦ ?_
  exact (draws_enqueueInitialScan domain.id (some user)).bind fun _ ↦
    (draws_readDomain domain.id).bind fun _ ↦ draws_pure _

/-- `trigger_manual_scan`. -/
theorem draws_trigger (d user : Id) : Draws (ScanService.triggerManualScan d user) := by
  have hlock : Draws (DomainRepo.getDomainByIdForUpdate d) :=
    (draws_select (q := .domainForUpdate d)).bindOption (draws_pure none) fun row ↦
      (draws_modify fun _ ↦ rfl).bind fun _ ↦ draws_pure (some row)
  have hactive : Draws (ScanRepo.domainHasActiveScan d) :=
    (draws_select (q := .activeScan d)).bind fun _ ↦ draws_pure _
  refine hlock.bindOption (draws_raise _) fun domain ↦ hactive.bind fun active ↦ ?_
  split
  · exact draws_rollback.bind fun _ ↦ draws_raise _
  · refine (draws_createScanUncommitted d (some user)).bind fun x ↦
      (draws_readDomain d).bind fun domain ↦ ?_
    have hrest : Draws (do
        commit (.triggerManualScan d x)
        let row ← refreshScan x
        enqueueScan row.id
        return Response.trigger row.id row.status) :=
      draws_commit.bind fun _ ↦ (draws_refreshScan x).bind fun row ↦
        (draws_enqueueScan row.id).bind fun _ ↦ draws_pure _
    split
    · exact (draws_assignDomain d .pending).bind fun _ ↦ hrest
    · exact hrest

end Py

/-! ### Processes -/

namespace Phase

variable {v v' : Phase} {o : Op} {r : o.Res}

/-- Setting columns of a scan inserts nothing. -/
theorem SetsScan.inserts_eq_nil {x : Id} {st : Option ScanStatus} {ws : List Write}
    (h : SetsScan x st ws) : ∀ w ∈ ws, w.inserts = [] := by
  rcases h with ⟨rfl, -⟩ | ⟨p, rfl, -⟩
  · exact fun w hw ↦ absurd hw List.not_mem_nil
  · intro w hw
    rw [List.mem_singleton.1 hw]
    rfl

/-- Neither does a reset. -/
theorem inserts_of_reset {xs : List Id} {ws : List Write}
    (h : List.Forall₂ (fun x w ↦ ∃ p : ScanPatch, w = .updateScan x p ∧
      p.status = some .pending) xs ws) : ∀ w ∈ ws, w.inserts = [] := by
  induction h with
  | nil => exact fun w hw ↦ absurd hw List.not_mem_nil
  | cons hw _ ih =>
    obtain ⟨p, rfl, -⟩ := hw
    exact List.forall_mem_cons.2 ⟨rfl, ih⟩

/-- Rows are inserted in the phases that say so. -/
theorem Commits.inserts_eq_nil {site : Site} {ws : List Write} (h : v.Commits site ws)
    (hv : ¬ v.Inserts) : ∀ w ∈ ws, w.inserts = [] := by
  have hdomain : ∀ {d : Id} {st : DomainStatus} {ws : List Write},
      (ws = [] ∨ ws = [.updateDomain d st]) → ∀ w ∈ ws, w.inserts = [] := by
    rintro d st ws (rfl | rfl) w hw
    · exact absurd hw List.not_mem_nil
    · rw [List.mem_singleton.1 hw]
      rfl
  cases h with
  | createDomain | createScan | triggerManualScan => exact absurd trivial hv
  | announcing hws | runningDomain hws | finishedDomain hws | lostDomain hws => exact hdomain hws
  | deleteDomain =>
    intro w hw
    rw [List.mem_singleton.1 hw]
    rfl
  | reset hws => exact inserts_of_reset hws
  | createAssets hws =>
    intro w hw
    obtain ⟨id, type, value, rfl⟩ := hws w hw
    rfl
  | orphaned hws | markScanRunning hws | markScanCompleted hws | markScanFailed hws | faulted hws
  | lostScan hws => exact hws.inserts_eq_nil

/-- A process never comes back into a phase in which it could insert a row. -/
theorem Leads.not_inserts (h : v.Leads o r v') (hv : ¬ v.Inserts) : ¬ v'.Inserts := by
  cases h with
  | stay _ _ hinserts => exact fun h ↦ hv (hinserts h)
  | quiet h => exact h.not_inserts
  | opened => exact absurd trivial hv
  | read _ _ hscans =>
    intro h
    cases v' with
    | creating | created | triggering | locked | cleared => exact absurd hscans (by simp [scans])
    | _ => exact h
  | _ => exact id

/-- A process that inserts no rows draws no id in vain. -/
theorem keeps_of_follows {α : Type} {p : Effect.Program Op Op.Res α} {Q : α → Phase → Prop}
    (h : p.Follows discipline Q v) (hv : ¬ v.Inserts) (hand : Set Id) :
    naming.Keeps Possible p hand := by
  induction p generalizing v hand with
  | pure a => trivial
  | perform o next ih =>
    refine ⟨fun y hy ↦ ?_, fun r hr ↦ ih r (h.2 r hr) ((leads_of_allowed h.1).not_inserts hv) _⟩
    cases o with
    | commit site ws =>
      obtain ⟨w, hw, hmem⟩ := List.mem_flatMap.1 hy
      cases h.1 with
      | commit hcommits =>
        rw [hcommits.inserts_eq_nil hv w hw] at hmem
        exact absurd hmem List.not_mem_nil
    | _ => exact absurd hy List.not_mem_nil

end Phase

/-- Code that draws the ids it inserts starts with empty hands. -/
theorem Py.Draws.keeps {m : Py Response} (h : m.Draws) :
    naming.Keeps Phase.Possible (Py.start m) ∅ :=
  Program.follows_bind.2 (Program.Follows.mono
    (h .new ∅ fun _ hy ↦ absurd hy List.not_mem_nil) fun _ _ _ ↦ trivial)

/-- A request knows no names when it starts. -/
theorem Request.keeps (u : Unicode) (r : Request) :
    naming.Keeps Phase.Possible (Py.start (r.code u)) ∅ := by
  cases r with
  | create payload user => exact (Py.draws_tryFinally_close (Py.draws_create u payload user)).keeps
  | trigger d user => exact (Py.draws_tryFinally_close (Py.draws_trigger d user)).keeps
  | delete d => exact Phase.keeps_of_follows (Request.follows u (.delete d)) id ∅
  | recover => exact Phase.keeps_of_follows (Request.follows u .recover) id ∅

/-- Neither does a delivery. -/
theorem Message.keeps (cfg : Settings) (m : Message) :
    naming.Keeps Phase.Possible (Py.start (runDiscoveryScan cfg m)) ∅ :=
  Phase.keeps_of_follows (m.follows cfg) id ∅

/-! ### Runs -/

namespace World

/-- Every process inserts only rows whose ids it has drawn itself. -/
abbrev Named (w : World) : Prop :=
  Pool.Named naming Phase.Possible Store.Drawn Store.Taken w

/-- No row will be inserted under this id. -/
abbrev Settled (y : Id) (w : World) : Prop :=
  Pool.Settled naming Phase.Possible Store.Drawn y w

variable {cfg : Settings} {u : Unicode} {w w' : World} {a : Action} {y : Id}

/-- Before a process is started all names are below the bound. -/
theorem named_boot {s : Store} (hs : s.db.idBound ≤ s.uuids) : (boot s).Named := by
  refine Pool.named_empty fun y hy ↦ Nat.lt_of_lt_of_le ?_ hs
  by_contra hle
  rcases hy with hy | hy
  · exact hy (Database.domains_get_of_idBound_le (not_lt.1 hle))
  · exact hy (Database.scans_get_of_idBound_le (not_lt.1 hle))

/-- A step keeps the names apart. -/
theorem Named.act (h : w.Named) (ha : w.act cfg u a = some w') : w'.Named := by
  cases a with
  | start r =>
    obtain rfl := Option.some.inj ha
    exact Pool.Named.spawn h (r.keeps u)
  | take n =>
    simp only [World.act] at ha
    split at ha
    · next m hm =>
      obtain rfl := Option.some.inj ha
      have hshared : Named
          { w with shared := { w.shared with queue := w.shared.queue.eraseIdx n } } :=
        Pool.Named.share h id id
      exact Pool.Named.spawn hshared (m.keeps cfg)
    · exact absurd ha (by simp)
  | duplicate n =>
    simp only [World.act] at ha
    split at ha
    · obtain rfl := Option.some.inj ha
      exact Pool.Named.share h id id
    · exact absurd ha (by simp)
  | perform i e => exact Pool.Named.step naming_sound h ha

/-- A settled name stays settled. -/
theorem Settled.act (h : w.Settled y) (ha : w.act cfg u a = some w') : w'.Settled y := by
  cases a with
  | start r =>
    obtain rfl := Option.some.inj ha
    exact Pool.Settled.spawn h (r.keeps u)
  | take n =>
    simp only [World.act] at ha
    split at ha
    · next m hm =>
      obtain rfl := Option.some.inj ha
      have hshared : Settled y
          { w with shared := { w.shared with queue := w.shared.queue.eraseIdx n } } :=
        Pool.Settled.share h id
      exact Pool.Settled.spawn hshared (m.keeps cfg)
    · exact absurd ha (by simp)
  | duplicate n =>
    simp only [World.act] at ha
    split at ha
    · obtain rfl := Option.some.inj ha
      exact Pool.Settled.share h id
    · exact absurd ha (by simp)
  | perform i e => exact Pool.Settled.step naming_sound h ha

/-- No process inserts a row under a settled id. -/
theorem Settled.not_mem_inserts (h : w.Settled y) {i : ℕ} {site : Site} {ws : List Write}
    (hasks : w.asks i = some (.commit site ws)) {write : Write} (hmem : write ∈ ws) :
    y ∉ write.inserts :=
  fun hy ↦ Pool.Settled.not_used h hasks (List.mem_flatMap.2 ⟨write, hmem, hy⟩)

end World

end AssetDiscovery
