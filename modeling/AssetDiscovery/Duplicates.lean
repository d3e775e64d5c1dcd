import AssetDiscovery.Alone.Requests
import AssetDiscovery.Library.Race
import AssetDiscovery.World

/-!
# Creating a domain several times at once

`create_domain` looks for a domain of the name and inserts one in a later transaction, and takes no
lock in between. Requests for one name are a race for it (`domainRace`): a request that commits its
domain while there is none of the name goes on as if it were alone, since the others change nothing
any more, and one that looks afterwards is refused.

A request that has looked before and commits afterwards is neither: the unique index refuses its
row, and the error reaches the client (`unhandled_create`).
-/

set_option autoImplicit false

namespace AssetDiscovery

open Effect

/-- A commit of a new domain is for a name that is not stored yet. -/
def Op.Unbeaten (name : String) (s : Store) : Op → Prop
  | .commit (.createDomain _) _ => s.db.domainByName name = none
  | _ => True

instance (name : String) (s : Store) : DecidablePred (Op.Unbeaten name s) := fun o ↦ by
  unfold Op.Unbeaten
  split <;> infer_instance

/-- A step that leaves the rows and the queue as they are, and takes no lock. -/
structure Store.Quiet (s s' : Store) : Prop where
  db : s'.db = s.db
  queue : s'.queue = s.queue
  clock : s.clock ≤ s'.clock
  uuids : s.uuids ≤ s'.uuids
  locks : ∀ d t, s'.locks d = some t → s.locks d = some t

/-- Time may pass quietly. -/
theorem Store.quiet_tick (s : Store) (n : ℕ) : s.Quiet { s with clock := s.clock + n } where
  db := rfl
  queue := rfl
  clock := Nat.le_add_right _ _
  uuids := le_rfl
  locks _ _ := id

/-- A session may be closed quietly. -/
theorem Store.quiet_close (s : Store) (i n : ℕ) :
    s.Quiet { s.release i with clock := s.clock + n } where
  db := rfl
  queue := rfl
  clock := Nat.le_add_right _ _
  uuids := le_rfl
  locks _ _ h := Option.eq_some_of_filter_eq_some h

/-- What a request to create a domain knows. -/
inductive Bid where
  /-- It may have drawn an id for its domain. -/
  | contending (drawn : Option Id)
  | refused
  /-- Its domain is stored, and nobody else changes the rows or the queue. -/
  | won (db : Database) (q : Trail)

namespace Bid

/-- The winner keeps a domain of the name. -/
def conditions (name : String) (i : ℕ) : Conditions where
  tid := i
  keeps db := (db.domainByName name).isSome

/-- What a request knows while no domain of the name is stored, and what the winner knows. -/
def Known (name : String) (i : ℕ) : Bid → Store → Prop
  | contending drawn, s => s.db.domainByName name = none →
    (∀ d, s.locks d = none) ∧ ∀ d ∈ drawn, s.db.domains.get d = none
  | refused, _ => True
  | won db q, s => (conditions name i).Known (db, q) s

/-- How a request stands. -/
def standing : Bid → Standing
  | contending _ => .contending
  | refused => .refused
  | won _ _ => .won

variable {name : String} {i : ℕ} {k : Bid} {s s' : Store}

/-- What is known stays true while nothing changes. -/
theorem Known.of_quiet (h : k.Known name i s) (hquiet : s.Quiet s') : k.Known name i s' := by
  cases k with
  | contending drawn =>
    intro hnew
    rw [hquiet.db] at hnew ⊢
    obtain ⟨hlocks, hdrawn⟩ := h hnew
    refine ⟨fun d ↦ Option.eq_none_iff_forall_ne_some.2 fun t ht ↦ ?_, hdrawn⟩
    exact absurd (hquiet.locks d t ht) (by simp [hlocks d])
  | refused => trivial
  | won db q =>
    have hfree : s'.FreeFor i := by
      rintro d ⟨t, ht, hne⟩
      exact h.free d ⟨t, hquiet.locks d t ht, hne⟩
    exact {
      free := hfree
      db := hquiet.db.trans h.db
      keeps := h.keeps
      queue := hquiet.queue.trans h.queue
      since := h.since.trans hquiet.clock
      drawn := h.drawn.trans hquiet.uuids }

end Bid

/-- The race of the requests that create a domain of this name. -/
def domainRace (name : String) : Race Op Op.Res Env Store Bid where
  handler := serve
  ok o e s := e.fails = false ∧ o.Unbeaten name s
  Stored s := (s.db.domainByName name).isSome
  Known := Bid.Known name
  standing := Bid.standing
  start := .contending none
  Quiet := Store.Quiet
  standing_start := rfl
  stored_of_quiet h := by rw [h.db]
  known_of_quiet h := h.of_quiet
  known_of_stored {i k s s'} h hk hs' := by
    cases k with
    | contending drawn =>
      intro hnew
      rw [hnew] at hs'
      exact absurd hs' (by simp)
    | refused => trivial
    | won db q => exact absurd rfl hk

namespace Py

variable {α β : Type} {name : String} {i : ℕ} {σ : Session} {k : Bid}

variable (name i) in
/-- From this session and this knowledge on, the code goes by the rules of the race for the name,
and ends as `Q` says. -/
def Bids (Q : Except Exn α → Session → Bid → Prop) (m : Py α) (σ : Session) (k : Bid) : Prop :=
  (domainRace name).Contends i (fun p k ↦ Q p.1 p.2 k) (m σ) k

variable {Q : Except Exn α → Session → Bid → Prop}

/-- A weaker end is reached as well. -/
theorem Bids.mono {Q' : Except Exn α → Session → Bid → Prop} {m : Py α} (h : Bids name i Q m σ k)
    (hQ : ∀ a σ k, Q a σ k → Q' a σ k) : Bids name i Q' m σ k :=
  Race.Contends.mono h fun p k ↦ hQ p.1 p.2 k

theorem bids_pure {a : α} (h : Q (.ok a) σ k) : Bids name i Q (pure a) σ k :=
  fun _ _ ↦ h

theorem bids_raise {e : Exn} (h : Q (.error e) σ k) : Bids name i Q (raise e) σ k :=
  fun _ _ ↦ h

theorem bids_modify {Q : Except Exn Unit → Session → Bid → Prop} {f : Session → Session}
    (h : Q (.ok ()) (f σ) k) : Bids name i Q (modify f) σ k :=
  fun _ _ ↦ h

/-- How code goes on after `m`: an exception skips the rest. -/
abbrev bidsOn (name : String) (i : ℕ) (Q : Except Exn β → Session → Bid → Prop) (f : α → Py β) :
    Except Exn α → Session → Bid → Prop
  | .ok a, σ, k => Bids name i Q (f a) σ k
  | .error e, σ, k => Q (.error e) σ k

/-- The rule of sequential composition. -/
theorem bids_bind {Q : Except Exn β → Session → Bid → Prop} {m : Py α} {f : α → Py β}
    (h : Bids name i (bidsOn name i Q f) m σ k) : Bids name i Q (m >>= f) σ k := by
  refine Race.contends_bind (Race.Contends.mono h ?_)
  rintro ⟨e | a, σ'⟩ k h'
  · exact fun _ _ ↦ h'
  · exact h'

/-- `finally: db.close()`. -/
theorem bids_tryFinally_close {m : Py α} (h : Bids name i Q m σ k) :
    Bids name i Q (tryFinally m close) σ k := by
  refine Race.contends_bind (Race.Contends.mono h ?_)
  rintro ⟨a, σ'⟩ k h'
  exact Race.contends_quiet fun s e _ _ ↦ ⟨(), _, rfl, s.quiet_close i e.tick, fun _ _ ↦ h'⟩

/-- The winner goes on as if it were alone. -/
theorem bids_of_alone {Q : Except Exn α → Session → Database → Trail → Prop} {m : Py α}
    {db : Database} {q : Trail} (h : Alone (Bid.conditions name i) Q m σ db q) :
    Bids name i (fun a σ k ↦ ∃ db q, k = .won db q ∧ Q a σ db q) m σ (.won db q) := by
  have hcontends := Race.contends_of_secures (R := domainRace name) (i := i)
    (fun k : Database × Trail ↦ .won k.1 k.2)
    (fun {o e s} hok ↦ ?_) Iff.rfl (fun _ ↦ rfl) (fun {k s} hs ↦ ?_) h
  · refine hcontends.mono ?_
    rintro p k ⟨⟨db, q⟩, rfl, h⟩
    exact ⟨db, q, rfl, h⟩
  · have henv : { e with fails := o.isPublish && !true, lookups := e.lookups } = e := by
      rw [Bool.not_true, Bool.and_false, ← hok.1]
    exact congrArg (serve i o · s) henv
  · show (s.db.domainByName name).isSome
    rw [hs.db]
    exact hs.keeps

/-- The look for a domain of the name. -/
theorem bids_getDomainByName {Q : Except Exn (Option Domain) → Session → Bid → Prop}
    (hσ : σ.failed = false) (hfound : ∀ row, Q (.ok (some row)) σ .refused)
    (hnone : Q (.ok none) σ (.contending none)) :
    Bids name i Q (DomainRepo.getDomainByName name) σ (.contending none) := by
  unfold Bids
  rw [DomainRepo.getDomainByName, select, hσ, if_neg (by decide)]
  intro s e hs hok
  have hserve : serve i (.query (.domainByName name)) e s =
      some (.ok (s.db.domainByName name), { s with clock := s.clock + e.tick }) := by
    simp [serve, hok.1, Database.answer]
  have hquiet := s.quiet_tick e.tick
  cases hname : s.db.domainByName name with
  | some row =>
    refine ⟨_, _, .refused, hserve, trivial, .refused rfl rfl ?_ hquiet, ?_⟩
    · rw [show (domainRace name).Stored s = (s.db.domainByName name).isSome from rfl, hname]
      rfl
    · rw [hname]
      exact fun _ _ ↦ hfound row
  | none =>
    refine ⟨_, _, .contending none, hserve, (domainRace name).known_of_quiet hs hquiet,
      .quiet rfl hquiet, ?_⟩
    rw [hname]
    exact fun _ _ ↦ hnone

/-- A drawn id belongs to the bidder. -/
theorem bids_uuid4 {Q : Except Exn Id → Session → Bid → Prop}
    (h : ∀ d, Q (.ok d) σ (.contending (some d))) :
    Bids name i Q (call .uuid4) σ (.contending none) := by
  intro s e hs _
  have hbound : s.db.idBound ≤ max s.uuids s.db.idBound := le_max_right _ _
  refine ⟨_, _, .contending (some (max s.uuids s.db.idBound)), rfl, fun hnew ↦ ⟨(hs hnew).1, ?_⟩,
    .quiet rfl ⟨rfl, rfl, Nat.le_add_right _ _, ?_, fun _ _ ↦ id⟩, fun _ _ ↦ h _⟩
  · rintro _ ⟨⟩
    exact Database.domains_get_of_idBound_le hbound
  · exact (le_max_left _ _).trans (Nat.le_succ _)

/-- The commit of a domain of the name, when none is stored. -/
theorem bids_commit {Q : Except Exn Unit → Session → Bid → Prop} {d user : Id}
    (hlen : name.length ≤ nameWidth)
    (h : ∀ row db q, db.domains.get d = some row → row.name = name → row.status = .pending →
      Q (.ok ()) .new (.won db q)) :
    Bids name i Q (commit (.createDomain d))
      (Session.new.addWork (.insertDomain d name .pending user)) (.contending (some d)) := by
  intro s e hs hok
  have hnew : s.db.domainByName name = none := hok.2
  obtain ⟨hlocks, hdrawn⟩ := hs hnew
  obtain ⟨db, hwrite, hopened⟩ := Database.write_insertDomain (s.clock + e.tick - e.age) user hlen
    (hdrawn d rfl) hnew
  obtain ⟨user', now, hrows, hrow⟩ := hopened.domains
  -- the name is stored from this commit on, and later bids are refused
  have hname : (db.domainByName name).isSome := by
    rw [Database.domainByName, hrows, List.find?_isSome]
    exact ⟨_, List.mem_append_right _ (List.mem_singleton_self _), by simp⟩
  have hserve : serve i (.commit (.createDomain d) [.insertDomain d name .pending user]) e s =
      some (.ok (), { Store.release { s with clock := s.clock + e.tick } i with db := db }) := by
    have hwaits : ¬ Store.Waits { s with clock := s.clock + e.tick } i
        [.insertDomain d name .pending user] := by
      simp [Store.Waits, Write.domains]
    simp [serve, hok.1, hwaits, Database.writeAll_singleton, hwrite]
  have hfree : Store.FreeFor i
      { Store.release { s with clock := s.clock + e.tick } i with db := db } := by
    rintro d' ⟨t, ht, -⟩
    exact absurd (Option.eq_some_of_filter_eq_some ht) (by simp [hlocks d'])
  refine ⟨_, _, .won db { queue := s.queue }, hserve, ?_, .won rfl rfl ?_ hname,
    fun _ _ ↦ h _ db _ hrow rfl rfl⟩
  · exact {
      free := hfree
      db := rfl
      keeps := hname
      queue := rfl
      since := Nat.zero_le _
      drawn := Nat.zero_le _ }
  · rw [show (domainRace name).Stored s = (s.db.domainByName name).isSome from rfl, hnew]
    simp

/-- `create_domain` of the repository. -/
theorem bids_createDomainRow {Q : Except Exn Domain → Session → Bid → Prop} {user : Id}
    (hlen : name.length ≤ nameWidth)
    (h : ∀ row σ db q, db.domains.get row.id = some row → row.name = name →
      row.status = .pending → σ.InStep db → Q (.ok row) σ (.won db q)) :
    Bids name i Q (DomainRepo.createDomain name user .pending) .new (.contending none) := by
  refine bids_bind (bids_uuid4 fun d ↦ ?_)
  refine bids_bind (bids_modify ?_)
  refine bids_bind (bids_commit hlen fun row db q hrow hname hst ↦ ?_)
  have hrefresh : Alone (Bid.conditions name i)
      (fun a σ db' _ ↦ a = .ok row ∧ db' = db ∧ σ.InStep db) (refreshDomain d) .new db q :=
    alone_refreshDomain (Session.inStep_new db) hrow fun σ hσ ↦ ⟨rfl, rfl, hσ⟩
  refine (bids_of_alone hrefresh).mono ?_
  rintro _ σ _ ⟨_, q', rfl, rfl, rfl, hσ⟩
  exact h row σ _ q' (by rwa [Table.key_of_get hrow]) hname hst hσ

end Py

namespace DomainService

/-- A domain of the name has been created. -/
def Creates (name : String) (a : Except Exn Response) : Prop :=
  ∃ d st, a = .ok (.domain d name st)

/-- `HTTPException(409)`: there is a domain of the name. -/
def Conflicts (a : Except Exn Response) : Prop :=
  a = .error (.http 409 "Domain already exists")

/-- A success is not the 409. -/
theorem Creates.not_conflicts {name : String} {a : Except Exn Response} (h : Creates name a) :
    ¬ Conflicts a := by
  obtain ⟨d, st, rfl⟩ := h
  simp [Conflicts]

/-- `create_domain` of the service. -/
theorem bids_createDomain {u : Unicode} {payload name : String} {user : Id} {i : ℕ}
    (hvalid : IsFqdn (normalized u payload)) (hname : String.ofList (normalized u payload) = name) :
    Py.Bids name i (fun a _ k ↦ (domainRace name).Ends (Creates name) Conflicts a k)
      (createDomain u payload user) .new (.contending none) := by
  have hlen : name.length ≤ nameWidth := by
    rw [← hname, String.length_ofList]
    exact hvalid.length_le
  refine Py.bids_bind ?_
  rw [normalizeAndValidateFqdn_eq, if_pos hvalid, hname]
  refine Py.bids_pure (Py.bids_bind (Py.bids_getDomainByName rfl (fun row ↦ ?_) ?_))
  · exact Py.bids_raise (.refused rfl rfl)
  · refine Py.bids_bind (Py.bids_createDomainRow hlen fun row σ db q hrow hrowName hst hσ ↦ ?_)
    -- from here on nobody else changes a row
    have henqueue : Py.Alone (Bid.conditions name i)
        (fun a σ db' _ ↦ a = .ok () ∧ db'.domains.get row.id = some row ∧ σ.InStep db')
        (ScanService.enqueueInitialScan row.id (some user)) σ db q := by
      refine Py.alone_of_keeps fun hkeeps ↦ Py.alone_enqueueInitialScan hσ hrow hst ?_ ?_ fun h ↦ ?_
      · intro x db' hadded
        show (db'.domainByName name).isSome
        rwa [Database.domainByName, hadded.domains]
      · intro _ x σ' db' q' hadded hσ' _
        exact ⟨rfl, by rw [hadded.domains, hrow], hσ'⟩
      · exact absurd h (by simp [Bid.conditions])
    refine Py.bids_bind ((Py.bids_of_alone henqueue).mono ?_)
    rintro _ σ' _ ⟨db', q', rfl, rfl, hrow', hσ'⟩
    have hread : Py.Alone (Bid.conditions name i) (fun a _ _ _ ↦ a = .ok row)
        (Py.readDomain row.id) σ' db' q' :=
      Py.alone_readDomain hσ' hrow' fun _ _ ↦ rfl
    refine Py.bids_bind ((Py.bids_of_alone hread).mono ?_)
    rintro _ σ'' _ ⟨db'', q'', rfl, rfl⟩
    exact Py.bids_pure (.won rfl ⟨row.id, row.status, by rw [hrowName]⟩)

end DomainService

namespace Database

variable {db : Database} {name : String}

/-- The look-up of a name finds a domain exactly if one has it. -/
theorem domainByName_isSome_iff :
    (db.domainByName name).isSome ↔ ∃ row ∈ db.domains, row.name = name := by
  rw [domainByName, List.find?_isSome]
  simp only [decide_eq_true_eq]
  rfl

/-- The index on the names is unique. -/
theorem existsUnique_of_domainByName (h : (db.domainByName name).isSome) :
    ∃! row, row ∈ db.domains ∧ row.name = name := by
  obtain ⟨row, hrow, hname⟩ := domainByName_isSome_iff.1 h
  exact ⟨row, ⟨hrow, hname⟩, fun row' h ↦ db.name_unique _ h.1 _ hrow (h.2.trans hname.symm)⟩

end Database

namespace World

variable {cfg : Settings} {u : Unicode} {name : String} {s : Store} {w : World}

/-- Requests to create a domain of this name arrive and are served, and nothing fails for a reason
outside the database. -/
def Races (u : Unicode) (name : String) : Action → Prop
  | .start (.create payload _) =>
    IsFqdn (normalized u payload) ∧ String.ofList (normalized u payload) = name
  | .perform _ e => e.fails = false
  | _ => False

instance : DecidablePred (Races u name)
  | .start (.create _ _) => inferInstanceAs (Decidable (_ ∧ _))
  | .perform _ e => inferInstanceAs (Decidable (e.fails = false))
  | .start (.trigger _ _) | .start (.delete _) | .start .recover | .take _ | .duplicate _ =>
    instDecidableFalse

/-- No domain is committed if there is one of the name by then. -/
def Unbeaten (name : String) (w : World) : Action → Prop
  | .perform i _ => ∀ o ∈ w.asks i, o.Unbeaten name w.shared
  | _ => True

instance : DecidablePred (w.Unbeaten name)
  | .perform i _ => inferInstanceAs (Decidable (∀ o ∈ w.asks i, o.Unbeaten name w.shared))
  | .start _ | .take _ | .duplicate _ => instDecidableTrue

/-- The requests of a run are in a race for the name. -/
theorem under_domainRace (hs : ∀ d, s.locks d = none)
    (h : Reach cfg u (fun w a ↦ Races u name a ∧ w.Unbeaten name a) (boot s) w) :
    ∃ ks, (domainRace name).Under (s.db.domainByName name).isSome
      ((domainRace name).Ends (DomainService.Creates name) DomainService.Conflicts) ks w := by
  have hstart : ∀ i, (domainRace name).Known i (domainRace name).start (boot s).shared :=
    fun i _ ↦ ⟨hs, by simp⟩
  have hboot := Race.under_nil (R := domainRace name) (P := boot s)
    (Q := (domainRace name).Ends (DomainService.Creates name) DomainService.Conflicts) rfl hstart
  refine Runs.Reach.invariant (I := fun w ↦ ∃ ks, (domainRace name).Under _ _ ks w) ?_ h ⟨[], hboot⟩
  rintro w a w' ⟨ks, hks⟩ ⟨hraces, hunbeaten⟩ ha
  cases a with
  | start r =>
    cases r with
    | create payload user =>
      obtain rfl := Option.some.inj ha
      refine ⟨_, hks.spawn fun i ↦ Race.contends_bind ?_⟩
      have hcode : Py.Bids name i (fun a _ k ↦ (domainRace name).Ends
          (DomainService.Creates name) DomainService.Conflicts a k)
          ((Request.create payload user).code u) .new (.contending none) :=
        Py.bids_tryFinally_close (DomainService.bids_createDomain hraces.1 hraces.2)
      exact Race.Contends.mono hcode fun p k h _ _ ↦ h
    | trigger | delete | recover => exact absurd hraces id
  | perform i e => exact hks.step (fun o ho ↦ ⟨hraces, hunbeaten o ho⟩) ha
  | take | duplicate => exact absurd hraces id

/-- The requests of `w` for the name are answered as they should be after a start in `s`. -/
abbrev CreatesDecided (name : String) (s : Store) (w : World) : Prop :=
  w.Decided (DomainService.Creates name) DomainService.Conflicts
    (∃ row ∈ s.db.domains, row.name = name)
    (∃! row, row ∈ w.shared.db.domains ∧ row.name = name)

/-- Requests for one name that are not overtaken between their look and their commit are answered
as they should be. -/
theorem createsDecided (hs : ∀ d, s.locks d = none)
    (h : Reach cfg u (fun w a ↦ Races u name a ∧ w.Unbeaten name a) (boot s) w) :
    CreatesDecided name s w := by
  obtain ⟨ks, hks⟩ := under_domainRace hs h
  have hdecided := hks.decided fun a ↦ DomainService.Creates.not_conflicts
  rw [CreatesDecided, ← propext Database.domainByName_isSome_iff]
  exact { hdecided with
    stored := fun hthreads hdone ↦
      Database.existsUnique_of_domainByName (hdecided.stored hthreads hdone) }

/-- None of them waits. -/
theorem creates_proceed (hs : ∀ d, s.locks d = none)
    (h : Reach cfg u (fun w a ↦ Races u name a ∧ w.Unbeaten name a) (boot s) w) {i : ℕ} {e : Env}
    (hasks : (w.asks i).isSome) (hraces : Races u name (.perform i e))
    (hunbeaten : w.Unbeaten name (.perform i e)) : (w.act cfg u (.perform i e)).isSome := by
  obtain ⟨ks, hks⟩ := under_domainRace hs h
  obtain ⟨o, ho⟩ := Option.isSome_iff_exists.1 hasks
  exact hks.proceeds ho ⟨hraces, hunbeaten o ho⟩

/-- Two requests look for the name, and then both commit their domain: the error of the unique index
reaches a client. -/
theorem unhandled_create :
    ∃ w, Reach {} .plain (fun _ a ↦ Races .plain "a.b" a) (boot .empty) w ∧
      w.result 1 = some (.error (.database .integrity)) :=
  Runs.exists_reach (act {} .plain) _ (fun w ↦ w.result 1 = some (.error (.database .integrity)))
    (.start (.create "a.b" 1) :: .start (.create "a.b" 2) ::
      (performs 0 2 ++ performs 1 2 ++ performs 0 1 ++ performs 1 2)) (by decide)

end World

end AssetDiscovery
