import AssetDiscovery.Conformance.Worker
import AssetDiscovery.Ledger
import AssetDiscovery.Library.Knowledge

/-!
# Code that runs alone

The total-correctness rules for a process with whose rows and messages nothing else interferes,
while no statement fails. `Py.Alone c Q m σ db q` says of code `m` that, from a session, a database
and a trail on, it never waits, ends in `Q`, and leaves a database that satisfies `c.keeps` wherever
it is stopped. Of the clock and of the ids that are drawn only a lower bound is known, so others may
let time pass and draw ids in between.

There is one rule for each way of composing code and one for each statement; the functions of the
source are then gone through with them, one lemma each.
-/

set_option autoImplicit false

namespace AssetDiscovery

open Effect

/-- The operation hands a message to the broker. -/
def Op.isPublish : Op → Bool
  | .publish _ => true
  | _ => false

/-- Carry out an operation of process `tid` when nothing but the broker can fail: no statement
fails, and a publish fails unless the broker is `up`. If `lookups` are given, the resolver answers
them. -/
def serveUnharmed (tid : ℕ) (up : Bool) (lookups : Option (AssetType → Lookup)) :
    Handler Op Op.Res Env Store :=
  fun o e s ↦ serve tid o
    { e with fails := o.isPublish && !up, lookups := lookups.getD e.lookups } s

/-- Carry out an operation of a process that runs alone: no statement fails, a publish fails unless
the broker is `up`, and the resolver answers `lookups`. -/
def serveAlone (up : Bool) (lookups : AssetType → Lookup) : Handler Op Op.Res Env Store :=
  fun o e s ↦ serve 0 o { e with fails := o.isPublish && !up, lookups := lookups } s

/-- What an operation counts for in the number of resolutions: `resolve_domain_records` begins with
the A records. -/
def Op.resolutions : Op → ℕ
  | .lookup _ .a => 1
  | _ => 0

/-- No row is locked by a process other than `tid`. -/
def Store.FreeFor (tid : ℕ) (s : Store) : Prop :=
  ∀ d, ¬ s.LockedFor tid d

/-- No row is locked by another process. -/
def Store.Free (s : Store) : Prop :=
  s.FreeFor 0

namespace Store

variable {s s' : Store} {tid : ℕ}

theorem FreeFor.of_locks (h : s.FreeFor tid) (hlocks : s'.locks = s.locks) : s'.FreeFor tid := by
  intro d
  rw [LockedFor, hlocks]
  exact h d

theorem FreeFor.release (h : s.FreeFor tid) : (s.release tid).FreeFor tid := by
  rintro d ⟨t, ht, hne⟩
  exact h d ⟨t, Option.eq_some_of_filter_eq_some ht, hne⟩

/-- Where no other process holds a lock no statement waits. -/
theorem FreeFor.not_waits (h : s.FreeFor tid) (ws : List Write) : ¬ s.Waits tid ws :=
  fun ⟨_, _, d, _, hd⟩ ↦ h d hd

/-- A query that does not fail is answered. -/
theorem FreeFor.answer (h : s.FreeFor tid) (k : Query) (e : Env) (he : e.fails = false) :
    ∃ locks, FreeFor tid { s with clock := s.clock + e.tick, locks := locks } ∧
      serve tid (.query k) e s = some (.ok (s.db.answer e.pick k),
        { s with clock := s.clock + e.tick, locks := locks }) := by
  by_cases hlock : ∃ d, k = .domainForUpdate d
  · obtain ⟨d, rfl⟩ := hlock
    have hfree : ¬ LockedFor { s with clock := s.clock + e.tick } tid d := h d
    cases hrow : s.db.domains.get d with
    | none => exact ⟨s.locks, h.of_locks rfl, by simp [serve, he, hfree, Database.answer, hrow]⟩
    | some row =>
      refine ⟨fun d' ↦ if d' = d then some tid else s.locks d', ?_, ?_⟩
      · rintro d' ⟨t, ht, hne⟩
        by_cases hd : d' = d
        · simp only [hd, if_true, Option.mem_some_iff] at ht
          exact hne ht.symm
        · simp only [hd, if_false] at ht
          exact h d' ⟨t, ht, hne⟩
      · simp [serve, he, hfree, Database.answer, hrow]
  · refine ⟨s.locks, h.of_locks rfl, ?_⟩
    cases k with
    | domainForUpdate d => exact absurd ⟨d, rfl⟩ hlock
    | _ => simp [serve, he]

/-- While no other process holds a row lock, no operation waits. -/
theorem FreeFor.serve (h : s.FreeFor tid) (o : Op) (e : Env) :
    ∃ r s', AssetDiscovery.serve tid o e s = some (r, s') ∧ s'.FreeFor tid := by
  have htick : FreeFor tid { s with clock := s.clock + e.tick } := h.of_locks rfl
  have hended : (Store.release { s with clock := s.clock + e.tick } tid).FreeFor tid :=
    htick.release
  cases o with
  | query k =>
    by_cases he : e.fails = true
    · exact ⟨.error .operational, _, by simp only [AssetDiscovery.serve, if_pos he], htick⟩
    · obtain ⟨locks, hfree, hserve⟩ := h.answer k e (Bool.not_eq_true _ ▸ he)
      exact ⟨_, _, hserve, hfree⟩
  | flush ws =>
    simp only [AssetDiscovery.serve, if_neg (htick.not_waits ws)]
    split
    · exact ⟨_, _, rfl, hended⟩
    · split
      · exact ⟨_, _, rfl, htick⟩
      · exact ⟨_, _, rfl, hended⟩
  | commit site ws =>
    simp only [AssetDiscovery.serve, if_neg (htick.not_waits ws)]
    split
    · exact ⟨_, _, rfl, hended⟩
    · split
      · exact ⟨_, _, rfl, hended.of_locks rfl⟩
      · exact ⟨_, _, rfl, hended⟩
  | rollback => exact ⟨_, _, rfl, h.release.of_locks rfl⟩
  | close => exact ⟨_, _, rfl, h.release.of_locks rfl⟩
  | publish m =>
    simp only [AssetDiscovery.serve]
    split
    · exact ⟨_, _, rfl, htick⟩
    · exact ⟨_, _, rfl, h.of_locks rfl⟩
  | lookup | now | uuid4 => exact ⟨_, _, rfl, h.of_locks rfl⟩

theorem free_empty : empty.Free :=
  fun _ ⟨_, ht, _⟩ ↦ absurd ht (by simp [empty])

theorem free_awaiting : awaiting.Free :=
  fun _ ⟨_, ht, _⟩ ↦ absurd ht (by simp [awaiting, oneDomain, empty])

end Store

/-- What a run alone depends on, and what it has to keep. -/
structure Conditions where
  /-- The process. -/
  tid : ℕ := 0
  /-- The broker takes messages. -/
  up : Bool := true
  /-- What the resolver answers, if that is known. -/
  lookups : Option (AssetType → Lookup) := none
  /-- What holds of the database before every operation and at the end. -/
  keeps : Database → Prop := fun _ ↦ True

/-- What a process has done beside changing rows, and what it knows of the clock and of ids. -/
structure Trail where
  /-- The queue, with the messages that the process has published. -/
  queue : List Message
  /-- The clock shows at least this. -/
  since : Time := 0
  /-- Every id that is drawn from now on is at least this. -/
  drawn : ℕ := 0
  /-- How often the process has asked the resolver. -/
  resolutions : ℕ := 0

namespace Trail

instance : Coe Trail (List Message) := ⟨queue⟩

/-- A message has been published. -/
def push (q : Trail) (m : Message) : Trail :=
  { q with queue := q.queue ++ [m] }

/-- The clock has been read. -/
def seen (q : Trail) (t : Time) : Trail :=
  { q with since := t }

/-- An id has been drawn. -/
def draw (q : Trail) (id : Id) : Trail :=
  { q with drawn := id + 1 }

/-- The resolver has been asked for the records of a type. -/
def ask (q : Trail) (name : String) (type : AssetType) : Trail :=
  { q with resolutions := q.resolutions + (Op.lookup name type).resolutions }

end Trail

/-- The database and the trail are known of the state, which satisfies the conditions. -/
structure Conditions.Known (c : Conditions) (k : Database × Trail) (s : Store) : Prop where
  free : s.FreeFor c.tid
  db : s.db = k.1
  keeps : c.keeps k.1
  queue : s.queue = k.2.queue
  since : k.2.since ≤ s.clock
  drawn : k.2.drawn ≤ s.uuids

namespace Py

variable {α β : Type}

/-- From this session, this database and this trail, the code ends in `Q`, and keeps what has to be
kept on the way. -/
def Alone (c : Conditions) (Q : Except Exn α → Session → Database → Trail → Prop)
    (m : Py α) (σ : Session) (db : Database) (q : Trail) : Prop :=
  (m σ).Secures (serveUnharmed c.tid c.up c.lookups) c.Known
    (fun k o k' ↦ k'.2.resolutions = k.2.resolutions + o.resolutions)
    (fun p k ↦ Q p.1 p.2 k.1 k.2) (db, q)

variable {c : Conditions} {Q : Except Exn α → Session → Database → Trail → Prop}
  {σ : Session} {db : Database} {q : Trail}

/-- What has to be kept holds before every operation. -/
theorem alone_of_keeps {m : Py α} (h : c.keeps db → Alone c Q m σ db q) : Alone c Q m σ db q :=
  Program.secures_of_known fun _ hs ↦ h hs.keeps

/-- A weaker end is reached as well. -/
theorem Alone.mono {Q' : Except Exn α → Session → Database → Trail → Prop} {m : Py α}
    (h : Alone c Q m σ db q) (hQ : ∀ a σ db q, Q a σ db q → Q' a σ db q) :
    Alone c Q' m σ db q :=
  Program.Secures.mono h fun p k _ _ ↦ hQ p.1 p.2 k.1 k.2

theorem alone_pure {a : α} (h : Q (.ok a) σ db q) : Alone c Q (pure a) σ db q :=
  fun _ _ ↦ h

theorem alone_raise {e : Exn} (h : Q (.error e) σ db q) : Alone c Q (raise e) σ db q :=
  fun _ _ ↦ h

theorem alone_session {Q : Except Exn Session → Session → Database → Trail → Prop}
    (h : Q (.ok σ) σ db q) : Alone c Q session σ db q :=
  fun _ _ ↦ h

theorem alone_modify {Q : Except Exn Unit → Session → Database → Trail → Prop}
    {f : Session → Session} (h : Q (.ok ()) (f σ) db q) : Alone c Q (modify f) σ db q :=
  fun _ _ ↦ h

/-- How code goes on after `m`: an exception skips the rest. -/
abbrev goesOn (c : Conditions) (Q : Except Exn β → Session → Database → Trail → Prop)
    (f : α → Py β) : Except Exn α → Session → Database → Trail → Prop
  | .ok a, σ, db, q => Alone c Q (f a) σ db q
  | .error e, σ, db, q => Q (.error e) σ db q

/-- The rule of sequential composition. -/
theorem alone_bind {Q : Except Exn β → Session → Database → Trail → Prop} {m : Py α}
    {f : α → Py β} (h : Alone c (goesOn c Q f) m σ db q) : Alone c Q (m >>= f) σ db q := by
  refine Program.secures_bind.2 (Program.Secures.mono h ?_)
  rintro ⟨e | a, σ'⟩ k s - h'
  · exact fun _ _ ↦ h'
  · exact h'

/-- `try`/`except`: the handler runs in the session that the exception has left. -/
theorem alone_tryExcept {m : Py α} {handler : Exn → Py α}
    (h : Alone c (fun a σ db q ↦ match a with
      | .ok a => Q (.ok a) σ db q
      | .error e => Alone c Q (handler e) σ db q) m σ db q) :
    Alone c Q (tryExcept m handler) σ db q := by
  refine Program.secures_bind.2 (Program.Secures.mono h ?_)
  rintro ⟨e | a, σ'⟩ k s - h'
  · exact h'
  · exact fun _ _ ↦ h'

/-- `finally: db.close()`. -/
theorem alone_tryFinally_close {m : Py α} (h : Alone c Q m σ db q) :
    Alone c Q (tryFinally m close) σ db q := by
  refine Program.secures_bind.2 (Program.Secures.mono h ?_)
  rintro ⟨a, σ'⟩ k s - h' s' e hs
  refine ⟨(), _, k, rfl, { hs with
    free := hs.free.release.of_locks rfl
    since := hs.since.trans (Nat.le_add_right _ _) }, rfl, fun _ _ ↦ h'⟩

/-- A loop whose body raises nothing: `J` relates the session, the database and the trail to the
elements that are left. -/
theorem alone_forM {f : α → Py Unit} (J : List α → Session → Database → Trail → Prop)
    (hstep : ∀ a as σ db q, J (a :: as) σ db q →
      Alone c (fun r σ db q ↦ r = .ok () ∧ J as σ db q) (f a) σ db q)
    (as : List α) (h : J as σ db q) :
    Alone c (fun r σ db q ↦ r = .ok () ∧ J [] σ db q) (as.forM f) σ db q := by
  induction as generalizing σ db q with
  | nil => exact alone_pure ⟨rfl, h⟩
  | cons a as ih =>
    refine alone_bind ((hstep a as σ db q h).mono ?_)
    rintro _ σ' db' q' ⟨rfl, h'⟩
    exact ih h'

/-! ### Statements -/

/-- A query is answered from the database. -/
theorem alone_select {k : Query}
    {Q : Except Exn k.Row → Session → Database → Trail → Prop}
    (hσ : σ.failed = false) (h : ∀ pick, Q (.ok (db.answer pick k)) σ db q) :
    Alone c Q (select k) σ db q := by
  unfold Alone
  rw [select, hσ, if_neg (by decide)]
  rintro s e hs
  obtain ⟨locks, hfree, hserve⟩ :=
    hs.free.answer k { e with fails := false, lookups := c.lookups.getD e.lookups } rfl
  refine ⟨_, _, (db, q), hserve, { hs with
    free := hfree
    since := hs.since.trans (Nat.le_add_right _ _) }, rfl, fun _ _ ↦ ?_⟩
  show Q (.ok (s.db.answer e.pick k)) σ db q
  rw [hs.db]
  exact h e.pick

/-- A session that refuses. -/
theorem alone_select_refused {k : Query}
    {Q : Except Exn k.Row → Session → Database → Trail → Prop}
    (hσ : σ.failed = true) (h : Q (.error .pendingRollback) σ db q) :
    Alone c Q (select k) σ db q := by
  unfold Alone
  rw [select, if_pos hσ]
  exact fun _ _ ↦ h

/-- What a commit does, by what its statements do. -/
def committed (c : Conditions) (Q : Except Exn Unit → Session → Database → Trail → Prop)
    (σ : Session) (q : Trail) : Except DbError Database → Database → Prop
  | .ok db', _ => c.keeps db' ∧ Q (.ok ()) σ.expire db' q
  | .error err, db => Q (.error (.database err)) { σ.expire with failed := true } db q

/-- A commit carries out what the session has gathered, at some time. -/
theorem alone_commit {site : Site}
    {Q : Except Exn Unit → Session → Database → Trail → Prop} (hσ : σ.failed = false)
    (h : ∀ now, committed c Q σ q (db.writeAll now (σ.flushed ++ σ.work)) db) :
    Alone c Q (commit site) σ db q := by
  unfold Alone
  rw [commit, hσ, if_neg (by decide)]
  rintro s e hs
  obtain rfl : s.db = db := hs.db
  have hQ := h (s.clock + e.tick - e.age)
  have hfree : Store.FreeFor c.tid { s with clock := s.clock + e.tick } := hs.free.of_locks rfl
  cases hwrite : s.db.writeAll (s.clock + e.tick - e.age) (σ.flushed ++ σ.work) with
  | ok db' =>
    rw [hwrite] at hQ
    refine ⟨.ok (), { Store.release { s with clock := s.clock + e.tick } c.tid with db := db' },
      (db', q), ?_, { hs with
        free := hfree.release.of_locks rfl
        db := rfl
        keeps := hQ.1
        since := hs.since.trans (Nat.le_add_right _ _) }, rfl, fun _ _ ↦ hQ.2⟩
    simp [serveUnharmed, serve, Op.isPublish, hfree.not_waits, hwrite]
  | error err =>
    rw [hwrite] at hQ
    refine ⟨.error err, Store.release { s with clock := s.clock + e.tick } c.tid, (s.db, q), ?_,
      { hs with
        free := hfree.release
        since := hs.since.trans (Nat.le_add_right _ _) }, rfl, fun _ _ ↦ hQ⟩
    simp [serveUnharmed, serve, Op.isPublish, hfree.not_waits, hwrite]

/-- A flush does so without ending the transaction. -/
theorem alone_flush {Q : Except Exn Unit → Session → Database → Trail → Prop}
    (hσ : σ.failed = false)
    (h : ∀ now, ∃ db', db.writeAll now (σ.flushed ++ σ.work) = .ok db')
    (hQ : Q (.ok ()) { σ with flushed := σ.flushed ++ σ.work, work := [] } db q) :
    Alone c Q flush σ db q := by
  unfold Alone
  rw [flush, if_neg (by simp [hσ])]
  rintro s e hs
  obtain rfl : s.db = db := hs.db
  obtain ⟨db', hwrite⟩ := h (s.clock + e.tick - e.age)
  have hfree : Store.FreeFor c.tid { s with clock := s.clock + e.tick } := hs.free.of_locks rfl
  refine ⟨.ok (), { s with clock := s.clock + e.tick }, (s.db, q), ?_, { hs with
    free := hfree
    since := hs.since.trans (Nat.le_add_right _ _) }, rfl, fun _ _ ↦ hQ⟩
  simp [serveUnharmed, serve, Op.isPublish, hfree.not_waits, hwrite]

theorem alone_rollback {Q : Except Exn Unit → Session → Database → Trail → Prop}
    (h : Q (.ok ()) { σ.expire with failed := false } db q) :
    Alone c Q rollback σ db q :=
  fun _ _ hs ↦ ⟨(), _, (db, q), rfl, { hs with
    free := hs.free.release.of_locks rfl
    since := hs.since.trans (Nat.le_add_right _ _) }, rfl, fun _ _ ↦ h⟩

/-- The clock has not gone back. -/
theorem alone_now {Q : Except Exn Time → Session → Database → Trail → Prop}
    (h : ∀ t, q.since ≤ t → Q (.ok t) σ db (q.seen t)) : Alone c Q (call .now) σ db q := by
  intro s e hs
  have ht : q.since ≤ s.clock + e.tick := hs.since.trans (Nat.le_add_right _ _)
  exact ⟨_, _, (db, q.seen (s.clock + e.tick)), rfl, { hs with
    free := hs.free.of_locks rfl
    since := le_rfl }, rfl, fun _ _ ↦ h _ ht⟩

/-- A new id is above every stored one, and above those that have been drawn before. -/
theorem alone_uuid4 {Q : Except Exn Id → Session → Database → Trail → Prop}
    (h : ∀ id, db.idBound ≤ id → q.drawn ≤ id → Q (.ok id) σ db (q.draw id)) :
    Alone c Q (call .uuid4) σ db q := by
  intro s e hs
  have hbound : db.idBound ≤ max s.uuids s.db.idBound := hs.db ▸ le_max_right _ _
  have hdrawn : q.drawn ≤ max s.uuids s.db.idBound := hs.drawn.trans (le_max_left _ _)
  exact ⟨_, _, (db, q.draw (max s.uuids s.db.idBound)), rfl, { hs with
    free := hs.free.of_locks rfl
    since := hs.since.trans (Nat.le_add_right _ _)
    drawn := le_rfl }, rfl, fun _ _ ↦ h _ hbound hdrawn⟩

/-- A lookup is answered by the resolver, and is counted. -/
theorem alone_lookup {Q : Except Exn Lookup → Session → Database → Trail → Prop}
    {name : String} {type : AssetType} {lookups : AssetType → Lookup}
    (hlookups : c.lookups = some lookups) (h : Q (.ok (lookups type)) σ db (q.ask name type)) :
    Alone c Q (call (.lookup name type)) σ db q := by
  intro s e hs
  refine ⟨_, _, (db, q.ask name type), rfl, { hs with
    free := hs.free.of_locks rfl
    since := hs.since.trans (Nat.le_add_right _ _) }, rfl, fun _ _ ↦ ?_⟩
  rw [hlookups]
  exact h

/-- Hand a message to the broker. -/
theorem alone_call_publish {Q : Except Exn (Except String Unit) → Session → Database →
    Trail → Prop} {m : Message} (hup : c.up = true → Q (.ok (.ok ())) σ db (q.push m))
    (hdown : c.up = false → ∀ text, Q (.ok (.error text)) σ db q) :
    Alone c Q (call (.publish m)) σ db q := by
  intro s e hs
  have hq := hs.queue
  simp only at hq
  cases hc : c.up with
  | true =>
    refine ⟨.ok (), { s with clock := s.clock + e.tick, queue := s.queue ++ [m] },
      (db, q.push m), ?_, { hs with
        free := hs.free.of_locks rfl
        queue := by simp [Trail.push, hq]
        since := hs.since.trans (Nat.le_add_right _ _) }, rfl, fun _ _ ↦ hup hc⟩
    simp [serveUnharmed, serve, Op.isPublish]
  | false =>
    refine ⟨.error e.text, { s with clock := s.clock + e.tick }, (db, q), ?_, { hs with
      free := hs.free.of_locks rfl
      since := hs.since.trans (Nat.le_add_right _ _) }, rfl, fun _ _ ↦ hdown hc e.text⟩
    simp [serveUnharmed, serve, Op.isPublish]

end Py

end AssetDiscovery
