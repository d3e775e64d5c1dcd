import AssetDiscovery.Alone.Requests

/-!
# Whole runs of processes that run alone

The lemmas of the layer below speak about code in a session. Here they become facts about processes:
a request with the session it opens and closes, and a worker's run of a message. `Effect.Program`
reads them back as facts about `run`, `tally` and `stopAfter`.
-/

set_option autoImplicit false

namespace AssetDiscovery

open Effect

namespace Store

variable (s : Store)

/-- Run a process alone to its end. -/
def serveTo (up : Bool) (lookups : AssetType → Lookup) (m : Py Response) (ω : ℕ → Env) :
    Option (Except Exn Response × (ℕ → Env) × Store) :=
  (Py.start m).run (serveAlone up lookups) ω s

/-- How often a process that runs alone to its end asks the resolver. -/
def resolutions (up : Bool) (lookups : AssetType → Lookup) (m : Py Response) (ω : ℕ → Env) : ℕ :=
  (Py.start m).tally (serveAlone up lookups) Op.resolutions ω s

/-- The trail of a process that starts. -/
def trail : Trail where
  queue := s.queue
  since := s.clock
  drawn := s.uuids

/-- What is known at the start of a process that runs alone. -/
theorem known_trail {s : Store} {c : Conditions} (hs : s.FreeFor c.tid) (hI : c.keeps s.db) :
    c.Known (s.db, s.trail) s :=
  ⟨hs, rfl, hI, rfl, le_rfl, le_rfl⟩

end Store

namespace Py

variable {c : Conditions} {Q : Except Exn Response → Session → Database → Trail → Prop}
  {m : Py Response} {s : Store} {up : Bool} {lookups : AssetType → Lookup}
  {keeps : Database → Prop}

/-- What code ensures in a new session holds of the process that runs it. -/
theorem Alone.start {db : Database} {q : Trail} (h : Alone c Q m .new db q) :
    (Py.start m).Secures (serveUnharmed c.tid c.up c.lookups) c.Known
      (fun k o k' ↦ k'.2.resolutions = k.2.resolutions + o.resolutions)
      (fun a k ↦ ∃ σ, Q a σ k.1 k.2) (db, q) :=
  Program.secures_bind.2 (Program.Secures.mono h fun p _ _ _ hQ ↦ fun _ _ ↦ ⟨p.2, hQ⟩)

/-- Wherever the process is stopped, what has to be kept holds. -/
theorem Alone.stopAfter
    (h : Alone { up := up, lookups := some lookups, keeps := keeps } Q m .new s.db s.trail)
    (hs : s.Free) (hI : keeps s.db) (ω : ℕ → Env) (n : ℕ) :
    ((Py.start m).stopAfter (serveAlone up lookups) n ω s).Free ∧
      keeps ((Py.start m).stopAfter (serveAlone up lookups) n ω s).db := by
  obtain ⟨⟨db, q⟩, hknown⟩ :=
    (h.start.ensures (Store.known_trail hs hI)).stopAfter (ω := ω) (fun _ ↦ trivial) n
  exact ⟨hknown.free, hknown.db ▸ hknown.keeps⟩

/-- The process runs to its end, and ends as the code does. -/
theorem Alone.serveTo
    (h : Alone { up := up, lookups := some lookups, keeps := keeps } Q m .new s.db s.trail)
    (hs : s.Free) (hI : keeps s.db) (ω : ℕ → Env) :
    ∃ a ω' s' σ q, s.serveTo up lookups m ω = some (a, ω', s') ∧ s'.Free ∧ q.queue = s'.queue ∧
      q.resolutions = s.resolutions up lookups m ω ∧ Q a σ s'.db q := by
  obtain ⟨a, ω', s', ⟨db, q⟩, hrun, hknown, ⟨σ, hQ⟩, hn⟩ :=
    h.start.run Op.resolutions (fun k ↦ k.2.resolutions) (fun hR ↦ hR)
      (Store.known_trail hs hI) ω
  obtain rfl : s'.db = db := hknown.db
  exact ⟨a, ω', s', σ, q, hrun, hknown.free, hknown.queue.symm, hn.trans (Nat.zero_add _), hQ⟩

/-- Each run of the process ends as the code does. -/
theorem Alone.of_serveTo
    (h : Alone { up := up, lookups := some lookups, keeps := keeps } Q m .new s.db s.trail)
    (hs : s.Free) (hI : keeps s.db) {ω ω' : ℕ → Env} {a : Except Exn Response} {s' : Store}
    (hrun : s.serveTo up lookups m ω = some (a, ω', s')) :
    s'.Free ∧ ∃ σ q, q.queue = s'.queue ∧ q.resolutions = s.resolutions up lookups m ω ∧
      Q a σ s'.db q := by
  obtain ⟨b, ω'', s'', σ, q, hrun', hfree, hqueue, hn, hQ⟩ := h.serveTo hs hI ω
  obtain ⟨rfl, -, rfl⟩ : a = b ∧ ω' = ω'' ∧ s' = s'' := by simpa using hrun.symm.trans hrun'
  exact ⟨hfree, σ, q, hqueue, hn, hQ⟩

/-! ### Requests and workers -/

variable {u : Unicode} {db : Database} {q : Trail}

/-- A creation that runs alone. -/
theorem alone_create {payload : String} {user : Id} (hkeeps : ∀ db', c.keeps db') :
    Alone c (fun a _ db' q' ↦ Created u c.up payload db q a db' q')
      ((Request.create payload user).code u) .new db q :=
  alone_tryFinally_close (alone_createDomain hkeeps)

/-- A trigger that runs alone. -/
theorem alone_trigger {d user : Id} (hkeeps : ∀ x db', Queued db x d db' → c.keeps db') :
    Alone c (fun a _ db' q' ↦ Triggered c.up d db q a db' q')
      ((Request.trigger d user).code u) .new db q :=
  alone_tryFinally_close (alone_triggerManualScan hkeeps)

/-- A deletion that runs alone. -/
theorem alone_delete {d : Id} (hkeeps : c.keeps (db.deleteDomain d)) :
    Alone c (fun a _ db' q' ↦ Deleted d db a db' ∧ q' = q) ((Request.delete d).code u) .new db q :=
  alone_tryFinally_close (alone_deleteDomain hkeeps)

/-- A recovery that runs alone. -/
theorem alone_recover (hup : c.up = true)
    (hkeeps : ∀ db', (∀ q, db'.board q = (db.board q).reset (db.runningScans.map Scan.id)) →
      db'.ledger = db.ledger → c.keeps db') :
    Alone c (fun a _ db' q' ↦ a = .ok .done ∧ Recovered db q db' q') (Request.recover.code u) .new
      db q := by
  refine alone_bind ((alone_recoverPendingJobs hup hkeeps).mono ?_)
  rintro _ σ db' q' ⟨rfl, h⟩
  exact alone_pure ⟨rfl, h⟩

/-- A delivery that runs alone. -/
theorem alone_runDiscoveryScan {cfg : Settings} {m : Message} (hup : c.up = true)
    (hlookups : c.lookups = some lookups)
    (hkeeps : ∀ db', Interim lookups m.scan db db' → c.keeps db') :
    Alone c (fun _ _ db' q' ↦ Processed cfg lookups m db q db' q') (runDiscoveryScan cfg m) .new
      db q := by
  refine alone_bind ((alone_processScan hup hlookups hkeeps).mono ?_)
  rintro (e | a) σ db' q' h
  · exact h
  · exact alone_pure h

end Py

end AssetDiscovery
