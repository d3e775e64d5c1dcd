import AssetDiscovery.Alone.Runs
import AssetDiscovery.Stranding
import Mathlib.Data.Prod.Lex
import Mathlib.Algebra.Ring.Nat
import Mathlib.Data.Finset.Card

/-!
# What a recovery drains

After a recovery, deliveries one at a time come to an end, whatever the order of the messages and
whatever is looked up, and leave no scan unfinished (`recovery_drains`).

* The invariant is `NoneStranded` without any process: a RUNNING scan is queued, and a domain with a
  PENDING scan has a RUNNING one or a PENDING one that is queued.
* The measure is lexicographic: the number of active scans, then the attempts that the queued
  messages have left. A delivery that finishes a scan may publish a message; every other delivery
  leaves the active scans as they are and uses up an attempt.
-/

set_option autoImplicit false

namespace AssetDiscovery

open Effect

/-- No statement fails because of what the resolver answers. -/
def Storable (lookups : AssetType → Lookup) : Prop :=
  ∀ rs, answers lookups = .ok rs → Fits rs

/-- Deliveries one at a time, of any message and with any outcome, empty the queue after finitely
many, and then every scan is finished. -/
inductive Drains (cfg : Settings) : Store → Prop where
  | drained {s : Store} (hq : s.queue = [])
      (h : ∀ row ∈ s.db.scans, row.status = .completed ∨ row.status = .failed) : Drains cfg s
  | deliver {s : Store} (hq : s.queue ≠ [])
      (hends : ∀ n m lookups ω, s.queue[n]? = some m → Storable lookups →
        (Store.serveTo { s with queue := s.queue.eraseIdx n } true lookups (runDiscoveryScan cfg m)
          ω).isSome)
      (hnext : ∀ n m lookups ω a ω' s', s.queue[n]? = some m → Storable lookups →
        Store.serveTo { s with queue := s.queue.eraseIdx n } true lookups (runDiscoveryScan cfg m)
          ω = some (a, ω', s') → Drains cfg s') : Drains cfg s

/-! ### The invariant -/

section Invariant

variable {cfg : Settings} {lookups : AssetType → Lookup} {m : Message} {db db' : Database}
  {q q' : List Message} {n : ℕ}

/-- If no process is at work, the queue alone has to hold the active scans. -/
theorem noneStranded_nil {b : Board} : NoneStranded b [] ↔
    (∀ x d, b.Has x d .running → b.Queued x) ∧
      ∀ x d, b.Has x d .pending →
        (∃ y, b.Has y d .running) ∨ ∃ y, b.Has y d .pending ∧ b.Queued y := by
  constructor
  · intro h
    refine ⟨fun x d hx ↦ ?_, fun x d hx ↦ ?_⟩
    · simpa using h.running x d hx
    · simpa using h.pending x d hx
  · rintro ⟨hrunning, hpending⟩
    refine ⟨fun x d hx ↦ Or.inl (hrunning x d hx), fun x d hx ↦ ?_⟩
    refine (hpending x d hx).imp_right ?_
    rintro ⟨y, hy, hqueued⟩
    exact ⟨y, hy, Or.inl hqueued⟩

/-- A message other than the one that is taken stays queued. -/
theorem queued_of_ne {y : Id} (hm : q[n]? = some m) (h : (db.board q).Queued y) (hy : y ≠ m.scan) :
    ∃ m' ∈ q.eraseIdx n, m'.scan = y := by
  obtain ⟨m', hm', rfl⟩ := h
  refine ⟨m', (World.queued_eraseIdx hm hm').resolve_right ?_, rfl⟩
  rintro rfl
  exact hy rfl

/-- What a delivery leaves in the queue. -/
theorem Delivered.queue_subset (h : Delivered cfg lookups m db q db' q') : q ⊆ q' := by
  have hhanded : ∀ {db : Database} {d : Id}, Handed db d q q' → q ⊆ q' := by
    intro db d h
    cases h with
    | none => exact fun _ h ↦ h
    | next => exact List.subset_append_left q _
  cases h with
  | dropped | deferred | unfit => exact fun _ h ↦ h
  | retried => exact List.subset_append_left q _
  | completed _ _ _ hq => exact hhanded hq
  | failed _ _ hq => exact hhanded hq

/-- The scans of other domains are as they were. -/
theorem Settled.has_iff_of_ne {x d d' y : Id} {st st₀ yst : ScanStatus}
    {rs : List (AssetType × String)} (h : Settled db x d st rs db') (hx : (db.board q).Has x d st₀)
    (hd : d' ≠ d) : (db'.board q').Has y d' yst ↔ (db.board q).Has y d' yst := by
  rw [h.board, Board.has_setScan_some]
  constructor
  · rintro (⟨rfl, -, st₁, hst₁⟩ | ⟨-, hy⟩)
    · exact absurd (hst₁.unique hx).1 hd
    · exact hy
  · refine fun hy ↦ Or.inr ⟨?_, hy⟩
    rintro rfl
    exact hd (hy.unique hx).1

/-- A delivery that settles its scan strands none of another domain. -/
theorem Settled.noneStranded_of_ne {x d d' y : Id} {st st₀ : ScanStatus}
    {rs : List (AssetType × String)} (h : Settled db x d st rs db') (hx : (db.board q).Has x d st₀)
    (hd : d' ≠ d) (hkept : ∀ {y}, y ≠ x → (db.board q).Queued y → (db'.board q').Queued y)
    (hstranded : NoneStranded (db.board q) []) (hy : (db'.board q').Has y d' .pending) :
    (∃ z, (db'.board q').Has z d' .running) ∨
      ∃ z, (db'.board q').Has z d' .pending ∧ (db'.board q').Queued z := by
  simp only [h.has_iff_of_ne hx hd] at hy ⊢
  refine ((noneStranded_nil.1 hstranded).2 y d' hy).imp_right ?_
  rintro ⟨z, hz, hqueued⟩
  refine ⟨z, hz, hkept ?_ hqueued⟩
  rintro rfl
  exact hd (hz.unique hx).1

/-- A scan gets its final status, and the next one of the domain is queued. -/
theorem noneStranded_of_handed {d : Id} {st : ScanStatus} {rs : List (AssetType × String)}
    (hm : q[n]? = some m) (hstranded : NoneStranded (db.board q) [])
    (hx : (db.board q).HasActive m.scan d) (hst : ¬ st.IsActive)
    (h : Settled db m.scan d st rs db') (hq : Handed db' d (q.eraseIdx n) q') :
    NoneStranded (db'.board q') [] := by
  obtain ⟨hrunning, -⟩ := noneStranded_nil.1 hstranded
  obtain ⟨st₀, hst₀, -⟩ := hx
  have hsub : q.eraseIdx n ⊆ q' := by
    cases hq with
    | none => exact fun _ h ↦ h
    | next => exact List.subset_append_left _ _
  have hkept : ∀ {y}, y ≠ m.scan → (db.board q).Queued y → (db'.board q').Queued y := by
    intro y hy hqueued
    obtain ⟨m', hm', hscan⟩ := queued_of_ne hm hqueued hy
    exact ⟨m', hsub hm', hscan⟩
  -- the scan itself is finished, and any other has the status it had
  have hold : ∀ {y d' yst}, (db'.board q').Has y d' yst → yst.IsActive →
      y ≠ m.scan ∧ (db.board q).Has y d' yst := by
    intro y d' yst hy hactive
    rw [h.board] at hy
    rcases Board.has_setScan_some.1 hy with ⟨-, rfl, -⟩ | hy
    · exact absurd hactive hst
    · exact hy
  refine noneStranded_nil.2 ⟨fun y d' hy ↦ ?_, fun y d' hy ↦ ?_⟩
  · obtain ⟨hne, hy⟩ := hold hy trivial
    exact hkept hne (hrunning y d' hy)
  · by_cases hd : d' = d
    · subst hd
      refine Or.inr ?_
      cases hq with
      | none hnone => exact absurd hy (hnone y)
      | @next z hz => exact ⟨z, hz, ⟨z, 0⟩, List.mem_append_right _ List.mem_cons_self, rfl⟩
    · exact h.noneStranded_of_ne hst₀ hd hkept hstranded hy

/-- A delivery strands no scan. -/
theorem Delivered.noneStranded (h : Delivered cfg lookups m db (q.eraseIdx n) db' q')
    (hm : q[n]? = some m) (hstorable : Storable lookups)
    (hstranded : NoneStranded (db.board q) []) : NoneStranded (db'.board q') [] := by
  obtain ⟨hrunning, hpending⟩ := noneStranded_nil.1 hstranded
  have hkept : ∀ {y}, y ≠ m.scan → (db.board q).Queued y → (db'.board q').Queued y := by
    intro y hy hqueued
    obtain ⟨m', hm', hscan⟩ := queued_of_ne hm hqueued hy
    exact ⟨m', h.queue_subset hm', hscan⟩
  cases h with
  | dropped hx =>
    have hne : ∀ {y d st}, (db.board q).Has y d st → st.IsActive → y ≠ m.scan := by
      rintro y d st hy hst rfl
      exact hx d (hy.active hst)
    refine noneStranded_nil.2 ⟨fun y d hy ↦ hkept (hne hy trivial) (hrunning y d hy), ?_⟩
    intro y d hy
    refine (hpending y d hy).imp_right ?_
    rintro ⟨z, hz, hqueued⟩
    exact ⟨z, hz, hkept (hne hz trivial) hqueued⟩
  | @deferred d₀ y₀ hx hy₀ =>
    refine noneStranded_nil.2 ⟨fun y d hy ↦ hkept ?_ (hrunning y d hy), fun y d hy ↦ ?_⟩
    · rintro rfl
      exact absurd (hy.unique hx).2 nofun
    · rcases hpending y d hy with hz | ⟨z, hz, hqueued⟩
      · exact Or.inl hz
      · by_cases hd : d = d₀
        · exact Or.inl ⟨y₀, hd ▸ hy₀⟩
        · refine Or.inr ⟨z, hz, hkept ?_ hqueued⟩
          rintro rfl
          exact hd (hz.unique hx).1
  | @retried d₀ _ hx hr h =>
    obtain ⟨st₀, hst₀, -⟩ := id hx
    refine noneStranded_nil.2 ⟨fun y d hy ↦ ?_, fun y d hy ↦ ?_⟩
    · rw [h.board] at hy
      rcases Board.has_setScan_some.1 hy with ⟨rfl, -⟩ | ⟨hne, hy⟩
      · exact ⟨⟨m.scan, m.retries + 1⟩, List.mem_append_right _ List.mem_cons_self, rfl⟩
      · exact hkept hne (hrunning y d hy)
    · by_cases hd : d = d₀
      · refine Or.inl ⟨m.scan, ?_⟩
        rw [h.board, hd]
        exact Board.has_setScan_some.2 (Or.inl ⟨rfl, rfl, st₀, hst₀⟩)
      · exact h.noneStranded_of_ne (q := q) hst₀ hd hkept hstranded hy
  | unfit _ hrs hfits => exact absurd (hstorable _ hrs) hfits
  | completed hx _ h hq => exact noneStranded_of_handed hm hstranded hx id h hq
  | failed hx h hq => exact noneStranded_of_handed hm hstranded hx id h hq

/-- After a recovery every active scan is PENDING and queued. -/
theorem Recovered.noneStranded (h : Recovered db q db' q') : NoneStranded (db'.board q') [] := by
  have hqueued : ∀ {x d}, (db'.board q').HasActive x d → (db'.board q').Queued x := by
    intro x d hx
    refine ⟨⟨x, 0⟩, ?_, rfl⟩
    show (⟨x, 0⟩ : Message) ∈ q'
    rw [h.queue]
    exact List.mem_append_right _
      (List.mem_map_of_mem (Database.mem_recoverableIds.2 ⟨d, hx⟩))
  exact noneStranded_nil.2 ⟨fun x d hx ↦ hqueued (hx.active trivial),
    fun x d hx ↦ Or.inr ⟨x, hx, hqueued (hx.active trivial)⟩⟩

end Invariant

/-! ### The measure -/

/-- The scans that are PENDING or RUNNING. -/
def Database.activeScans (db : Database) : Finset Id :=
  db.recoverableIds.toFinset

/-- The active scans are those of the board. -/
theorem Database.mem_activeScans {db : Database} {q : List Message} {x : Id} :
    x ∈ db.activeScans ↔ ∃ d, (db.board q).HasActive x d := by
  rw [activeScans, List.mem_toFinset, mem_recoverableIds]

/-- The attempts that a message has left, this one included. -/
def Settings.attempts (cfg : Settings) (m : Message) : ℕ :=
  cfg.scanMaxRetries - m.retries + 1

/-- The number of active scans, then the attempts left in the queue. -/
def drainRank (cfg : Settings) (db : Database) (q : List Message) : ℕ ×ₗ ℕ :=
  toLex (db.activeScans.card, (q.map cfg.attempts).sum)

section Measure

variable {cfg : Settings} {lookups : AssetType → Lookup} {m : Message} {db db' : Database}
  {q q' : List Message}

/-- The attempts left in a queue are those of one message and those of the others. -/
theorem sum_attempts_eraseIdx (cfg : Settings) {n : ℕ} (hm : q[n]? = some m) :
    (q.map cfg.attempts).sum = cfg.attempts m + ((q.eraseIdx n).map cfg.attempts).sum := by
  obtain ⟨hn, rfl⟩ := List.getElem?_eq_some_iff.1 hm
  have hperm := ((List.getElem_cons_eraseIdx_perm hn).map cfg.attempts).sum_nat
  rw [← hperm, List.map_cons, List.sum_cons]

/-- A scan that gets its final status is no longer active, and no other becomes active. -/
theorem Settled.card_lt {x d : Id} {st : ScanStatus} {rs : List (AssetType × String)}
    (h : Settled db x d st rs db') (hx : (db.board q).HasActive x d) (hst : ¬ st.IsActive) :
    db'.activeScans.card < db.activeScans.card := by
  refine Finset.card_lt_card ⟨fun y hy ↦ ?_, fun hsub ↦ ?_⟩
  · obtain ⟨d', yst, hy, hactive⟩ := Database.mem_activeScans (q := q).1 hy
    rw [h.board] at hy
    rcases Board.has_setScan_some.1 hy with ⟨-, rfl, -⟩ | ⟨-, hy⟩
    · exact absurd hactive hst
    · exact Database.mem_activeScans.2 ⟨d', hy.active hactive⟩
  · have hx' := hsub (Database.mem_activeScans.2 ⟨d, hx⟩)
    obtain ⟨d', yst, hy, hactive⟩ := Database.mem_activeScans (q := q).1 hx'
    rw [h.board] at hy
    rcases Board.has_setScan_some.1 hy with ⟨-, rfl, -⟩ | ⟨hne, -⟩
    · exact hst hactive
    · exact hne rfl

/-- A scan that gets an active status leaves the active scans as they are. -/
theorem Settled.activeScans_eq {x d : Id} {st : ScanStatus} {rs : List (AssetType × String)}
    (h : Settled db x d st rs db') (hx : (db.board q).HasActive x d) (hst : st.IsActive) :
    db'.activeScans = db.activeScans := by
  obtain ⟨st₀, hst₀, hactive₀⟩ := hx
  ext y
  rw [Database.mem_activeScans (q := q), Database.mem_activeScans (q := q), h.board]
  refine exists_congr fun d' ↦ ⟨?_, ?_⟩
  · rintro ⟨yst, hy, hactive⟩
    rcases Board.has_setScan_some.1 hy with ⟨rfl, -, st₁, hst₁⟩ | ⟨-, hy⟩
    · obtain ⟨rfl, rfl⟩ := hst₁.unique hst₀
      exact hst₁.active hactive₀
    · exact hy.active hactive
  · rintro ⟨yst, hy, hactive⟩
    by_cases hne : y = x
    · subst hne
      exact ⟨st, Board.has_setScan_some.2 (Or.inl ⟨rfl, rfl, yst, hy⟩), hst⟩
    · exact ⟨yst, Board.has_setScan_some.2 (Or.inr ⟨hne, hy⟩), hactive⟩

/-- Each delivery makes progress: it finishes a scan or uses up an attempt. -/
theorem Delivered.rank_lt {n : ℕ} (h : Delivered cfg lookups m db (q.eraseIdx n) db' q')
    (hm : q[n]? = some m) (hstorable : Storable lookups) :
    drainRank cfg db' q' < drainRank cfg db q := by
  have hsum := sum_attempts_eraseIdx cfg hm
  have hpos : 0 < cfg.attempts m := Nat.succ_pos _
  rw [drainRank, drainRank, Prod.Lex.toLex_lt_toLex]
  cases h with
  | dropped | deferred =>
    refine Or.inr ⟨rfl, ?_⟩
    rw [hsum]
    omega
  | retried hx hr h =>
    refine Or.inr ⟨by rw [h.activeScans_eq hx trivial], ?_⟩
    have hnext : cfg.attempts ⟨m.scan, m.retries + 1⟩ < cfg.attempts m := by
      unfold Settings.attempts
      show cfg.scanMaxRetries - (m.retries + 1) + 1 < cfg.scanMaxRetries - m.retries + 1
      omega
    rw [hsum, List.map_append, List.sum_append, List.map_singleton, List.sum_singleton]
    omega
  | unfit _ hrs hfits => exact absurd (hstorable _ hrs) hfits
  | completed hx _ h => exact Or.inl (h.card_lt hx id)
  | failed hx h => exact Or.inl (h.card_lt hx id)

end Measure

/-! ### Every sequence of deliveries comes to an end -/

variable {cfg : Settings}

/-- With nothing queued and nothing stranded every scan is finished. -/
theorem NoneStranded.finished {s : Store} (h : NoneStranded s.board []) (hq : s.queue = []) :
    ∀ row ∈ s.db.scans, row.status = .completed ∨ row.status = .failed := by
  obtain ⟨hrunning, hpending⟩ := noneStranded_nil.1 h
  have hnone : ∀ x, ¬ s.board.Queued x := by
    rintro x ⟨m, hm, -⟩
    rw [Store.board, Database.board_queue, hq] at hm
    exact absurd hm List.not_mem_nil
  intro row hrow
  have hx : s.board.Has row.id row.domainId row.status :=
    Database.has_board_of_get (Table.get_key hrow)
  cases hst : row.status with
  | completed => exact Or.inl rfl
  | failed => exact Or.inr rfl
  | running =>
    rw [hst] at hx
    exact absurd (hrunning _ _ hx) (hnone _)
  | pending =>
    rw [hst] at hx
    rcases hpending _ _ hx with ⟨y, hy⟩ | ⟨y, -, hy⟩
    · exact absurd (hrunning _ _ hy) (hnone _)
    · exact absurd hy (hnone _)

/-- A delivery of a queued message, run alone. -/
theorem alone_delivery (cfg : Settings) (s : Store) (n : ℕ) (m : Message)
    (lookups : AssetType → Lookup) :
    let s' : Store := { s with queue := s.queue.eraseIdx n }
    Py.Alone { lookups := some lookups }
      (fun _ _ db' q' ↦ Processed cfg lookups m s'.db s'.trail db' q')
      (runDiscoveryScan cfg m) .new s'.db s'.trail :=
  Py.alone_runDiscoveryScan rfl rfl fun _ _ ↦ trivial

/-- From a state that strands no scan everything is drained. -/
theorem NoneStranded.drains {s : Store} (hs : s.Free) (h : NoneStranded s.board []) :
    Drains cfg s := by
  -- by induction on the measure; each delivery keeps the invariant and makes progress
  induction hr : drainRank cfg s.db s.queue using WellFoundedLT.induction generalizing s with
  | ind r ih =>
    subst hr
    by_cases hq : s.queue = []
    · exact .drained hq (h.finished hq)
    · refine .deliver hq (fun n m lookups ω _ _ ↦ ?_)
        fun n m lookups ω a ω' s' hm hstorable hrun ↦ ?_
      · obtain ⟨a, ω', s', σ, q', hrun, -⟩ := (alone_delivery cfg s n m lookups).serveTo
          (s := { s with queue := s.queue.eraseIdx n }) (hs.of_locks rfl) trivial ω
        exact Option.isSome_iff_exists.2 ⟨_, hrun⟩
      · obtain ⟨hs', σ, q', hq', -, hprocessed⟩ := (alone_delivery cfg s n m lookups).of_serveTo
          (s := { s with queue := s.queue.eraseIdx n }) (hs.of_locks rfl) trivial hrun
        have hdelivered := hprocessed.delivered
        rw [hq'] at hdelivered
        exact ih _ (hdelivered.rank_lt hm hstorable) hs'
          (hdelivered.noneStranded hm hstorable h) rfl

/-- **A recovery drains everything**: from every database and every queue it runs to its end, and
leaves a state from which deliveries in any order empty the queue and finish every scan. -/
theorem recovery_drains (cfg : Settings) (u : Unicode) (lookups : AssetType → Lookup) {s : Store}
    (hs : s.Free) (ω : ℕ → Env) :
    ∃ ω' s', s.serveTo true lookups (Request.recover.code u) ω = some (.ok .done, ω', s') ∧
      Drains cfg s' := by
  have halone : Py.Alone { lookups := some lookups }
      (fun a _ db' q' ↦ a = .ok .done ∧ Recovered s.db s.trail db' q') (Request.recover.code u)
      .new s.db s.trail := Py.alone_recover rfl fun _ _ _ ↦ trivial
  obtain ⟨a, ω', s', σ, q', hrun, hs', hq', -, rfl, hrecovered⟩ := halone.serveTo hs trivial ω
  rw [hq'] at hrecovered
  exact ⟨ω', s', hrun, hrecovered.noneStranded.drains hs'⟩

/-- A domain with a RUNNING and a PENDING scan, and a message for a scan that is gone. -/
def interrupted : Store :=
  { Store.oneDomain with
    db := (Store.oneDomain.db.insertScan ⟨1, 0, .running, some 7, some 0, none, none, 0⟩ rfl
      rfl).insertScan ⟨2, 0, .pending, some 7, none, none, none, 0⟩ rfl rfl
    queue := [⟨5, 2⟩] }

/-- `recovery_drains` after a crash. -/
theorem recovery_drains_interrupted :
    ∃ ω' s', interrupted.serveTo true (fun _ ↦ .answer []) (Request.recover.code .plain)
      (fun _ ↦ {}) = some (.ok .done, ω', s') ∧ Drains {} s' :=
  recovery_drains {} .plain (fun _ ↦ .answer []) (fun _ ⟨_, ht, _⟩ ↦ absurd ht nofun) fun _ ↦ {}

end AssetDiscovery
