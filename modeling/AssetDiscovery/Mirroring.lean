import AssetDiscovery.Alone.Runs

/-!
# The status of a domain

The status of a domain is a copy that four operations write in commits of their own. In a history of
complete operations, one after another, it mirrors the scans of the domain (`Mirrors`) — except
after a recovery that finds a scan RUNNING: it resets the scan and leaves the domain as it was.

* Every operation keeps `LatestActive`: no scan of a domain is active but the latest one.
* Every operation but such a recovery keeps `LatestMirrored`: the domain has the status of its
  latest scan. Under `LatestActive` this is what the mirroring comes down to.

`SerialRun.mirrors_iff` states the condition exactly.
-/

set_option autoImplicit false

namespace AssetDiscovery

open Effect

/-! ### Complete operations -/

/-- A complete operation of the service. -/
inductive Operation where
  | request (r : Request)
  /-- One delivery of a message to a worker, with what the resolver answers. -/
  | deliver (m : Message) (lookups : AssetType → Lookup)

namespace Operation

/-- What the resolver answers during the operation. -/
def lookups : Operation → AssetType → Lookup
  | request _ => fun _ ↦ .answer []
  | deliver _ lookups => lookups

variable (cfg : Settings) (u : Unicode)

/-- The code that carries the operation out. -/
def code : Operation → Py Response
  | request r => r.code u
  | deliver m _ => runDiscoveryScan cfg m

/-- How the operation can end when nothing fails. -/
def Ends : Operation → Except Exn Response → Database → Trail → Database → Trail → Prop
  | request (.create payload _), a, db, q, db', q' => Created u true payload db q a db' q'
  | request (.trigger d _), a, db, q, db', q' => Triggered true d db q a db' q'
  | request (.delete d), a, db, q, db', q' => Deleted d db a db' ∧ q' = q
  | request .recover, a, db, q, db', q' => a = .ok .done ∧ Recovered db q db' q'
  | deliver m lookups, _, db, q, db', q' => Processed cfg lookups m db q db' q'

variable {cfg u}

theorem alone (o : Operation) (db : Database) (q : Trail) :
    Py.Alone { lookups := some o.lookups } (fun a _ db' q' ↦ o.Ends cfg u a db q db' q')
      (o.code cfg u) .new db q := by
  cases o with
  | request r =>
    cases r with
    | create payload user => exact Py.alone_create fun _ ↦ trivial
    | trigger d user => exact Py.alone_trigger (u := u) fun _ _ _ ↦ trivial
    | delete d => exact Py.alone_delete (u := u) trivial
    | recover => exact Py.alone_recover (u := u) rfl fun _ _ _ ↦ trivial
  | deliver m lookups => exact Py.alone_runDiscoveryScan rfl rfl fun _ _ ↦ trivial

variable (cfg u)

/-- Carried out alone, with no statement and no publish failing, the operation leads from `s` to
`s'`. -/
def Leads (o : Operation) (s s' : Store) : Prop :=
  ∃ ω a ω', s.serveTo true o.lookups (o.code cfg u) ω = some (a, ω', s')

variable {cfg u}

/-- An operation that leads to a store ends there as `Ends` says, and leaves no lock behind. -/
theorem Leads.ends {o : Operation} {s s' : Store} (h : o.Leads cfg u s s') (hs : s.Free) :
    s'.Free ∧ ∃ a q', q'.queue = s'.queue ∧ o.Ends cfg u a s.db s.trail s'.db q' := by
  obtain ⟨ω, a, ω', hrun⟩ := h
  obtain ⟨hs', σ, q', hq', -, hends⟩ := (o.alone s.db s.trail).of_serveTo hs trivial hrun
  exact ⟨hs', a, q', hq', hends⟩

end Operation

/-! ### What the status of a domain is judged by -/

/-- The status of a domain is that of its active scan if it has one, and otherwise that of its
latest scan. -/
def Mirrors (b : Board) (l : Ledger) : Prop :=
  ∀ d st, l.domains d = some st →
    (∀ x xst, b.Has x d xst → xst.IsActive → st = xst.toDomainStatus) ∧
    ((∀ x, ¬ b.HasActive x d) →
      ∃ x xst, l.latest d = some x ∧ b.Has x d xst ∧ st = xst.toDomainStatus)

/-- Every stored domain has a latest scan, and no other scan of it is active. -/
def LatestActive (b : Board) (l : Ledger) : Prop :=
  ∀ d, l.domains d ≠ none → ∃ x, l.latest d = some x ∧ ∀ y, b.HasActive y d → y = x

/-- Every stored domain has the status of its latest scan. -/
def LatestMirrored (b : Board) (l : Ledger) : Prop :=
  ∀ d st, l.domains d = some st →
    ∃ x xst, l.latest d = some x ∧ b.Has x d xst ∧ st = xst.toDomainStatus

section Judging

variable {b : Board} {l : Ledger}

/-- If only latest scans are active and the domains mirror these, they mirror the active scans too.
-/
theorem LatestMirrored.mirrors (h : LatestMirrored b l) (hactive : LatestActive b l) :
    Mirrors b l := by
  intro d st hd
  obtain ⟨x, xst, hx, hhas, hst⟩ := h d st hd
  refine ⟨fun y yst hy hyst ↦ ?_, fun _ ↦ ⟨x, xst, hx, hhas, hst⟩⟩
  obtain ⟨x', hx', honly⟩ := hactive d (by rw [hd]; exact nofun)
  obtain rfl : x = x' := Option.some.inj (hx.symm.trans hx')
  obtain rfl := honly y (hy.active hyst)
  rw [hst, (hhas.unique hy).2]

/-! ### Insertions -/

/-- A scan is inserted as the first of a new domain or as the only active one of a stored domain. -/
theorem LatestActive.addScan {x d : Id} (h : LatestActive b l) (l' : Ledger)
    (hx : b.scans x = none) (hfree : ∀ y, ¬ b.HasActive y d) (hlatest : l'.latest = l.latest)
    (hdomains : ∀ d', d' ≠ d → l'.domains d' = l.domains d') :
    LatestActive (b.addScan x d) (l'.addScan x d) := by
  have hactive : ∀ {y d'}, (b.addScan x d).HasActive y d' →
      (y = x ∧ d' = d) ∨ b.HasActive y d' := by
    rintro y d' ⟨st, hst, hst'⟩
    rcases (Board.has_addScan hx).1 hst with ⟨hy, hd', -⟩ | hst
    · exact Or.inl ⟨hy, hd'⟩
    · exact Or.inr (hst.active hst')
  intro d' hd'
  by_cases hd : d' = d
  · subst hd
    refine ⟨x, if_pos rfl, fun y hy ↦ ?_⟩
    exact ((hactive hy).resolve_right (hfree y)).1
  · rw [Ledger.addScan_domains, hdomains d' hd] at hd'
    obtain ⟨x', hx', honly⟩ := h d' hd'
    refine ⟨x', ?_, fun y hy ↦ ?_⟩
    · simp [Ledger.addScan, hd, hlatest, hx']
    · exact honly y ((hactive hy).resolve_left fun hy ↦ hd hy.2)

/-- A new PENDING scan is the latest one of a domain that is PENDING then. -/
theorem LatestMirrored.addScan {x d : Id} (h : LatestMirrored b l) (l' : Ledger)
    (hx : b.scans x = none) (hd : ∀ st, l'.domains d = some st → st = .pending)
    (hlatest : l'.latest = l.latest) (hdomains : ∀ d', d' ≠ d → l'.domains d' = l.domains d') :
    LatestMirrored (b.addScan x d) (l'.addScan x d) := by
  intro d' st hst
  rw [Ledger.addScan_domains] at hst
  by_cases hd' : d' = d
  · subst hd'
    refine ⟨x, .pending, if_pos rfl, (Board.has_addScan hx).2 (Or.inl ⟨rfl, rfl, rfl⟩), ?_⟩
    exact hd st hst
  · rw [hdomains d' hd'] at hst
    obtain ⟨x', xst, hx', hhas, hst⟩ := h d' st hst
    refine ⟨x', xst, ?_, (Board.has_addScan hx).2 (Or.inr hhas), hst⟩
    simp [Ledger.addScan, hd', hlatest, hx']

/-! ### A delivery -/

/-- A status for an active scan makes no other scan active. -/
theorem LatestActive.settle {x d : Id} {st : ScanStatus} {dst : DomainStatus}
    {rs : List (AssetType × String)} (h : LatestActive b l) (hx : b.HasActive x d) :
    LatestActive (b.setScan x (some st)) ((l.addRecords x rs).setDomain d dst) := by
  intro d' hd'
  have hstored : l.domains d' ≠ none := by
    intro hnone
    refine hd' ?_
    simp [Ledger.setDomain, hnone]
  obtain ⟨x', hx', honly⟩ := h d' hstored
  refine ⟨x', hx', ?_⟩
  rintro y ⟨yst, hy, hyst⟩
  rcases Board.has_setScan_some.1 hy with ⟨rfl, -, st₀, hst₀⟩ | ⟨-, hy⟩
  · obtain ⟨st₁, hst₁, hactive⟩ := hx
    obtain ⟨rfl, rfl⟩ := hst₁.unique hst₀
    exact honly y (hst₁.active hactive)
  · exact honly y (hy.active hyst)

/-- Scan and domain are given the same status. -/
theorem LatestMirrored.settle {x d : Id} {st : ScanStatus} {rs : List (AssetType × String)}
    (h : LatestMirrored b l) (hactive : LatestActive b l) (hx : b.HasActive x d) :
    LatestMirrored (b.setScan x (some st)) ((l.addRecords x rs).setDomain d st.toDomainStatus) := by
  obtain ⟨st₀, hst₀, -⟩ := id hx
  intro d' dst hdst
  by_cases hd : d' = d
  · subst hd
    have hstored : l.domains d' ≠ none := by
      intro hnone
      simp [Ledger.setDomain, hnone] at hdst
    obtain ⟨x', hx', honly⟩ := hactive d' hstored
    obtain rfl := honly x hx
    refine ⟨x, st, hx', Board.has_setScan_some.2 (Or.inl ⟨rfl, rfl, st₀, hst₀⟩), ?_⟩
    have hdst : (∃ st₁, l.domains d' = some st₁) ∧ st.toDomainStatus = dst := by
      simpa [Ledger.setDomain] using hdst
    exact hdst.2.symm
  · have hold : l.domains d' = some dst := by simpa [Ledger.setDomain, hd] using hdst
    obtain ⟨x', xst, hx', hhas, hst⟩ := h d' dst hold
    have hne : x' ≠ x := by
      rintro rfl
      exact hd (hhas.unique hst₀).1
    exact ⟨x', xst, hx', Board.has_setScan_some.2 (Or.inr ⟨hne, hhas⟩), hst⟩

/-! ### A deletion and a recovery -/

/-- A deletion leaves the other domains as they are. -/
theorem LatestActive.dropDomain {l' : Ledger} {d : Id} (h : LatestActive b l)
    (hdomains : ∀ d', l'.domains d' = if d' = d then none else l.domains d')
    (hlatest : ∀ d', l'.latest d' = if d' = d then none else l.latest d') :
    LatestActive (b.dropDomain d) l' := by
  intro d' hd'
  rw [hdomains] at hd'
  have hne : d' ≠ d := fun hd ↦ hd' (if_pos hd)
  rw [if_neg hne] at hd'
  obtain ⟨x, hx, honly⟩ := h d' hd'
  refine ⟨x, by rw [hlatest, if_neg hne, hx], ?_⟩
  rintro y ⟨st, hst, hactive⟩
  exact honly y ((Board.has_dropDomain.1 hst).2.active hactive)

/-- A deletion leaves the other domains as they are. -/
theorem LatestMirrored.dropDomain {l' : Ledger} {d : Id} (h : LatestMirrored b l)
    (hdomains : ∀ d', l'.domains d' = if d' = d then none else l.domains d')
    (hlatest : ∀ d', l'.latest d' = if d' = d then none else l.latest d') :
    LatestMirrored (b.dropDomain d) l' := by
  intro d' st hst
  rw [hdomains] at hst
  have hne : d' ≠ d := by
    rintro rfl
    rw [if_pos rfl] at hst
    exact absurd hst (by simp)
  rw [if_neg hne] at hst
  obtain ⟨x, xst, hx, hhas, hst⟩ := h d' st hst
  exact ⟨x, xst, by rw [hlatest, if_neg hne, hx], Board.has_dropDomain.2 ⟨hne, hhas⟩, hst⟩

/-- A reset makes active scans PENDING, and no others. -/
theorem LatestActive.reset {xs : List Id} (h : LatestActive b l)
    (hxs : ∀ x ∈ xs, ∃ d, b.Has x d .running) : LatestActive (b.reset xs) l := by
  intro d hd
  obtain ⟨x, hx, honly⟩ := h d hd
  refine ⟨x, hx, ?_⟩
  rintro y ⟨st, hst, hactive⟩
  rcases Board.has_reset.1 hst with ⟨hy, -, st₀, hst₀⟩ | ⟨-, hst⟩
  · obtain ⟨d', hrunning⟩ := hxs y hy
    obtain ⟨rfl, -⟩ := hst₀.unique hrunning
    exact honly y (hrunning.active trivial)
  · exact honly y (hst.active hactive)

end Judging

/-! ### What an operation keeps -/

namespace Operation

variable {cfg : Settings} {u : Unicode} {o : Operation} {a : Except Exn Response}
  {db db' : Database} {q q' : Trail}

/-- A domain that is not stored has no scans. -/
theorem not_hasActive_of_new {d : Id} (h : db.domains.get d = none) (y : Id) :
    ¬ (db.board q).HasActive y d := by
  rintro ⟨st, hst, -⟩
  obtain ⟨row, hrow, rfl, -⟩ := Database.has_board.1 hst
  obtain ⟨domain, hdomain⟩ := Database.exists_domain hrow
  rw [h] at hdomain
  exact absurd hdomain (by simp)

theorem latestActive_settled {x d : Id} {st : ScanStatus} {rs : List (AssetType × String)}
    (hb : LatestActive (db.board q) db.ledger) (hx : (db.board q).HasActive x d)
    (h : Settled db x d st rs db') : LatestActive (db'.board q) db'.ledger := by
  rw [h.board, h.ledger]
  exact hb.settle hx

theorem latestMirrored_settled {x d : Id} {st : ScanStatus} {rs : List (AssetType × String)}
    (hm : LatestMirrored (db.board q) db.ledger) (hb : LatestActive (db.board q) db.ledger)
    (hx : (db.board q).HasActive x d) (h : Settled db x d st rs db') :
    LatestMirrored (db'.board q) db'.ledger := by
  rw [h.board, h.ledger]
  exact hm.settle hb hx

/-- What a trigger inserts. -/
theorem latestActive_queued {x d : Id} (hb : LatestActive (db.board q) db.ledger)
    (hfree : ∀ y, ¬ (db.board q).HasActive y d) (h : Queued db x d db') :
    LatestActive (db'.board q) db'.ledger := by
  have hx := Database.board_scans_eq_none (q := q).2 h.free
  rw [h.board, h.ledger]
  split
  · exact hb.addScan db.ledger hx hfree rfl fun _ _ ↦ rfl
  · exact hb.addScan (db.ledger.setDomain d .pending) hx hfree rfl
      fun d' hd' ↦ by simp [Ledger.setDomain, hd']

/-- A domain without an active scan is not RUNNING, so a trigger makes it PENDING. -/
theorem latestMirrored_queued {x d : Id} (hm : LatestMirrored (db.board q) db.ledger)
    (hfree : ∀ y, ¬ (db.board q).HasActive y d) (h : Queued db x d db') :
    LatestMirrored (db'.board q) db'.ledger := by
  have hx := Database.board_scans_eq_none (q := q).2 h.free
  have hidle : db.ledger.domains d ≠ some .running := by
    intro hrunning
    obtain ⟨y, yst, -, hy, hst⟩ := hm d _ hrunning
    have hyst : yst = .running := by cases yst <;> first | rfl | exact absurd hst nofun
    exact hfree y (hy.active (by rw [hyst]; trivial))
  rw [h.board, h.ledger, if_neg hidle]
  refine hm.addScan (db.ledger.setDomain d .pending) hx (fun st hst ↦ ?_) rfl
    fun d' hd' ↦ by simp [Ledger.setDomain, hd']
  have hst : (∃ st₁, db.ledger.domains d = some st₁) ∧ .pending = st := by
    simpa [Ledger.setDomain] using hst
  exact hst.2.symm

/-- Every operation keeps `LatestActive`. -/
theorem Ends.latestActive (h : o.Ends cfg u a db q db' q')
    (hb : LatestActive (db.board q) db.ledger) : LatestActive (db'.board q') db'.ledger := by
  show LatestActive (db'.board q) db'.ledger
  cases o with
  | request r =>
    cases r with
    | create payload user =>
      change Created u true payload db q a db' q' at h
      generalize q'.queue = ms at h
      cases h with
      | invalid => exact hb
      | taken => exact hb
      | @created x d _ _ _ _ _ _ h =>
        rw [h.board, h.ledger]
        exact hb.addScan (db.ledger.addDomain d .pending)
          (Database.board_scans_eq_none.2 h.free) (not_hasActive_of_new h.new) rfl
          fun d' hd' ↦ if_neg hd'
      | unannounced hdown => exact absurd hdown (by simp)
    | trigger d user =>
      change Triggered true d db q a db' q' at h
      generalize q'.queue = ms at h
      cases h with
      | missing => exact hb
      | occupied => exact hb
      | accepted _ _ hfree h => exact latestActive_queued hb hfree h
      | unannounced hdown => exact absurd hdown (by simp)
    | delete d =>
      obtain ⟨h, -⟩ := h
      cases h with
      | missing => exact hb
      | deleted =>
        have hwrite : db.write 0 (.deleteDomain d) = .ok (db.deleteDomain d) := rfl
        rw [Database.board_deleteDomain hwrite]
        exact hb.dropDomain (Database.ledger_deleteDomain hwrite).1
          (Database.ledger_deleteDomain hwrite).2
    | recover =>
      obtain ⟨-, h⟩ := h
      rw [h.board, h.ledger]
      exact hb.reset fun x hx ↦ Database.mem_runningScans.1 hx
  | deliver m lookups =>
    have hdelivered := Processed.delivered h
    generalize q'.queue = ms at hdelivered
    cases hdelivered with
    | dropped => exact hb
    | deferred => exact hb
    | retried hx _ h => exact latestActive_settled hb hx h
    | unfit hx _ _ h => exact latestActive_settled hb hx h
    | completed hx _ h => exact latestActive_settled hb hx h
    | failed hx h => exact latestActive_settled hb hx h

/-- Every operation but a recovery that finds a scan RUNNING keeps `LatestMirrored`. -/
theorem Ends.latestMirrored (h : o.Ends cfg u a db q db' q')
    (hm : LatestMirrored (db.board q) db.ledger) (hb : LatestActive (db.board q) db.ledger)
    (hok : o = .request .recover → db.runningScans = []) :
    LatestMirrored (db'.board q') db'.ledger := by
  show LatestMirrored (db'.board q) db'.ledger
  cases o with
  | request r =>
    cases r with
    | create payload user =>
      change Created u true payload db q a db' q' at h
      generalize q'.queue = ms at h
      cases h with
      | invalid => exact hm
      | taken => exact hm
      -- the new domain has one scan, and both are PENDING
      | @created x d _ _ _ _ _ _ h =>
        rw [h.board, h.ledger]
        refine hm.addScan (db.ledger.addDomain d .pending)
          (Database.board_scans_eq_none.2 h.free) (fun st hst ↦ ?_) rfl fun d' hd' ↦ if_neg hd'
        exact (by simpa [Ledger.addDomain] using hst : DomainStatus.pending = st).symm
      | unannounced hdown => exact absurd hdown (by simp)
    | trigger d user =>
      change Triggered true d db q a db' q' at h
      generalize q'.queue = ms at h
      cases h with
      | missing => exact hm
      | occupied => exact hm
      | accepted _ _ hfree h => exact latestMirrored_queued hm hfree h
      | unannounced hdown => exact absurd hdown (by simp)
    | delete d =>
      obtain ⟨h, -⟩ := h
      cases h with
      | missing => exact hm
      | deleted =>
        have hwrite : db.write 0 (.deleteDomain d) = .ok (db.deleteDomain d) := rfl
        rw [Database.board_deleteDomain hwrite]
        exact hm.dropDomain (Database.ledger_deleteDomain hwrite).1
          (Database.ledger_deleteDomain hwrite).2
    -- a recovery that resets a scan is excluded by `hok`
    | recover =>
      obtain ⟨-, h⟩ := h
      rw [h.board, h.ledger, hok rfl, List.map_nil, Board.reset_nil]
      exact hm
  | deliver m lookups =>
    have hdelivered := Processed.delivered h
    generalize q'.queue = ms at hdelivered
    cases hdelivered with
    | dropped => exact hm
    | deferred => exact hm
    | retried hx _ h => exact latestMirrored_settled hm hb hx h
    | unfit hx _ _ h => exact latestMirrored_settled hm hb hx h
    | completed hx _ h => exact latestMirrored_settled hm hb hx h
    | failed hx h => exact latestMirrored_settled hm hb hx h

/-- A recovery that finds a scan RUNNING in a domain that mirrors it leaves the domain RUNNING and
the scan PENDING. -/
theorem Ends.not_mirrors (h : (request .recover).Ends cfg u a db q db' q')
    (hm : Mirrors (db.board q) db.ledger) (hrunning : db.runningScans ≠ []) :
    ¬ Mirrors (db'.board q') db'.ledger := by
  obtain ⟨-, h⟩ := h
  obtain ⟨row, hrow⟩ := List.exists_mem_of_ne_nil _ hrunning
  have hmem : row.id ∈ db.runningScans.map Scan.id := List.mem_map_of_mem hrow
  obtain ⟨d, hx⟩ := (Database.mem_runningScans (q := q)).1 hmem
  obtain ⟨row', hrow', rfl, -⟩ := Database.has_board.1 hx
  obtain ⟨domain, hdomain⟩ := Database.exists_domain hrow'
  have hst := Database.ledger_domains_of_get hdomain
  have hbefore := (hm _ _ hst).1 row.id .running hx trivial
  intro hm'
  have hx' : (db'.board q').Has row.id row'.domainId .pending := by
    rw [h.board]
    exact Board.has_reset.2 (Or.inl ⟨hmem, rfl, _, hx⟩)
  have hafter := (hm' _ _ (by rw [h.ledger, hst])).1 row.id .pending hx' trivial
  rw [hbefore] at hafter
  exact absurd hafter nofun

end Operation

/-! ### Histories -/

/-- A history of `n` complete operations, one after another, from a new deployment on: `o k` leads
from `s k` to `s (k + 1)`. -/
structure SerialRun (cfg : Settings) (u : Unicode) (s : ℕ → Store) (o : ℕ → Operation) (n : ℕ) :
    Prop where
  start : s 0 = .empty
  step : ∀ k < n, (o k).Leads cfg u (s k) (s (k + 1))

namespace SerialRun

variable {cfg : Settings} {u : Unicode} {s : ℕ → Store} {o : ℕ → Operation} {n : ℕ}

/-- In every state of a history only the latest scan of a domain can be active. -/
theorem latestActive (h : SerialRun cfg u s o n) {k : ℕ} (hk : k ≤ n) :
    (s k).Free ∧ LatestActive (s k).board (s k).db.ledger := by
  induction k with
  | zero =>
    rw [h.start]
    exact ⟨Store.free_empty, fun d hd ↦ absurd rfl hd⟩
  | succ k ih =>
    obtain ⟨hs, hb⟩ := ih (by omega)
    obtain ⟨hs', a, q', hq', hends⟩ := (h.step k (by omega)).ends hs
    refine ⟨hs', ?_⟩
    rw [Store.board, ← hq']
    exact hends.latestActive hb

/-- **In every state of a history the status of every domain mirrors its scans** if and only if no
recovery of the history finds a scan RUNNING. -/
theorem mirrors_iff (h : SerialRun cfg u s o n) :
    (∀ k ≤ n, Mirrors (s k).board (s k).db.ledger) ↔
      ∀ k < n, o k = .request .recover → (s k).db.runningScans = [] := by
  refine ⟨fun hm k hk hrecover ↦ ?_, fun hok k hk ↦ ?_⟩
  · by_contra hrunning
    have hends := ((h.step k hk).ends (h.latestActive hk.le).1).2
    rw [hrecover] at hends
    obtain ⟨a, q', hq', hends⟩ := hends
    have hafter := hm (k + 1) hk
    rw [Store.board, ← hq'] at hafter
    exact hends.not_mirrors (hm k hk.le) hrunning hafter
  · have hmirrored : LatestMirrored (s k).board (s k).db.ledger := by
      induction k with
      | zero =>
        rw [h.start]
        intro d st hst
        have hnone : Store.empty.db.ledger.domains d = none := rfl
        exact absurd (hst.symm.trans hnone) (by simp)
      | succ k ih =>
        obtain ⟨hs, hb⟩ := h.latestActive (by omega : k ≤ n)
        obtain ⟨-, a, q', hq', hends⟩ := (h.step k (by omega)).ends hs
        rw [Store.board, ← hq']
        exact hends.latestMirrored (ih (by omega)) hb (hok k (by omega))
    exact hmirrored.mirrors (h.latestActive hk).2

/-! ### Two histories -/

/-- The states that a sequence of operations leads through, undisturbed. -/
def states (cfg : Settings) (u : Unicode) (o : ℕ → Operation) : ℕ → Store
  | 0 => .empty
  | k + 1 =>
    let s := states cfg u o k
    ((s.serveTo true (o k).lookups ((o k).code cfg u) fun _ ↦ {}).map fun p ↦ p.2.2).getD s

/-- The states of a sequence of operations are a history. -/
theorem of_states (h : ∀ k < n, ((states cfg u o k).serveTo true (o k).lookups ((o k).code cfg u)
    fun _ ↦ {}).isSome) : SerialRun cfg u (states cfg u o) o n := by
  refine ⟨rfl, fun k hk ↦ ?_⟩
  obtain ⟨⟨a, ω', s'⟩, hrun⟩ := Option.isSome_iff_exists.1 (h k hk)
  refine ⟨fun _ ↦ {}, a, ω', ?_⟩
  rw [hrun, states, hrun]
  rfl

/-- A domain is created, an API process starts, and the lookups of the first delivery time out. -/
def recoveryBeforeTimeout (k : ℕ) : Operation :=
  [.request (.create "a.b" 7), .request .recover,
    .deliver ⟨1, 0⟩ fun _ ↦ .timeout "LifetimeTimeout" ""].getD k (.request .recover)

/-- `mirrors_iff` for a recovery that finds no scan RUNNING. -/
theorem mirrors_iff_recoveryBeforeTimeout :
    let s := states {} .plain recoveryBeforeTimeout
    ∀ k ≤ 3, Mirrors (s k).board (s k).db.ledger := by
  have hrun : SerialRun {} .plain (states {} .plain recoveryBeforeTimeout) recoveryBeforeTimeout
      3 := of_states (by decide +kernel)
  have hidle : ∀ k < 3, (states {} .plain recoveryBeforeTimeout k).db.runningScans = [] := by
    decide +kernel
  exact (mirrors_iff hrun).2 fun k hk _ ↦ hidle k hk

/-- A domain is created, the lookups of its first delivery time out, and an API process starts. -/
def recoveryAfterTimeout (k : ℕ) : Operation :=
  [.request (.create "a.b" 7), .deliver ⟨1, 0⟩ fun _ ↦ .timeout "LifetimeTimeout" "",
    .request .recover].getD k (.request .recover)

/-- An API process that starts while a retry is queued resets the scan to PENDING and leaves the
domain RUNNING. -/
theorem not_mirrors :
    ¬ ∀ (s : ℕ → Store) (o : ℕ → Operation) (n : ℕ), SerialRun {} .plain s o n →
      ∀ k ≤ n, Mirrors (s k).board (s k).db.ledger := by
  intro h
  have hrun : SerialRun {} .plain (states {} .plain recoveryAfterTimeout) recoveryAfterTimeout 3 :=
    of_states (by decide +kernel)
  have hmirrors := h _ _ 3 hrun 3 le_rfl
  have hdomain : (states {} .plain recoveryAfterTimeout 3).db.ledger.domains 0 = some .running := by
    decide +kernel
  have hscan : (states {} .plain recoveryAfterTimeout 3).board.scans 1 = some (0, .pending) := by
    decide +kernel
  exact absurd ((hmirrors 0 .running hdomain).1 1 .pending hscan trivial) nofun

end SerialRun

end AssetDiscovery
