import AssetDiscovery.Draining
import AssetDiscovery.Redelivery

/-!
# Retries

A delivery whose lookups meet a DNS error publishes the scan once more, `scan_max_retries` times at
most. `RetryChain` follows one scan through the attempts that come of its message, while anything
may go on at other domains between them (`Untouched`).

`Awaits` is what holds before every attempt, and `Outcome` lists what one attempt can come to
(`Awaits.attempt`). The bound on the attempts is that of `lastAttempt`. `asDocumented_iff` says when
the whole chain ends as it should: unless an earlier crash has left assets of the scan behind.
-/

set_option autoImplicit false

namespace AssetDiscovery

open Effect

/-! ### Bounded repetition -/

/-- The last of at most `limit + 1` attempts, of which another one follows while `again` holds. -/
def lastAttempt (again : ℕ → Bool) : ℕ → ℕ
  | 0 => 0
  | limit + 1 => if again 0 then lastAttempt (fun k ↦ again (k + 1)) limit + 1 else 0

section LastAttempt

variable {again : ℕ → Bool} {limit k i : ℕ}

/-- There are no more attempts than the limit allows. -/
theorem lastAttempt_le (again : ℕ → Bool) (limit : ℕ) : lastAttempt again limit ≤ limit := by
  induction limit generalizing again with
  | zero => exact le_rfl
  | succ limit ih =>
    rw [lastAttempt]
    split
    · exact Nat.succ_le_succ (ih _)
    · exact Nat.zero_le _

/-- Each attempt before the last one asks for another. -/
theorem again_of_lt (hk : k < lastAttempt again limit) : again k = true := by
  induction limit generalizing again k with
  | zero => exact absurd hk (Nat.not_lt_zero k)
  | succ limit ih =>
    rw [lastAttempt] at hk
    split at hk
    · next hagain =>
      cases k with
      | zero => exact hagain
      | succ k => exact @ih (fun k ↦ again (k + 1)) k (Nat.lt_of_succ_lt_succ hk)
    · exact absurd hk (Nat.not_lt_zero k)

/-- If attempts are left, the last one is not followed by another for its own sake. -/
theorem not_again_last (h : lastAttempt again limit < limit) :
    again (lastAttempt again limit) = false := by
  induction limit generalizing again with
  | zero => exact absurd h (Nat.not_lt_zero _)
  | succ limit ih =>
    rw [lastAttempt] at h ⊢
    split at h
    · next hagain =>
      rw [if_pos hagain]
      exact @ih (fun k ↦ again (k + 1)) (Nat.lt_of_succ_lt_succ h)
    · next hagain =>
      rw [if_neg hagain]
      exact Bool.eq_false_iff.2 hagain

/-- If `i` is the first attempt that is not followed by another, it is the last one, unless the
limit comes first. -/
theorem lastAttempt_eq_min (h : ∀ k < i, again k = true) (hi : again i = false) :
    lastAttempt again limit = min i limit := by
  have hle : lastAttempt again limit ≤ i := by
    by_contra hlt
    rw [again_of_lt (Nat.lt_of_not_le hlt)] at hi
    exact absurd hi (by simp)
  rcases (lastAttempt_le again limit).lt_or_eq with hlt | heq
  · have hlast := not_again_last hlt
    have hge : i ≤ lastAttempt again limit := by
      by_contra hlt'
      rw [h _ (Nat.lt_of_not_le hlt')] at hlast
      exact absurd hlast (by simp)
    omega
  · omega

end LastAttempt

/-! ### The chain of attempts -/

/-- What one call of `resolve_domain_records` returns or raises. -/
abbrev Resolution := Except Exn (List (AssetType × String))

namespace Resolution

/-- It raises an error after which another attempt may follow. -/
def IsRetryable : Resolution → Prop
  | .ok _ => False
  | .error e => e.IsRetryable

instance : DecidablePred IsRetryable := fun r ↦ by
  cases r <;> (unfold IsRetryable; infer_instance)

/-- The status of a scan that ends with it. -/
def scanStatus : Resolution → ScanStatus
  | .ok _ => .completed
  | .error _ => .failed

/-- The error message of a scan that ends with it. -/
def errorMessage : Resolution → Option String
  | .ok _ => none
  | .error e => some e.message

/-- The records that a scan that ends with it stores. -/
def records : Resolution → List (AssetType × String)
  | .ok rs => rs
  | .error _ => []

end Resolution

/-- What surrounds the attempts at a scan: what the resolver answers and what the environment
decides during attempt `k`, and what happens elsewhere after it. -/
structure RetryChain where
  lookups : ℕ → AssetType → Lookup
  env : ℕ → ℕ → Env
  elsewhere : ℕ → Store → Store

namespace RetryChain

variable (c : RetryChain) (cfg : Settings) (x : Id) (s : Store)

/-- Attempt `k`: the message with `k` retries is processed in state `t`. -/
def attempt (k : ℕ) (t : Store) : Option Store :=
  (t.serveTo true (c.lookups k) (runDiscoveryScan cfg ⟨x, k⟩) (c.env k)).map fun p ↦ p.2.2

/-- The state in which attempt `k` begins: the first one begins in `s`, any other takes place if
the one before has published its message. -/
def before : ℕ → Option Store
  | 0 => some s
  | k + 1 => (before k).bind fun t ↦ (c.attempt cfg x k t).bind fun t' ↦
      if ⟨x, k + 1⟩ ∈ t'.queue.drop t.queue.length then some (c.elsewhere k t') else none

/-- The state in which attempt `k` ends. -/
def after (k : ℕ) : Option Store :=
  (c.before cfg x s k).bind (c.attempt cfg x k)

/-- How often the first `n` attempts ask the resolver. -/
def resolutions (n : ℕ) : ℕ :=
  ((List.range n).map fun k ↦ ((c.before cfg x s k).map fun t ↦
    t.resolutions true (c.lookups k) (runDiscoveryScan cfg ⟨x, k⟩) (c.env k)).getD 0).sum

/-- The last attempt: `min i scan_max_retries` for the first attempt `i` that does not end with a
retryable error. -/
def last : ℕ :=
  lastAttempt (fun k ↦ Resolution.IsRetryable (answers (c.lookups k))) cfg.scanMaxRetries

end RetryChain

/-- No transaction is left open, and the scans of domain `d` and their assets are as before. -/
structure Untouched (d : Id) (t t' : Store) : Prop where
  free : t.Free → t'.Free
  scans : ∀ row, row.domainId = d → (row ∈ t'.db.scans ↔ row ∈ t.db.scans)
  assets : ∀ row ∈ t.db.scans, row.domainId = d → t'.db.assetsOf row.id = t.db.assetsOf row.id

/-- The PENDING scans of domain `d` other than `x`. -/
def Database.othersPending (db : Database) (x d : Id) : List Scan :=
  (db.scansOf d).filter fun row ↦ row.status = .pending ∧ row.id ≠ x

/-- The messages that pass the domain on to the oldest other PENDING scan, if there is one. -/
inductive Hands (db : Database) (x d : Id) : List Message → Prop
  | nothing (h : db.othersPending x d = []) : Hands db x d []
  | oldest {row : Scan} (hrow : row ∈ db.othersPending x d)
      (holdest : ∀ row' ∈ db.othersPending x d, row.createdAt ≤ row'.createdAt) :
    Hands db x d [⟨row.id, 0⟩]

/-- Scan `x` of domain `d` has ended with `r`, the domain has the same status, and the assets of the
scan are `rs`. -/
structure Ended (x d : Id) (r : Resolution) (rs : List (AssetType × String)) (db : Database) :
    Prop where
  scan : ∃ row, db.scans.get x = some row ∧ row.domainId = d ∧ row.status = r.scanStatus ∧
    row.errorMessage = r.errorMessage
  assets : (db.assetsOf x).map Database.recordOf = rs
  domain : (db.domains.get d).map Domain.status = some r.scanStatus.toDomainStatus

/-- The chain of attempts at scan `x` of domain `d` that begins in `s` ends as documented. -/
structure RetryChain.AsDocumented (c : RetryChain) (cfg : Settings) (x d : Id) (s : Store) :
    Prop where
  /-- Each attempt asks the resolver once, and there is none after the last one. -/
  resolutions : ∀ n > c.last cfg, c.resolutions cfg x s n = c.last cfg + 1
  /-- Each attempt before the last one publishes the next one and nothing else, and the scan is
  RUNNING until then. -/
  retried : ∀ k < c.last cfg, ∃ t t', c.before cfg x s k = some t ∧ c.after cfg x s k = some t' ∧
    t'.board.Has x d .running ∧ t'.queue = t.queue ++ [⟨x, k + 1⟩] ∧
    c.before cfg x s (k + 1) = some (c.elsewhere k t') ∧
    (c.elsewhere k t').board.Has x d .running
  /-- The last attempt ends the scan, and passes the domain on. -/
  ended : ∃ t t' ms, c.before cfg x s (c.last cfg) = some t ∧
    c.after cfg x s (c.last cfg) = some t' ∧
    Ended x d (answers (c.lookups (c.last cfg)))
      (Resolution.records (answers (c.lookups (c.last cfg)))) t'.db ∧
    Hands s.db x d ms ∧ t'.queue = t.queue ++ ms

/-! ### One attempt -/

section Settle

variable {db db' : Database} {x d : Id} {p : ScanPatch} {st : DomainStatus}

/-- A scan other than the settled one keeps its row. -/
theorem Database.mem_scans_settle {row : Scan} (hne : row.id ≠ x) :
    row ∈ (db.settle x d p st).scans ↔ row ∈ db.scans := by
  have hget : (db.settle x d p st).scans.get row.id = db.scans.get row.id := by
    rw [Database.scans_get_settle, if_neg hne]
  constructor
  · intro h
    exact Table.mem_of_get (hget.symm.trans (Table.get_key h))
  · intro h
    exact Table.mem_of_get (hget.trans (Table.get_key h))

/-- A scan and its domain end together. -/
theorem ended_settle {row : Scan} {r : Resolution} (hx : db.scans.get x = some row)
    (hst : p.status = some r.scanStatus) (herror : p.errorMessage = some r.errorMessage) :
    Ended x row.domainId r ((db.assetsOf x).map Database.recordOf)
      (db.settle x row.domainId p r.scanStatus.toDomainStatus) where
  scan := by
    refine ⟨p.apply row, Database.scans_get_settle_self hx, rfl, ?_, ?_⟩
    · rw [ScanPatch.apply_status, hst]
      rfl
    · simp [ScanPatch.apply, herror]
  assets := rfl
  domain := by
    obtain ⟨domain, hd⟩ := Database.exists_domain hx
    rw [Database.domains_get_settle_self hd]
    rfl

/-- A scan that has ended is not PENDING. -/
theorem Ended.not_pending {r : Resolution} {rs : List (AssetType × String)}
    (h : Ended x d r rs db) {row : Scan} (hx : db.scans.get x = some row) :
    row.status ≠ .pending := by
  obtain ⟨row', hx', -, hst, -⟩ := h.scan
  rw [hx'] at hx
  rw [← Option.some.inj hx, hst]
  cases r <;> simp [Resolution.scanStatus]

/-- What `_enqueue_next_pending_for_domain` publishes once scan `x` has ended. -/
theorem hands_next (hothers : ∀ row, row.domainId = d → row.id ≠ x →
      (row ∈ db'.scans ↔ row ∈ db.scans))
    (hx : ∀ {row}, db'.scans.get x = some row → row.status ≠ .pending) (pick : ℕ) :
    Hands db x d (db'.next d pick) := by
  -- the pending scans that the tail sees: `x` itself has ended, the others are as they were
  have hmem : ∀ row, row ∈ db.othersPending x d ↔
      row ∈ db'.scans ∧ row.domainId = d ∧ row.status = .pending := by
    intro row
    simp only [Database.othersPending, Database.scansOf, List.mem_filter, Table.mem_rows,
      decide_eq_true_eq]
    constructor
    · rintro ⟨⟨hrow, hd⟩, hst, hne⟩
      exact ⟨(hothers row hd hne).2 hrow, hd, hst⟩
    · rintro ⟨hrow, hd, hst⟩
      have hne : row.id ≠ x := by
        rintro rfl
        exact hx (Table.get_key hrow) hst
      exact ⟨⟨(hothers row hd hne).1 hrow, hd⟩, hst, hne⟩
  cases hnext : db'.nextPending d pick with
  | none =>
    rw [Database.next, hnext]
    refine .nothing (List.eq_nil_iff_forall_not_mem.2 fun row hrow ↦ ?_)
    obtain ⟨hrow, hd, hst⟩ := (hmem row).1 hrow
    exact Database.not_has_of_nextPending (q := []) hnext row.id
      (Database.has_board.2 ⟨row, Table.get_key hrow, hd, hst⟩)
  -- the oldest is published; which one among equals is the database's choice
  | some y =>
    rw [Database.next, hnext]
    obtain ⟨row, hrow, rfl⟩ := Option.map_eq_some_iff.1 hnext
    have holdest := List.mem_of_getElem? hrow
    refine .oldest ((hmem row).2 (Database.mem_oldestPending holdest)) fun row' hrow' ↦ ?_
    obtain ⟨hrow', hd, hst⟩ := (hmem row').1 hrow'
    exact Database.le_of_mem_oldestPending holdest hrow' hd hst

end Settle

/-- In `t` an attempt at scan `x` of domain `d` is taken up, and on the domain everything is as in
`s` but for the status of the scan. -/
structure Awaits (s : Store) (x d : Id) (t : Store) : Prop where
  free : t.Free
  row : ∃ row, t.db.scans.get x = some row ∧ row.domainId = d ∧ row.status.IsActive ∧
    (row.status = .running ∨ t.db.runningScan d = none)
  assets : t.db.assetsOf x = s.db.assetsOf x
  others : ∀ row, row.domainId = d → row.id ≠ x → (row ∈ t.db.scans ↔ row ∈ s.db.scans)

/-- What attempt `k` leads to, from `t` to `t'`. -/
inductive Outcome (cfg : Settings) (lookups : AssetType → Lookup) (s : Store) (x d : Id) (k : ℕ)
    (t t' : Store) : Prop
  /-- The next attempt is published. -/
  | retried (hretry : Resolution.IsRetryable (answers lookups)) (hk : k < cfg.scanMaxRetries)
      (hrunning : t'.board.Has x d .running) (hawaits : Awaits s x d t')
      (hq : t'.queue = t.queue ++ [⟨x, k + 1⟩])
  /-- A record does not fit its column, and the scan stays RUNNING. -/
  | unfit {rs : List (AssetType × String)} (hrs : answers lookups = .ok rs) (hfits : ¬ Fits rs)
      (hrunning : t'.board.Has x d .running) (hq : t'.queue = t.queue)
  | ended {ms : List Message}
      (hlast : Resolution.IsRetryable (answers lookups) → cfg.scanMaxRetries ≤ k)
      (hended : Ended x d (answers lookups) ((s.db.assetsOf x).map Database.recordOf ++
        Resolution.records (answers lookups)) t'.db)
      (hms : Hands s.db x d ms) (hq : t'.queue = t.queue ++ ms)

section Attempt

variable {cfg : Settings} {s t t' : Store} {x d : Id}

/-- A delivery to a scan that is taken up asks the resolver once, and is one of the outcomes. -/
theorem Awaits.outcome {lookups : AssetType → Lookup} {k : ℕ} {q' : Trail}
    (h : Awaits s x d t) (hp : Processed cfg lookups ⟨x, k⟩ t.db t.trail t'.db q')
    (hfree : t'.Free) (hqueue : q'.queue = t'.queue) :
    q'.resolutions = 1 ∧ Outcome cfg lookups s x d k t t' := by
  obtain ⟨row, hx, rfl, hactive, hguard⟩ := h.row
  have hsame : ∀ {row'}, t.db.scans.get x = some row' → row = row' :=
    fun hx' ↦ Option.some.inj (hx.symm.trans hx')
  have hqueued : ∀ {ms n}, t.trail.After ms n q' → t'.queue = t.queue ++ ms :=
    fun hq ↦ hqueue.symm.trans hq.queue
  have hasked : ∀ {ms}, t.trail.After ms 1 q' → q'.resolutions = 1 :=
    fun hq ↦ hq.resolutions.trans (Nat.zero_add 1)
  generalize hdb : t'.db = db' at hp
  -- while the scan is RUNNING
  have hrunning : ∀ {time}, t'.db = t.db.settle x row.domainId (.running time) .running →
      t'.board.Has x row.domainId .running := by
    intro time hdb
    rw [Store.board, hdb]
    exact Database.has_board_of_get (Database.scans_get_settle_self hx)
  cases hp with
  | dropped hdone => exact absurd hactive (hdone row hx)
  | deferred hx' hst hy =>
    obtain rfl := hsame hx'
    rcases hguard with hrunning | hnone
    · rw [hst] at hrunning
      exact absurd hrunning (by simp)
    · rw [hnone] at hy
      exact absurd hy (by simp)
  | retried hx' _ _ he hretry hr hq =>
    obtain rfl := hsame hx'
    refine ⟨hasked hq, .retried (by rw [he]; exact hretry) hr (hrunning hdb) ⟨hfree, ?_, ?_, ?_⟩
      (hqueued hq)⟩
    · obtain ⟨row', hrow', hd, hst⟩ := Database.has_board.1 (hrunning hdb)
      exact ⟨row', hrow', hd, by rw [hst]; trivial, Or.inl hst⟩
    · rw [hdb]
      exact h.assets
    · intro row' hd hne
      rw [hdb, Database.mem_scans_settle hne]
      exact h.others row' hd hne
  | unfit hx' _ _ hrs hfits hq =>
    obtain rfl := hsame hx'
    exact ⟨hasked hq, .unfit hrs hfits (hrunning hdb) ((hqueued hq).trans (List.append_nil _))⟩
  | @completed _ time time' rs db₁ _ pick _ hx' _ _ _ hrs _ hstored hdb' hq =>
    obtain rfl := hsame hx'
    have hx₁ : db₁.scans.get x = some ((ScanPatch.running time).apply row) := by
      rw [hstored.scans]
      exact Database.scans_get_settle_self hx
    have hrecords : (db₁.assetsOf x).map Database.recordOf =
        (s.db.assetsOf x).map Database.recordOf ++ rs := by
      rw [← h.assets]
      show db₁.ledger.records x = _
      rw [hstored.filled.ledger, Ledger.addRecords_records_self]
      rfl
    have hended := ended_settle (r := .ok rs) (p := .completed time') hx₁ rfl rfl
    rw [hrecords] at hended
    refine ⟨hasked hq, .ended (fun hretry ↦ ?_) ?_ (hands_next (fun row' hd hne ↦ ?_) ?_ pick)
      (hqueued hq)⟩
    · rw [hrs] at hretry
      exact hretry.elim
    · rw [hrs, hdb, hdb']
      exact hended
    · rw [hdb', Database.mem_scans_settle hne, hstored.scans, Database.mem_scans_settle hne]
      exact h.others row' hd hne
    · rw [hdb']
      exact hended.not_pending
  | @failed _ time time' e _ pick _ hx' _ _ _ he hfinal hdb' hq =>
    obtain rfl := hsame hx'
    have hx₁ : (t.db.settle x row.domainId (.running time) .running).scans.get x =
        some ((ScanPatch.running time).apply row) := Database.scans_get_settle_self hx
    have hended := ended_settle (r := .error e) (p := .failed time' e.message) hx₁ rfl rfl
    refine ⟨hasked hq, .ended (fun hretry ↦ ?_) ?_ (hands_next (fun row' hd hne ↦ ?_) ?_ pick)
      (hqueued hq)⟩
    · rw [he] at hretry
      exact hfinal hretry
    · rw [he, hdb, hdb', ← h.assets, Resolution.records, List.append_nil]
      exact hended
    · rw [hdb', Database.mem_scans_settle hne, Database.mem_scans_settle hne]
      exact h.others row' hd hne
    · rw [hdb']
      exact hended.not_pending

/-- What happens elsewhere leaves the scan as it is. -/
theorem Awaits.elsewhere (h : Awaits s x d t) (h' : Untouched d t t')
    (hrunning : t.board.Has x d .running) : Awaits s x d t' ∧ t'.board.Has x d .running := by
  obtain ⟨row, hx, hd, hst⟩ := Database.has_board.1 hrunning
  have hid : row.id = x := Table.key_of_get hx
  have hmem := (h'.scans row hd).2 (Table.mem_of_get hx)
  have hx' : t'.db.scans.get x = some row := hid ▸ Table.get_key hmem
  refine ⟨⟨h'.free h.free, ⟨row, hx', hd, by rw [hst]; trivial, Or.inl hst⟩, ?_, ?_⟩, ?_⟩
  · rw [← h.assets, ← hid]
    exact h'.assets row (Table.mem_of_get hx) hd
  · intro row' hd' hne
    exact (h'.scans row' hd').trans (h.others row' hd' hne)
  · exact Database.has_board.2 ⟨row, hx', hd, hst⟩

end Attempt

/-! ### The whole chain -/

namespace RetryChain

variable {c : RetryChain} {cfg : Settings} {x d : Id} {s t : Store} {k : ℕ}

/-- No more retries are published than `scan_max_retries`. -/
theorem last_le : c.last cfg ≤ cfg.scanMaxRetries :=
  lastAttempt_le _ _

/-- Each attempt before the last one fails with a retryable error. -/
theorem retryable_of_lt (hk : k < c.last cfg) : Resolution.IsRetryable (answers (c.lookups k)) :=
  of_decide_eq_true (again_of_lt hk)

/-- If the retries are not used up, the last attempt does not fail with one. -/
theorem not_retryable_last (h : c.last cfg < cfg.scanMaxRetries) :
    ¬ Resolution.IsRetryable (answers (c.lookups (c.last cfg))) :=
  of_decide_eq_false (not_again_last h)

/-- With `i` the first attempt that does not end with a retryable error, the last one is
`min i scan_max_retries`. -/
theorem last_eq_min {i : ℕ} (h : ∀ k < i, Resolution.IsRetryable (answers (c.lookups k)))
    (hi : ¬ Resolution.IsRetryable (answers (c.lookups i))) :
    c.last cfg = min i cfg.scanMaxRetries :=
  lastAttempt_eq_min (fun k hk ↦ decide_eq_true (h k hk)) (decide_eq_false hi)

/-- An attempt that is awaited takes place. -/
theorem exists_attempt (c : RetryChain) (cfg : Settings) (h : Awaits s x d t) (k : ℕ) :
    ∃ t', c.attempt cfg x k t = some t' ∧
      t.resolutions true (c.lookups k) (runDiscoveryScan cfg ⟨x, k⟩) (c.env k) = 1 ∧
      Outcome cfg (c.lookups k) s x d k t t' := by
  have halone : Py.Alone { lookups := some (c.lookups k) }
      (fun _ _ db' q' ↦ Processed cfg (c.lookups k) ⟨x, k⟩ t.db t.trail db' q')
      (runDiscoveryScan cfg ⟨x, k⟩) .new t.db t.trail :=
    Py.alone_runDiscoveryScan rfl rfl fun _ _ ↦ trivial
  obtain ⟨a, ω', t', σ, q', hrun, hfree, hqueue, hn, hprocessed⟩ :=
    halone.serveTo h.free trivial (c.env k)
  obtain ⟨hone, houtcome⟩ := h.outcome hprocessed hfree hqueue
  refine ⟨t', ?_, hn.symm.trans hone, houtcome⟩
  rw [attempt, hrun]
  rfl

/-- An attempt before the last one is tried again. -/
theorem exists_retried (h : Awaits s x d t) (hk : k < c.last cfg) :
    ∃ t', c.attempt cfg x k t = some t' ∧ t'.board.Has x d .running ∧ Awaits s x d t' ∧
      t'.queue = t.queue ++ [⟨x, k + 1⟩] := by
  have hretryable := retryable_of_lt hk
  obtain ⟨t', hrun, -, houtcome⟩ := exists_attempt c cfg h k
  cases houtcome with
  | retried _ _ hrunning hawaits hq => exact ⟨t', hrun, hrunning, hawaits, hq⟩
  | unfit hrs =>
    rw [hrs] at hretryable
    exact hretryable.elim
  | ended hlast => exact absurd (hlast hretryable) (Nat.not_le.2 (hk.trans_le last_le))

/-- The next attempt begins when the retry has been published. -/
theorem before_succ {t' : Store} (hbefore : c.before cfg x s k = some t)
    (hrun : c.attempt cfg x k t = some t') : c.before cfg x s (k + 1) =
      if ⟨x, k + 1⟩ ∈ t'.queue.drop t.queue.length then some (c.elsewhere k t') else none := by
  rw [before, hbefore, Option.bind_some, hrun, Option.bind_some]

theorem after_eq (hbefore : c.before cfg x s k = some t) :
    c.after cfg x s k = c.attempt cfg x k t := by
  rw [after, hbefore, Option.bind_some]

section Chain

variable (hs : Awaits s x d s) (helsewhere : ∀ k t, Untouched d t (c.elsewhere k t))
include hs helsewhere

/-- Every attempt up to the last one takes place. -/
theorem exists_before (hk : k ≤ c.last cfg) :
    ∃ t, c.before cfg x s k = some t ∧ Awaits s x d t := by
  induction k with
  | zero => exact ⟨s, rfl, hs⟩
  | succ k ih =>
    obtain ⟨t, hbefore, hawaits⟩ := ih (by omega)
    obtain ⟨t', hrun, hrunning, hawaits', hq⟩ := exists_retried hawaits hk
    refine ⟨c.elsewhere k t', ?_, (hawaits'.elsewhere (helsewhere k t') hrunning).1⟩
    rw [before_succ hbefore hrun, hq, List.drop_left]
    simp

/-- There is no attempt after the last one. -/
theorem before_eq_none (hk : c.last cfg < k) : c.before cfg x s k = none := by
  induction k with
  | zero => exact absurd hk (Nat.not_lt_zero _)
  | succ k ih =>
    rcases (Nat.le_of_lt_succ hk).lt_or_eq with hlt | rfl
    · rw [before, ih hlt, Option.bind_none]
    · obtain ⟨t, hbefore, hawaits⟩ := exists_before hs helsewhere (le_refl (c.last cfg))
      obtain ⟨t', hrun, -, houtcome⟩ := exists_attempt c cfg hawaits (c.last cfg)
      have hnone : ⟨x, c.last cfg + 1⟩ ∉ t'.queue.drop t.queue.length := by
        cases houtcome with
        | retried hretry hlt => exact absurd hretry (not_retryable_last hlt)
        | unfit _ _ _ hq => simp [hq]
        | ended _ _ hms hq =>
          rw [hq, List.drop_left]
          cases hms <;> simp
      rw [before_succ hbefore hrun, if_neg hnone]

/-- Each attempt that takes place asks the resolver once. -/
theorem resolutions_eq (n : ℕ) : c.resolutions cfg x s n = min n (c.last cfg + 1) := by
  induction n with
  | zero => simp [resolutions]
  | succ n ih =>
    have hsucc : c.resolutions cfg x s (n + 1) = c.resolutions cfg x s n +
        ((c.before cfg x s n).map fun t ↦ t.resolutions true (c.lookups n)
          (runDiscoveryScan cfg ⟨x, n⟩) (c.env n)).getD 0 := by
      simp [resolutions, List.range_succ]
    rw [hsucc, ih]
    rcases Nat.lt_or_ge (c.last cfg) n with hlt | hle
    · rw [before_eq_none hs helsewhere hlt]
      simp only [Option.map_none, Option.getD_none]
      omega
    · obtain ⟨t, hbefore, hawaits⟩ := exists_before hs helsewhere hle
      obtain ⟨-, -, hone, -⟩ := exists_attempt c cfg hawaits n
      simp only [hbefore, Option.map_some, Option.getD_some, hone]
      omega

/-- The last attempt, if its records fit. -/
theorem exists_ended (cfg : Settings) (hstorable : ∀ k, Storable (c.lookups k)) :
    ∃ t t' ms, c.before cfg x s (c.last cfg) = some t ∧
      c.after cfg x s (c.last cfg) = some t' ∧
      Ended x d (answers (c.lookups (c.last cfg))) ((s.db.assetsOf x).map Database.recordOf ++
        Resolution.records (answers (c.lookups (c.last cfg)))) t'.db ∧
      Hands s.db x d ms ∧ t'.queue = t.queue ++ ms := by
  obtain ⟨t, hbefore, hawaits⟩ := exists_before hs helsewhere (le_refl (c.last cfg))
  obtain ⟨t', hrun, -, houtcome⟩ := exists_attempt c cfg hawaits (c.last cfg)
  cases houtcome with
  | retried hretry hlt => exact absurd hretry (not_retryable_last hlt)
  | unfit hrs hfits => exact absurd (hstorable _ _ hrs) hfits
  | ended _ hended hms hq =>
    exact ⟨t, t', _, hbefore, (after_eq hbefore).trans hrun, hended, hms, hq⟩

end Chain

/-- **The chain of attempts ends as documented** if and only if no asset of the scan is stored when
it begins. -/
theorem asDocumented_iff {row : Scan} (hs : s.Free) (hx : s.db.scans.get x = some row)
    (hpending : row.status = .pending) (hidle : s.db.runningScan row.domainId = none)
    (helsewhere : ∀ k t, Untouched row.domainId t (c.elsewhere k t))
    (hstorable : ∀ k, Storable (c.lookups k)) :
    c.AsDocumented cfg x row.domainId s ↔ s.db.assetsOf x = [] := by
  have hawaits : Awaits s x row.domainId s :=
    ⟨hs, ⟨row, hx, rfl, by rw [hpending]; trivial, Or.inr hidle⟩, rfl, fun _ _ _ ↦ Iff.rfl⟩
  obtain ⟨t, t', ms, hbefore, hafter, hended, hms, hq⟩ :=
    exists_ended hawaits helsewhere cfg hstorable
  constructor
  -- the records are stored whatever was there before, so both lists agree only without it
  · intro h
    obtain ⟨t₁, t₁', ms₁, -, hafter₁, hended₁, -⟩ := h.ended
    obtain rfl : t' = t₁' := Option.some.inj (hafter.symm.trans hafter₁)
    have hassets := hended.assets.symm.trans hended₁.assets
    rwa [List.append_left_eq_self, List.map_eq_nil_iff] at hassets
  -- each attempt but the last one ends with a retry, and the last one settles the scan
  · intro hnone
    rw [hnone, List.map_nil, List.nil_append] at hended
    refine ⟨fun n hn ↦ ?_, fun k hk ↦ ?_, t, t', ms, hbefore, hafter, hended, hms, hq⟩
    · rw [resolutions_eq hawaits helsewhere]
      omega
    · obtain ⟨t, hbefore, hawaits'⟩ := exists_before hawaits helsewhere hk.le
      obtain ⟨t', hrun, hrunning, hawaits'', hq⟩ := exists_retried hawaits' hk
      refine ⟨t, t', hbefore, (after_eq hbefore).trans hrun, hrunning, hq, ?_,
        (hawaits''.elsewhere (helsewhere k t') hrunning).2⟩
      rw [before_succ hbefore hrun, hq, List.drop_left]
      simp

/-! ### Two chains -/

/-- The records of an answer that fits can be stored. -/
theorem storable_of_answers {lookups : AssetType → Lookup} {rs : List (AssetType × String)}
    (h : answers lookups = .ok rs) (hfits : Fits rs) : Storable lookups := by
  intro rs' hrs'
  rw [h] at hrs'
  rwa [← Except.ok.inj hrs']

/-- The first attempt meets a timeout, and every other one finds an address. -/
def timeoutFirst : RetryChain where
  lookups k := if k = 0 then fun _ ↦ .timeout "LifetimeTimeout" "" else oneAddress
  env _ _ := {}
  elsewhere _ t := t

/-- Every attempt finds an address. -/
def addressFirst : RetryChain where
  lookups _ := oneAddress
  env _ _ := {}
  elsewhere _ t := t

/-- What does not change is untouched. -/
theorem untouched_self (d : Id) (t : Store) : Untouched d t t :=
  ⟨id, fun _ _ ↦ Iff.rfl, fun _ _ _ ↦ rfl⟩

theorem storable_oneAddress : Storable oneAddress := by
  have hanswers : answers oneAddress = .ok [(.a, "192.0.2.1")] := by decide +kernel
  exact storable_of_answers hanswers (by decide)

/-- `asDocumented_iff` for a chain of two attempts. -/
theorem asDocumented_timeoutFirst : timeoutFirst.AsDocumented {} 1 0 .awaiting := by
  have hx : Store.awaiting.db.scans.get 1 =
      some ⟨1, 0, .pending, some 7, none, none, none, 0⟩ := rfl
  refine (asDocumented_iff Store.free_awaiting hx rfl rfl (fun _ _ ↦ untouched_self 0 _)
    fun k rs hrs ↦ ?_).2 rfl
  by_cases hk : k = 0
  · have htimeout : answers (timeoutFirst.lookups 0) = .error (.dns "LifetimeTimeout" "") := rfl
    rw [hk, htimeout] at hrs
    exact absurd hrs (by simp)
  · have horacle : timeoutFirst.lookups k = oneAddress := if_neg hk
    rw [horacle] at hrs
    exact storable_oneAddress rs hrs

/-- A worker dies after the commit of its records, and an API process starts. -/
def recoveryAfterStoring (k : ℕ) : Incident :=
  [.deliver 0 oneAddress 15 fun _ ↦ {}].getD k (.recover 40 fun _ ↦ {})

/-- The scan that such a recovery makes PENDING completes with its record stored twice. -/
theorem not_asDocumented :
    ¬ ∀ (c : RetryChain) (cfg : Settings) (x : Id) (s : Store) (row : Scan), s.Free →
      s.db.scans.get x = some row → row.status = .pending →
      s.db.runningScan row.domainId = none →
      (∀ k t, Untouched row.domainId t (c.elsewhere k t)) → (∀ k, Storable (c.lookups k)) →
      c.AsDocumented cfg x row.domainId s := by
  intro h
  let s := aftermath {} .plain 1 .awaiting recoveryAfterStoring 2
  have hx : s.db.scans.get 1 = some ⟨1, 0, .pending, some 7, none, none,
      some "Interrupted by process restart; re-queued", 0⟩ := by decide +kernel
  have hidle : s.db.runningScan 0 = none := by decide +kernel
  obtain ⟨t, t', ms, -, hafter, hended, -⟩ := (h addressFirst {} 1 s _
    (aftermath_free {} .plain 1 Store.free_awaiting recoveryAfterStoring 2) hx rfl hidle
    (fun _ _ ↦ untouched_self 0 _) fun _ ↦ storable_oneAddress).ended
  have hlast : addressFirst.last {} = 0 := by decide +kernel
  have htwice : (addressFirst.after {} 1 s 0).map (fun t ↦ (t.db.assetsOf 1).length) = some 2 := by
    decide +kernel
  have honce : (Resolution.records (answers (addressFirst.lookups 0))).length = 1 := by
    decide +kernel
  have hlen := congrArg List.length hended.assets
  rw [hlast] at hafter hlen
  rw [hafter, Option.map_some] at htwice
  rw [List.length_map, Option.some.inj htwice, honce] at hlen
  exact absurd hlen (by decide)

end RetryChain

end AssetDiscovery
