import AssetDiscovery.Board
import AssetDiscovery.Phase

/-!
# The protocol

What one operation of a process can do, said once: `Move o b v b' v'` lists every way in which a
process in phase `v` that carries out `o` on the board `b` can find the board and itself afterwards,
with all that is known then. `Fault` does the same for an operation that fails.

`serve_move` shows that the service takes no other step. Every invariant of the interleaved service
is derived from it, by one case for each kind of move.
-/

set_option autoImplicit false

namespace AssetDiscovery

open Phase

/-- The rows that a process in this phase works on are on the board. A process that loses one of its
rows, and one that deletes a domain, are outside of what `Move` describes. -/
def Board.Grounds (b : Board) : Phase → Prop
  | announcing d x => ∃ st, b.Has x d st
  | loaded x _ d _ => ∃ st, b.Has x d st
  | claiming x _ d _ => ∃ st, b.Has x d st
  | running x _ d _ => ∃ st, b.Has x d st
  | finished x d _ _ => ∃ st, b.Has x d st
  | handing x d _ _ y => (∃ st, b.Has x d st) ∧ ∃ st, b.Has y d st
  | faulted x d _ => ∃ st, b.Has x d st
  | deleting _ => False
  | orphaned _ _ => False
  | lost _ _ => False
  | _ => True

/-- A process in this phase has nothing in hand that others could wait for. -/
inductive Phase.Unbound : Phase → Prop
  | creating : Unbound creating
  | created {d} : Unbound (created d)
  | triggering {d} : Unbound (triggering d)
  | refused {d} : Unbound (refused d)
  | republishing : Unbound (republishing [])

/-- What an operation that succeeds does to the board and to the phase of its process. -/
inductive Move : Op → Board → Phase → Board → Phase → Prop
  /-- Nothing that matters. -/
  | stay {o b v} : Move o b v b v
  /-- A process with nothing in hand ends. -/
  | leave {o b v} (h : v.Unbound) : Move o b v b idle
  /-- The process has lost a row; nothing is said. -/
  | gone {o b v b' v'} (h : ¬ b.Grounds v) : Move o b v b' v'
  -- requests
  | opened {o b d} : Move o b creating b (created d)
  | create {b d x ws} (hx : b.scans x = none) :
    Move (.commit (.createScan d x) ws) b (created d) (b.addScan x d) (announcing d x)
  | lock {b d} : Move (.query (.domainForUpdate d)) b (triggering d) b (locked d)
  | occupied {b d} : Move (.query (.activeScan d)) b (locked d) b (refused d)
  | clear {b d} (h : ∀ x, ¬ b.HasActive x d) :
    Move (.query (.activeScan d)) b (locked d) b (cleared d)
  | accept {b d x ws} (hx : b.scans x = none) :
    Move (.commit (.triggerManualScan d x) ws) b (cleared d) (b.addScan x d) (announcing d x)
  | announce {b d x} : Move (.publish ⟨x, 0⟩) b (announcing d x) (b.push ⟨x, 0⟩) (announced d x)
  -- recovery
  | interrupted {b xs} (h : ∀ x, x ∈ xs ↔ ∃ d, b.Has x d .running) :
    Move (.query .runningScans) b recovering b (resetting xs)
  | uninterrupted {b} (h : ∀ x d, ¬ b.Has x d .running) :
    Move (.query .runningScans) b recovering b listing
  | reset {b xs ws} :
    Move (.commit .resetInterruptedScans ws) b (resetting xs) (b.reset xs) listing
  | list {b xs} (h : ∀ x, x ∈ xs ↔ ∃ d, b.HasActive x d) :
    Move (.query .recoverableIds) b listing b (republishing xs)
  | republish {b x xs} :
    Move (.publish ⟨x, 0⟩) b (republishing (x :: xs)) (b.push ⟨x, 0⟩) (republishing xs)
  -- workers
  | drop {b x r} (h : ∀ d, ¬ b.HasActive x d) : Move (.query (.scan x)) b (taken x r) b idle
  | load {b x r d st} (h : b.Has x d st) (hst : st.IsActive) :
    Move (.query (.scan x)) b (taken x r) b (loaded x r d st)
  | defer {b x r d y} (h : b.Has y d .running) {st} (hst : st ≠ .running) :
    Move (.query (.runningScan d)) b (loaded x r d st) b idle
  | claim {b x r d st} (h : st = .running ∨ ∀ y, ¬ b.Has y d .running) :
    Move (.query (.runningScan d)) b (loaded x r d st) b (claiming x r d st)
  | mark {b x r d st ws} :
    Move (.commit (.markScanRunning x) ws) b (claiming x r d st)
      (b.setScan x (change st .running)) (running x r d none)
  | reload {o b x r d snap st} (h : b.Has x d st) :
    Move o b (running x r d snap) b (running x r d (some st))
  | expire {site ws b x r d snap} :
    Move (.commit site ws) b (running x r d snap) b (running x r d none)
  | retry {b x r d snap} :
    Move (.publish ⟨x, r + 1⟩) b (running x r d snap) (b.push ⟨x, r + 1⟩) idle
  | complete {b x r d ws} :
    Move (.commit (.markScanCompleted x) ws) b (running x r d none)
      (b.setScan x (some .completed)) (finished x d none false)
  | fail {b x r d st ws} :
    Move (.commit (.markScanFailed x) ws) b (running x r d (some st))
      (b.setScan x (change st .failed)) (finished x d none true)
  | settle {o b x d snap snap' h} : Move o b (finished x d snap h) b (finished x d snap' h)
  | release {b x d snap h} (hb : ∀ y, ¬ b.Has y d .pending) :
    Move (.query (.nextPending d)) b (finished x d snap h) b idle
  | choose {b x d snap h y} (hy : b.Has y d .pending) :
    Move (.query (.nextPending d)) b (finished x d snap h) b (handing x d snap h y)
  | hand {b x d snap h y} :
    Move (.publish ⟨y, 0⟩) b (handing x d snap h y) (b.push ⟨y, 0⟩) idle
  | refail {b x d st ws} :
    Move (.commit (.markScanFailed x) ws) b (faulted x d (some st))
      (b.setScan x (change st .failed)) (finished x d none true)

/-- What an operation that fails does to the phase of its process. -/
inductive Fault : Phase → Phase → Prop
  /-- A statement or a commit. -/
  | statement {v} : Fault v v.fault
  /-- A publish. -/
  | publish {v m} (h : v.Publishes m) : Fault v (v.published false)

/-- Where a fault leaves a process. -/
theorem Fault.result {v v' : Phase} (h : Fault v v') :
    v' = .idle ∨ (∃ d x, v' = .announced d x) ∨ (∃ d, v' = .refused d) ∨ (∃ x d, v' = .lost x d) ∨
      ∃ x d snap y, v = .handing x d snap false y ∧ v' = .faulted x d snap := by
  cases h with
  | statement =>
    cases v with
    | announcing | announced => exact Or.inr (Or.inl ⟨_, _, rfl⟩)
    | locked | cleared => exact Or.inr (Or.inr (Or.inl ⟨_, rfl⟩))
    | _ => exact Or.inl rfl
  | publish hpub =>
    cases hpub with
    | announcing => exact Or.inr (Or.inl ⟨_, _, rfl⟩)
    | republishing | retry => exact Or.inl rfl
    | @handing x d snap h y =>
      cases h with
      | false => exact Or.inr (Or.inr (Or.inr (Or.inr ⟨x, d, snap, y, rfl, rfl⟩)))
      | true => exact Or.inl rfl
    | lost => exact Or.inr (Or.inr (Or.inr (Or.inl ⟨_, _, rfl⟩)))

/-- What holds of the phases in which a fault can leave a process. -/
theorem Fault.cases_of {v v' : Phase} (h : Fault v v') {P : Phase → Prop} (hidle : P .idle)
    (hannounced : ∀ d x, P (.announced d x)) (hrefused : ∀ d, P (.refused d))
    (hlost : ∀ x d, P (.lost x d)) (hfaulted : ∀ x d snap, P (.faulted x d snap)) : P v' := by
  rcases h.result with rfl | ⟨d, x, rfl⟩ | ⟨d, rfl⟩ | ⟨x, d, rfl⟩ | ⟨x, d, snap, y, -, rfl⟩
  · exact hidle
  · exact hannounced d x
  · exact hrefused d
  · exact hlost x d
  · exact hfaulted x d snap

/-! ### What the service does -/

/-- What a query answers and changes. -/
theorem serve_query {i : ℕ} {q : Query} {e : Env} {s s' : Store}
    {r : Except DbError q.Row} (h : serve i (.query q) e s = some (r, s')) :
    s'.db = s.db ∧ s'.queue = s.queue ∧
      ((∃ err, r = .error err) ∨ r = .ok (s.db.answer e.pick q)) := by
  simp only [serve] at h
  split at h
  · obtain ⟨rfl, rfl⟩ := Prod.mk.inj (Option.some.inj h)
    exact ⟨rfl, rfl, Or.inl ⟨_, rfl⟩⟩
  · cases q with
    | domainForUpdate d =>
      simp only at h
      split at h
      · exact absurd h (by simp)
      · split at h
        · next hrow =>
          obtain ⟨rfl, rfl⟩ := Prod.mk.inj (Option.some.inj h)
          exact ⟨rfl, rfl, Or.inr (congrArg Except.ok hrow.symm)⟩
        · next hrow =>
          obtain ⟨rfl, rfl⟩ := Prod.mk.inj (Option.some.inj h)
          exact ⟨rfl, rfl, Or.inr (congrArg Except.ok hrow.symm)⟩
    | _ =>
      obtain ⟨rfl, rfl⟩ := Prod.mk.inj (Option.some.inj h)
      exact ⟨rfl, rfl, Or.inr rfl⟩

/-- What a commit answers and changes. -/
theorem serve_commit {i : ℕ} {site : Site} {ws : List Write} {e : Env} {s s' : Store}
    {r : Except DbError Unit} (h : serve i (.commit site ws) e s = some (r, s')) :
    s'.queue = s.queue ∧ (((∃ err, r = .error err) ∧ s'.db = s.db) ∨
      (r = .ok () ∧ ¬ s.Waits i ws ∧ ∃ now, s.db.writeAll now ws = .ok s'.db)) := by
  simp only [serve] at h
  split at h
  · obtain ⟨rfl, rfl⟩ := Prod.mk.inj (Option.some.inj h)
    exact ⟨rfl, Or.inl ⟨⟨_, rfl⟩, rfl⟩⟩
  · split at h
    · exact absurd h (by simp)
    · next hwaits =>
      split at h
      · next db hdb =>
        obtain ⟨rfl, rfl⟩ := Prod.mk.inj (Option.some.inj h)
        exact ⟨rfl, Or.inr ⟨rfl, hwaits, _, hdb⟩⟩
      · obtain ⟨rfl, rfl⟩ := Prod.mk.inj (Option.some.inj h)
        exact ⟨rfl, Or.inl ⟨⟨_, rfl⟩, rfl⟩⟩

/-- What a flush answers; it changes nothing that others can see. -/
theorem serve_flush {i : ℕ} {ws : List Write} {e : Env} {s s' : Store}
    {r : Except DbError Unit} (h : serve i (.flush ws) e s = some (r, s')) :
    s'.db = s.db ∧ s'.queue = s.queue ∧ ((∃ err, r = .error err) ∨ r = .ok ()) := by
  simp only [serve] at h
  split at h
  · obtain ⟨rfl, rfl⟩ := Prod.mk.inj (Option.some.inj h)
    exact ⟨rfl, rfl, Or.inl ⟨_, rfl⟩⟩
  · split at h
    · exact absurd h (by simp)
    · split at h
      · obtain ⟨rfl, rfl⟩ := Prod.mk.inj (Option.some.inj h)
        exact ⟨rfl, rfl, Or.inr rfl⟩
      · obtain ⟨rfl, rfl⟩ := Prod.mk.inj (Option.some.inj h)
        exact ⟨rfl, rfl, Or.inl ⟨_, rfl⟩⟩

/-- What a publish answers and changes. -/
theorem serve_publish {i : ℕ} {m : Message} {e : Env} {s s' : Store} {r : Except String Unit}
    (h : serve i (.publish m) e s = some (r, s')) :
    s'.db = s.db ∧ (((∃ text, r = .error text) ∧ s'.queue = s.queue) ∨
      (r = .ok () ∧ s'.queue = s.queue ++ [m])) := by
  simp only [serve] at h
  split at h
  · obtain ⟨rfl, rfl⟩ := Prod.mk.inj (Option.some.inj h)
    exact ⟨rfl, Or.inl ⟨⟨_, rfl⟩, rfl⟩⟩
  · obtain ⟨rfl, rfl⟩ := Prod.mk.inj (Option.some.inj h)
    exact ⟨rfl, Or.inr ⟨rfl, rfl⟩⟩

/-- Only a commit changes rows. -/
theorem serve_db {i : ℕ} {o : Op} {e : Env} {s s' : Store} {r : o.Res}
    (h : serve i o e s = some (r, s')) :
    s'.db = s.db ∨ ∃ site ws now, o = .commit site ws ∧ s.db.writeAll now ws = .ok s'.db := by
  cases o with
  | query q => exact Or.inl (serve_query h).1
  | flush ws => exact Or.inl (serve_flush h).1
  | commit site ws =>
    rcases (serve_commit h).2 with ⟨-, hdb⟩ | ⟨-, -, now, hdb⟩
    · exact Or.inl hdb
    · exact Or.inr ⟨site, ws, now, rfl, hdb⟩
  | publish m => exact Or.inl (serve_publish h).1
  | _ =>
    obtain ⟨-, rfl⟩ := Prod.mk.inj (Option.some.inj h)
    exact Or.inl rfl

/-- The board after the statements that `SetsScan` describes. -/
theorem Phase.SetsScan.board {db db' : Database} {q : List Message} {now : Time} {x : Id}
    {st : Option ScanStatus} {ws : List Write} (h : SetsScan x st ws)
    (hdb : db.writeAll now ws = .ok db') : db'.board q = (db.board q).setScan x st := by
  rcases h with ⟨rfl, rfl⟩ | ⟨p, rfl, rfl⟩
  · rw [Database.writeAll_nil hdb]
    rfl
  · obtain ⟨db₁, h₁, h₂⟩ := Database.writeAll_cons hdb
    rw [Database.writeAll_nil h₂, Database.board_updateScan h₁]

/-- Statements on a domain's status leave the board as it is. -/
theorem board_of_setDomain {db db' : Database} {q : List Message} {now : Time} {d : Id}
    {st : DomainStatus} {ws : List Write} (h : ws = [] ∨ ws = [.updateDomain d st])
    (hdb : db.writeAll now ws = .ok db') : db'.board q = db.board q := by
  rcases h with rfl | rfl
  · rw [Database.writeAll_nil hdb]
  · obtain ⟨db₁, h₁, h₂⟩ := Database.writeAll_cons hdb
    rw [Database.writeAll_nil h₂, Database.board_updateDomain h₁]

/-- Inserting assets leaves the board as it is. -/
theorem board_of_insertAssets {x d : Id} {ws : List Write}
    (h : ∀ w ∈ ws, ∃ id type value, w = .insertAsset id x d type value) {db db' : Database}
    {q : List Message} {now : Time} (hdb : db.writeAll now ws = .ok db') :
    db'.board q = db.board q := by
  induction ws generalizing db with
  | nil => rw [Database.writeAll_nil hdb]
  | cons w ws ih =>
    obtain ⟨db₁, h₁, h₂⟩ := Database.writeAll_cons hdb
    obtain ⟨id, type, value, rfl⟩ := h w List.mem_cons_self
    rw [ih (fun w hw ↦ h w (List.mem_cons_of_mem _ hw)) h₂, Database.board_insertAsset h₁]

/-- A commit that inserts a scan. -/
theorem board_of_insertScan {v : Phase} {d x : Id} {ws : List Write}
    (h : v.Commits (.createScan d x) ws ∨ v.Commits (.triggerManualScan d x) ws)
    {db db' : Database} {q : List Message} {now : Time} (hdb : db.writeAll now ws = .ok db') :
    (db.board q).scans x = none ∧ db'.board q = (db.board q).addScan x d ∧
      ∃ user rest, ws = .insertScan x d .pending user :: rest := by
  rcases h with h | h
  · cases h with
    | createScan =>
      obtain ⟨db₁, h₁, h₂⟩ := Database.writeAll_cons hdb
      obtain ⟨hfree, hboard⟩ := Database.board_insertScan (q := q) h₁
      rw [Database.writeAll_nil h₂]
      exact ⟨hfree, hboard, _, _, rfl⟩
  · cases h with
    | triggerManualScan hws =>
      obtain ⟨db₁, h₁, h₂⟩ := Database.writeAll_cons hdb
      obtain ⟨hfree, hboard⟩ := Database.board_insertScan (q := q) h₁
      rw [board_of_setDomain hws h₂]
      exact ⟨hfree, hboard, _, _, rfl⟩

theorem Board.reset_nil (b : Board) : b.reset [] = b := by
  simp only [Board.reset, List.not_mem_nil, if_false]

/-- A reset takes one scan after another. -/
theorem Board.reset_cons (b : Board) (x : Id) (xs : List Id) :
    (b.setScan x (some .pending)).reset xs = b.reset (x :: xs) := by
  ext1
  · funext y
    simp only [Board.reset, Board.setScan, List.mem_cons]
    by_cases hx : y = x <;> by_cases hxs : y ∈ xs <;>
      simp [hx, hxs, Option.map_map, Function.comp_def]
  · rfl

/-- Resetting scans one by one resets them all. -/
theorem board_of_reset {xs : List Id} {ws : List Write}
    (h : List.Forall₂ (fun x w ↦ ∃ p : ScanPatch, w = .updateScan x p ∧
      p.status = some .pending) xs ws) {db db' : Database} {q : List Message} {now : Time}
    (hdb : db.writeAll now ws = .ok db') : db'.board q = (db.board q).reset xs := by
  induction h generalizing db with
  | nil =>
    rw [Database.writeAll_nil hdb, Board.reset_nil]
  | cons hw _ ih =>
    obtain ⟨db₁, h₁, h₂⟩ := Database.writeAll_cons hdb
    obtain ⟨p, rfl, hp⟩ := hw
    rw [ih h₂, Database.board_updateScan h₁, hp, Board.reset_cons]

/-- A domain that is not stored has no scans. -/
theorem Database.not_has_of_get {db : Database} {q : List Message} {d : Id}
    (h : db.domains.get d = none) (x : Id) (st : ScanStatus) : ¬ (db.board q).Has x d st := by
  intro hx
  obtain ⟨row, hrow, rfl, -⟩ := Database.has_board.1 hx
  have hd := db.scan_domain row (Table.mem_of_get hrow)
  rw [h] at hd
  exact absurd hd (by simp)

/-- A scan that is not stored is not on the board. -/
theorem Database.not_has_of_scan {db : Database} {q : List Message} {x : Id}
    (h : db.scans.get x = none) (d : Id) (st : ScanStatus) : ¬ (db.board q).Has x d st := by
  intro hx
  obtain ⟨row, hrow, -⟩ := Database.has_board.1 hx
  rw [h] at hrow
  exact absurd hrow (by simp)

/-- The statements of a reset set columns of scans. -/
theorem updateScan_of_reset {xs : List Id} {ws : List Write}
    (h : List.Forall₂ (fun x w ↦ ∃ p : ScanPatch, w = .updateScan x p ∧
      p.status = some .pending) xs ws) : ∀ w ∈ ws, ∃ x p, w = .updateScan x p := by
  induction h with
  | nil => exact fun w hw ↦ absurd hw List.not_mem_nil
  | cons hw _ ih =>
    obtain ⟨p, rfl, -⟩ := hw
    exact List.forall_mem_cons.2 ⟨⟨_, p, rfl⟩, ih⟩

/-- A transaction deletes a domain, stores assets of the scan that its worker is running, or does
neither. -/
theorem Phase.Commits.kinds {v : Phase} {site : Site} {ws : List Write} (h : v.Commits site ws) :
    (∃ d, v = .deleting d ∧ ws = [.deleteDomain d]) ∨
      (∃ x r d snap, v = .running x r d snap ∧
        ∀ w ∈ ws, ∃ id type value, w = .insertAsset id x d type value) ∨
      ∀ w ∈ ws, (∀ d, w ≠ .deleteDomain d) ∧
        ∀ id x d type value, w ≠ .insertAsset id x d type value := by
  -- a status write of the scan or of the domain is neither an insertion nor a deletion
  have hsets : ∀ {x st}, SetsScan x st ws → ∀ w ∈ ws, (∀ d, w ≠ .deleteDomain d) ∧
      ∀ id x d type value, w ≠ .insertAsset id x d type value := by
    rintro x st (⟨rfl, -⟩ | ⟨p, rfl, -⟩)
    · simp
    · simp
  have hdomain : ∀ {d st}, ws = [] ∨ ws = [.updateDomain d st] → ∀ w ∈ ws,
      (∀ d, w ≠ .deleteDomain d) ∧ ∀ id x d type value, w ≠ .insertAsset id x d type value := by
    rintro d st (rfl | rfl) <;> simp
  cases h with
  | deleteDomain => exact Or.inl ⟨_, rfl, rfl⟩
  | createAssets h => exact Or.inr (Or.inl ⟨_, _, _, _, rfl, h⟩)
  | createDomain | createScan => exact Or.inr (Or.inr (by simp))
  | triggerManualScan h => rcases h with rfl | rfl <;> exact Or.inr (Or.inr (by simp))
  | reset h =>
    refine Or.inr (Or.inr fun w hw ↦ ?_)
    obtain ⟨x, p, rfl⟩ := updateScan_of_reset h w hw
    exact ⟨nofun, nofun⟩
  | orphaned h | markScanRunning h | markScanCompleted h | markScanFailed h | faulted h
  | lostScan h => exact Or.inr (Or.inr (hsets h))
  | announcing h | runningDomain h | finishedDomain h | lostDomain h =>
    exact Or.inr (Or.inr (hdomain h))

/-! ### Every step of the service is a move or a fault -/

/-- A commit that succeeds. -/
theorem commit_move {v : Phase} {site : Site} {ws : List Write} {db db' : Database}
    {q : List Message} {now : Time} (h : v.Commits site ws)
    (hdb : db.writeAll now ws = .ok db') :
    Move (.commit site ws) (db.board q) v (db'.board q) (v.committed site) := by
  cases h with
  | createDomain =>
    obtain ⟨db₁, h₁, h₂⟩ := Database.writeAll_cons hdb
    rw [Database.writeAll_nil h₂, Database.board_insertDomain h₁]
    exact .opened
  -- both insertions of a scan: the id is fresh, so the board gains one pending scan
  | createScan =>
    obtain ⟨hfree, hboard, -⟩ := board_of_insertScan (q := q) (Or.inl .createScan) hdb
    rw [hboard]
    exact .create hfree
  | triggerManualScan hws =>
    obtain ⟨hfree, hboard, -⟩ := board_of_insertScan (q := q) (Or.inr (.triggerManualScan hws)) hdb
    rw [hboard]
    exact .accept hfree
  | announcing hws =>
    rw [board_of_setDomain hws hdb]
    exact .stay
  | deleteDomain => exact .gone id
  | reset hws =>
    rw [board_of_reset hws hdb]
    exact .reset
  -- the scan was read active and its domain is gone: no row is left that others depend on
  | orphaned _ => exact .gone id
  | markScanRunning hws =>
    rw [hws.board hdb]
    exact .mark
  | runningDomain hws =>
    rw [board_of_setDomain hws hdb]
    exact .expire
  | createAssets hws =>
    rw [board_of_insertAssets hws hdb]
    exact .expire
  | markScanCompleted hws =>
    rw [hws.board hdb]
    exact .complete
  | markScanFailed hws =>
    rw [hws.board hdb]
    exact .fail
  | finishedDomain hws =>
    rw [board_of_setDomain hws hdb]
    exact .settle
  | faulted hws =>
    rw [hws.board hdb]
    exact .refail
  -- the process has lost its rows, so what it writes reaches nobody
  | lostScan _ _ => exact .gone id
  | lostDomain _ => exact .gone id

/-- A publish that succeeds. -/
theorem publish_move {v : Phase} {m : Message} {b : Board} (h : v.Publishes m) :
    Move (.publish m) b v (b.push m) (v.published true) := by
  cases h with
  | announcing => exact .announce
  | republishing => exact .republish
  | retry => exact .retry
  | @handing x d snap h y =>
    have hv : (handing x d snap h y).published true = .idle := by cases h <;> rfl
    rw [hv]
    exact .hand
  | lost => exact .gone id

/-- A query that succeeds. -/
theorem query_move {v : Phase} {query : Query} {db : Database} {q : List Message} {pick : ℕ}
    (h : v.Reads query) :
    Move (.query query) (db.board q) v (db.board q) (v.read query (db.answer pick query)) := by
  cases h with
  -- the name is taken, and the request answers 409
  | @creating name =>
    show Move _ _ _ _ (if (db.domainByName name).isSome then .idle else .creating)
    split
    · exact .leave .creating
    · exact .stay
  | @created d =>
    show Move _ _ _ _ ((created d).readDomain (db.domains.get d))
    cases db.domains.get d with
    | none => exact .leave .created
    | some row => exact .stay
  -- the row lock is granted with the row, and not at all for an id that is not stored
  | @triggering d =>
    show Move _ _ _ _ (if (db.domains.get d).isSome then .locked d else .idle)
    split
    · exact .lock
    · exact .leave .triggering
  -- `_has_active_scan`, asked while the row lock is held
  | @locked d =>
    show Move _ _ _ _ (if (db.activeScan d).isSome then .refused d else .cleared d)
    split
    · exact .occupied
    · next hnone => exact .clear fun x hx ↦ hnone (Database.activeScan_isSome.2 ⟨x, hx⟩)
  -- rows of its own that have disappeared under it leave a process nothing to do
  | @announcingScan d x =>
    show Move _ _ _ _ ((announcing d x).readScan (db.scans.get x))
    cases hrow : db.scans.get x with
    | none => exact .gone fun ⟨st, hx⟩ ↦ Database.not_has_of_scan hrow d st hx
    | some row => exact .stay
  | @announcingDomain d x =>
    show Move _ _ _ _ ((announcing d x).readDomain (db.domains.get d))
    cases hrow : db.domains.get d with
    | none => exact .gone fun ⟨st, hx⟩ ↦ Database.not_has_of_get hrow x st hx
    | some row => exact .stay
  | announced => exact .stay
  | deletingDomain => exact .gone id
  | deletingScans => exact .gone id
  | deletingAssets => exact .gone id
  | recovering =>
    show Move _ _ _ _ (if db.runningScans.isEmpty then .listing
      else .resetting (db.runningScans.map Scan.id))
    split
    · next hempty =>
      refine .uninterrupted fun x d hx ↦ ?_
      have hmem := Database.mem_runningScans.2 ⟨d, hx⟩
      rw [List.isEmpty_iff.1 hempty] at hmem
      exact absurd hmem List.not_mem_nil
    · exact .interrupted fun x ↦ Database.mem_runningScans
  | listing => exact .list fun x ↦ Database.mem_recoverableIds
  -- `process_scan` goes on with an active scan only
  | @taken x r =>
    show Move _ _ _ _ ((taken x r).readScan (db.scans.get x))
    cases hrow : db.scans.get x with
    | none => exact .drop fun d ⟨st, hx, _⟩ ↦ Database.not_has_of_scan hrow d st hx
    | some row =>
      show Move _ _ _ _ (if row.status.IsActive then .loaded x r row.domainId row.status else .idle)
      have hx := Database.has_board_of_get (q := q) hrow
      split
      · next hactive => exact .load hx hactive
      · next hfinished =>
        refine .drop ?_
        rintro d ⟨st, hx', hst⟩
        obtain ⟨-, rfl⟩ := hx.unique hx'
        exact hfinished hst
  | @loadedDomain x r d st =>
    show Move _ _ _ _ ((loaded x r d st).readDomain (db.domains.get d))
    cases hrow : db.domains.get d with
    | none => exact .gone fun ⟨st, hx⟩ ↦ Database.not_has_of_get hrow x st hx
    | some row => exact .stay
  -- "Only one RUNNING scan per domain", except for a scan that is RUNNING already
  | @loadedGuard x r d st =>
    show Move _ _ _ _ (if (db.runningScan d).isSome ∧ st ≠ .running then .idle
      else .claiming x r d st)
    split
    · next hdefer =>
      obtain ⟨y, hy⟩ := Database.runningScan_isSome.1 hdefer.1
      exact .defer hy hdefer.2
    · next hclaim =>
      refine .claim (or_iff_not_imp_left.2 fun hst y hy ↦ ?_)
      exact hclaim ⟨Database.runningScan_isSome.2 ⟨y, hy⟩, hst⟩
  -- the scan is looked up by id, so its domain has to be compared
  | @runningScan x r d snap =>
    show Move _ _ _ _ ((running x r d snap).readScan (db.scans.get x))
    cases hrow : db.scans.get x with
    | none => exact .gone fun ⟨st, hx⟩ ↦ Database.not_has_of_scan hrow d st hx
    | some row =>
      have hx := Database.has_board_of_get (q := q) hrow
      by_cases hd : row.domainId = d
      · rw [hd] at hx
        exact .reload hx
      · exact .gone fun ⟨st, hx'⟩ ↦ hd (hx.unique hx').1
  | @runningDomain x r d snap =>
    show Move _ _ _ _ ((running x r d snap).readDomain (db.domains.get d))
    cases hrow : db.domains.get d with
    | none => exact .gone fun ⟨st, hx⟩ ↦ Database.not_has_of_get hrow x st hx
    | some row => exact .stay
  | runningAsset => exact .stay
  | @finishedScan x d snap h =>
    show Move _ _ _ _ ((finished x d snap h).readScan (db.scans.get x))
    cases hrow : db.scans.get x with
    | none => exact .gone fun ⟨st, hx⟩ ↦ Database.not_has_of_scan hrow d st hx
    | some row =>
      have hx := Database.has_board_of_get (q := q) hrow
      by_cases hd : row.domainId = d
      · show Move _ _ _ _ (.finished x row.domainId (some row.status) h)
        rw [hd]
        exact .settle
      · exact .gone fun ⟨st, hx'⟩ ↦ hd (hx.unique hx').1
  | @finishedDomain x d snap h =>
    show Move _ _ _ _ ((finished x d snap h).readDomain (db.domains.get d))
    cases hrow : db.domains.get d with
    | none => exact .gone fun ⟨st, hx⟩ ↦ Database.not_has_of_get hrow x st hx
    | some row => exact .stay
  -- no pending scan is left, or the next one is chosen and published
  | @finishedNext x d snap h =>
    show Move (.query (.nextPending d)) _ _ _ ((finished x d snap h).read (.nextPending d)
      (db.nextPending d pick))
    cases hnext : db.nextPending d pick with
    | none => exact .release (Database.not_has_of_nextPending hnext)
    | some y => exact .choose (Database.has_of_nextPending hnext)
  | lostScan => exact .gone id
  | lostDomain => exact .gone id
  | lostNext => exact .gone id
  | @idle x =>
    show Move _ _ _ _ (idle.readScan (db.scans.get x))
    cases db.scans.get x with
    | none => exact .stay
    | some row => exact .stay

/-- The service makes no other step: an operation that a phase allows either fails and leaves the
board as it is, or is a move. -/
theorem serve_move {i : ℕ} {v : Phase} {o : Op} {e : Env} {s s' : Store} {r : o.Res}
    (hv : v.Allowed o) (h : serve i o e s = some (r, s')) :
    (o.Failed r ∧ s'.board = s.board ∧ Fault v (v.observe o r)) ∨
      (¬ o.Failed r ∧ Move o s.board v s'.board (v.observe o r)) := by
  cases hv with
  | @query v q hreads =>
    obtain ⟨hdb, hqueue, hr⟩ := serve_query h
    have hboard : s'.board = s.board := by rw [Store.board, hdb, hqueue, Store.board]
    rcases hr with ⟨err, rfl⟩ | rfl
    · exact Or.inl ⟨rfl, hboard, .statement⟩
    · rw [hboard]
      exact Or.inr ⟨nofun, query_move hreads⟩
  -- a flush writes nothing that others see before the commit
  | flush =>
    obtain ⟨hdb, hqueue, ⟨err, rfl⟩ | rfl⟩ := serve_flush h
    · exact Or.inl ⟨rfl, by rw [Store.board, hdb, hqueue, Store.board], .statement⟩
    · rw [Store.board, hdb, hqueue]
      exact Or.inr ⟨nofun, .stay⟩
  -- a commit that fails rolls everything back
  | @commit v site ws hcommits =>
    obtain ⟨hqueue, ⟨⟨err, rfl⟩, hdb⟩ | ⟨rfl, -, now, hdb⟩⟩ := serve_commit h
    · exact Or.inl ⟨rfl, by rw [Store.board, hdb, hqueue, Store.board], .statement⟩
    · rw [Store.board, Store.board, hqueue]
      exact Or.inr ⟨nofun, commit_move hcommits hdb⟩
  | publish hpub =>
    obtain ⟨hdb, ⟨⟨text, rfl⟩, hqueue⟩ | ⟨rfl, hqueue⟩⟩ := serve_publish h
    · exact Or.inl ⟨rfl, by rw [Store.board, hdb, hqueue, Store.board], .publish hpub⟩
    · rw [Store.board, hdb, hqueue]
      exact Or.inr ⟨nofun, publish_move hpub⟩
  -- only `trigger_manual_scan` rolls back, when it has found an active scan
  | rollback =>
    obtain ⟨-, rfl⟩ := Prod.mk.inj (Option.some.inj h)
    exact Or.inr ⟨id, .leave .refused⟩
  | close hcloses =>
    obtain ⟨-, rfl⟩ := Prod.mk.inj (Option.some.inj h)
    refine Or.inr ⟨id, ?_⟩
    show Move _ s.board v s.board v.closed
    rw [hcloses.closed]
    cases hcloses with
    | creating => exact .leave .creating
    | refused => exact .leave .refused
    | idle => exact .stay
    | republishing => exact .leave .republishing
    | lost => exact .gone id
  | closeAnnounced =>
    obtain ⟨-, rfl⟩ := Prod.mk.inj (Option.some.inj h)
    exact Or.inr ⟨id, .stay⟩
  | lookup =>
    obtain ⟨-, rfl⟩ := Prod.mk.inj (Option.some.inj h)
    exact Or.inr ⟨id, .stay⟩
  | now =>
    obtain ⟨-, rfl⟩ := Prod.mk.inj (Option.some.inj h)
    exact Or.inr ⟨id, .stay⟩
  | uuid4 =>
    obtain ⟨-, rfl⟩ := Prod.mk.inj (Option.some.inj h)
    exact Or.inr ⟨id, .stay⟩

/-! ### Moves keep the rows that processes work on -/

/-- Every scan of `b` is on `b'`, in the same domain. -/
def Board.Grows (b b' : Board) : Prop :=
  ∀ x d st, b.Has x d st → ∃ st', b'.Has x d st'

theorem Board.Grows.refl (b : Board) : b.Grows b :=
  fun _ _ st h ↦ ⟨st, h⟩

theorem Board.grows_push (b : Board) (m : Message) : b.Grows (b.push m) :=
  .refl b

/-- A new scan takes nothing away. -/
theorem Board.grows_addScan {b : Board} {x : Id} (d : Id) (hx : b.scans x = none) :
    b.Grows (b.addScan x d) :=
  fun _ _ st h ↦ ⟨st, (has_addScan hx).2 (Or.inr h)⟩

/-- Setting a status takes no scan away. -/
theorem Board.grows_setScan (b : Board) (x : Id) (st : Option ScanStatus) :
    b.Grows (b.setScan x st) := by
  cases st with
  | none => exact .refl b
  | some st =>
    intro y d st' h
    by_cases hy : y = x
    · subst hy
      exact ⟨st, has_setScan_some.2 (Or.inl ⟨rfl, rfl, st', h⟩)⟩
    · exact ⟨st', has_setScan_some.2 (Or.inr ⟨hy, h⟩)⟩

/-- Neither does a reset. -/
theorem Board.grows_reset (b : Board) (xs : List Id) : b.Grows (b.reset xs) := by
  intro y d st h
  by_cases hy : y ∈ xs
  · exact ⟨.pending, has_reset.2 (Or.inl ⟨hy, rfl, st, h⟩)⟩
  · exact ⟨st, has_reset.2 (Or.inr ⟨hy, h⟩)⟩

/-- Where no scan disappears, a process keeps the rows that it works on. -/
theorem Board.Grows.grounds {b b' : Board} (h : b.Grows b') {v : Phase} (hv : b.Grounds v) :
    b'.Grounds v := by
  have hex : ∀ {x d : Id}, (∃ st, b.Has x d st) → ∃ st, b'.Has x d st :=
    fun ⟨st, hx⟩ ↦ h _ _ st hx
  cases v with
  | announcing | loaded | claiming | running | finished | faulted => exact hex hv
  | handing => exact ⟨hex hv.1, hex hv.2⟩
  | _ => exact hv

variable {o : Op} {b b' : Board} {v v' : Phase}

/-- No move takes a scan away. -/
theorem Move.grows (h : Move o b v b' v') (hv : b.Grounds v) : b.Grows b' := by
  cases h with
  | gone hgone => exact absurd hv hgone
  | create hx => exact Board.grows_addScan _ hx
  | accept hx => exact Board.grows_addScan _ hx
  | announce | republish | retry | hand => exact Board.grows_push _ _
  | reset => exact Board.grows_reset _ _
  | mark | complete | fail | refail => exact Board.grows_setScan _ _ _
  | _ => exact .refl _

/-- A move leaves its process with rows that are on the board. -/
theorem Move.grounds (h : Move o b v b' v') (hv : b.Grounds v) : b'.Grounds v' := by
  have hgrows := h.grows hv
  cases h with
  | gone hgone => exact absurd hv hgone
  | stay => exact hv
  | create hx => exact ⟨.pending, (Board.has_addScan hx).2 (Or.inl ⟨rfl, rfl, rfl⟩)⟩
  | accept hx => exact ⟨.pending, (Board.has_addScan hx).2 (Or.inl ⟨rfl, rfl, rfl⟩)⟩
  | load hx _ => exact ⟨_, hx⟩
  | choose hy => exact ⟨hv, _, hy⟩
  | claim | reload | expire | settle => exact hv
  | mark | complete | fail | refail => exact hgrows.grounds (v := .announcing _ _) hv
  | _ => trivial

/-- So does a fault, and nothing else changes. -/
theorem Fault.grounds (h : Fault v v') (hv : b.Grounds v) : b.Grounds v' := by
  cases h with
  | statement => cases v <;> trivial
  | publish hpub =>
    cases hpub with
    | @handing x d snap h y =>
      cases h with
      | false => exact hv.1
      | true => trivial
    | lost => exact absurd hv id
    | _ => trivial

end AssetDiscovery
