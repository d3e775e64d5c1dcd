import AssetDiscovery.Runtime
import Mathlib.Data.List.MinMax
import Mathlib.Order.Lattice

/-!
# The board

The part of the shared state on which processes depend on each other: for every scan its domain and
its status, and the queue. A `Board` is an abstraction of the store (`Store.board`); assets, texts,
times and the denormalised domain status are forgotten.

This module gives the meaning of the queries and of the statements on the board. Nothing above it
looks at rows.
-/

set_option autoImplicit false

namespace AssetDiscovery

/-- For every scan its domain and its status, and the queued messages. -/
@[ext]
structure Board where
  scans : Id → Option (Id × ScanStatus)
  queue : List Message

namespace Board

variable (b : Board)

/-- Scan `x` belongs to domain `d` and has status `st`. -/
def Has (x d : Id) (st : ScanStatus) : Prop :=
  b.scans x = some (d, st)

/-- Scan `x` is PENDING or RUNNING in domain `d`. -/
def HasActive (x d : Id) : Prop :=
  ∃ st, b.Has x d st ∧ st.IsActive

/-- A new PENDING scan. -/
def addScan (x d : Id) : Board :=
  { b with scans := fun y ↦ if y = x then some (d, .pending) else b.scans y }

/-- Scan `x` gets status `st`, unless the statement leaves the status out. -/
def setScan (x : Id) : Option ScanStatus → Board
  | none => b
  | some st => { b with scans := fun y ↦ if y = x then (b.scans y).map fun p ↦ (p.1, st)
                                        else b.scans y }

/-- Every scan of a list becomes PENDING. -/
def reset (xs : List Id) : Board :=
  { b with scans := fun y ↦ if y ∈ xs then (b.scans y).map fun p ↦ (p.1, .pending)
                            else b.scans y }

/-- The scans of domain `d` disappear. -/
def dropDomain (d : Id) : Board :=
  { b with scans := fun y ↦ (b.scans y).filter fun p ↦ p.1 ≠ d }

/-- Queue a message. -/
def push (m : Message) : Board :=
  { b with queue := b.queue ++ [m] }

variable {b}

theorem Has.unique {x d d' : Id} {st st' : ScanStatus} (h : b.Has x d st) (h' : b.Has x d' st') :
    d = d' ∧ st = st' := by
  rw [Has, h] at h'
  simpa using h'

theorem Has.active {x d : Id} {st : ScanStatus} (h : b.Has x d st) (hst : st.IsActive) :
    b.HasActive x d :=
  ⟨st, h, hst⟩

@[simp] theorem push_scans (m : Message) : (b.push m).scans = b.scans := rfl

@[simp] theorem push_queue (m : Message) : (b.push m).queue = b.queue ++ [m] := rfl

@[simp] theorem addScan_queue (x d : Id) : (b.addScan x d).queue = b.queue := rfl

@[simp] theorem reset_queue (xs : List Id) : (b.reset xs).queue = b.queue := rfl

@[simp]
theorem setScan_queue (x : Id) (st : Option ScanStatus) : (b.setScan x st).queue = b.queue := by
  cases st <;> rfl

@[simp]
theorem has_push {m : Message} {x d : Id} {st : ScanStatus} :
    (b.push m).Has x d st ↔ b.Has x d st :=
  Iff.rfl

/-- The scans after an insertion. -/
theorem has_addScan {x y d d' : Id} {st : ScanStatus} (hx : b.scans x = none) :
    (b.addScan x d).Has y d' st ↔ (y = x ∧ d' = d ∧ st = .pending) ∨ b.Has y d' st := by
  unfold Has addScan
  by_cases hy : y = x
  · subst hy
    simp [hx, eq_comm]
  · simp [hy]

/-- The scans after a status is set. -/
theorem has_setScan_some {x y d : Id} {st st' : ScanStatus} :
    (b.setScan x (some st)).Has y d st' ↔
      (y = x ∧ st' = st ∧ ∃ st₀, b.Has x d st₀) ∨ (y ≠ x ∧ b.Has y d st') := by
  unfold Has setScan
  by_cases hy : y = x
  · simp only [if_pos hy, Option.map_eq_some_iff, Prod.mk.injEq, Prod.exists]
    constructor
    · rintro ⟨d', st₀, h, rfl, rfl⟩
      exact Or.inl ⟨hy, rfl, st₀, hy ▸ h⟩
    · rintro (⟨-, rfl, st₀, h⟩ | ⟨hne, -⟩)
      · exact ⟨d, st₀, hy ▸ h, rfl, rfl⟩
      · exact absurd hy hne
  · simp [hy]

/-- A statement on a scan of another domain. -/
theorem has_setScan_of_ne {y z d dy : Id} {st st₀ : ScanStatus} {st' : Option ScanStatus}
    (hy : b.Has y dy st₀) (hne : dy ≠ d) : (b.setScan y st').Has z d st ↔ b.Has z d st := by
  have hzy : ∀ {st}, b.Has z d st → z ≠ y := by
    rintro st hz rfl
    exact hne (hy.unique hz).1
  cases st' with
  | none => rfl
  | some st' =>
    rw [has_setScan_some]
    constructor
    · rintro (⟨rfl, -, st₁, h⟩ | ⟨-, h⟩)
      · exact absurd rfl (hzy h)
      · exact h
    · exact fun h ↦ Or.inr ⟨hzy h, h⟩

/-- The scans after a reset. -/
theorem has_reset {xs : List Id} {y d : Id} {st : ScanStatus} :
    (b.reset xs).Has y d st ↔
      (y ∈ xs ∧ st = .pending ∧ ∃ st₀, b.Has y d st₀) ∨ (y ∉ xs ∧ b.Has y d st) := by
  unfold Has reset
  by_cases hy : y ∈ xs
  · simp only [if_pos hy, Option.map_eq_some_iff, Prod.mk.injEq, Prod.exists]
    constructor
    · rintro ⟨d', st₀, h, rfl, rfl⟩
      exact Or.inl ⟨hy, rfl, st₀, h⟩
    · rintro (⟨-, rfl, st₀, h⟩ | ⟨hne, -⟩)
      · exact ⟨d, st₀, h, rfl, rfl⟩
      · exact absurd hy hne
  · simp [hy]

/-- The scans after the deletion of a domain. -/
theorem has_dropDomain {d y d' : Id} {st : ScanStatus} :
    (b.dropDomain d).Has y d' st ↔ d' ≠ d ∧ b.Has y d' st := by
  unfold Has dropDomain
  rw [Option.filter_eq_some_iff]
  simp [and_comm]

end Board

/-! ### The board of a database -/

namespace Database

variable (db : Database)

/-- The board of a database and a queue. -/
def board (queue : List Message) : Board where
  scans x := (db.scans.get x).map fun row ↦ (row.domainId, row.status)
  queue := queue

variable {db} {q : List Message}

@[simp] theorem board_queue : (db.board q).queue = q := rfl

/-- A scan on the board is a row. -/
theorem has_board {x d : Id} {st : ScanStatus} :
    (db.board q).Has x d st ↔
      ∃ row, db.scans.get x = some row ∧ row.domainId = d ∧ row.status = st := by
  simp [Board.Has, board]

theorem has_board_of_get {x : Id} {row : Scan} (h : db.scans.get x = some row) :
    (db.board q).Has x row.domainId row.status :=
  has_board.2 ⟨row, h, rfl, rfl⟩

theorem board_scans_eq_none {x : Id} :
    (db.board q).scans x = none ↔ db.scans.get x = none := by
  simp [board]

/-- The rows of a domain with a status are the scans that the board has with it. -/
theorem exists_mem_scansOf {d : Id} {p : ScanStatus → Prop} :
    (∃ row ∈ db.scansOf d, p row.status) ↔ ∃ x st, (db.board q).Has x d st ∧ p st := by
  constructor
  · rintro ⟨row, hrow, hp⟩
    obtain ⟨hmem, hd⟩ : row ∈ db.scans ∧ row.domainId = d := by
      simpa [scansOf, Table.mem_rows] using hrow
    exact ⟨row.id, row.status, has_board.2 ⟨row, Table.get_key hmem, hd, rfl⟩, hp⟩
  · rintro ⟨x, st, h, hp⟩
    obtain ⟨row, hrow, hd, rfl⟩ := has_board.1 h
    have hmem : row ∈ db.scans.rows := Table.mem_of_get hrow
    exact ⟨row, by simp [scansOf, hmem, hd], hp⟩

/-! ### Queries on the board -/

/-- The guard finds a scan exactly if the domain has a RUNNING one. -/
theorem runningScan_isSome {d : Id} :
    (db.runningScan d).isSome ↔ ∃ x, (db.board q).Has x d .running := by
  have h : (∃ row ∈ db.scansOf d, row.status = .running) ↔
      ∃ x st, (db.board q).Has x d st ∧ st = .running :=
    exists_mem_scansOf (p := (· = .running))
  rw [runningScan, Option.isSome_map, List.find?_isSome]
  simpa using h

/-- The check finds a scan exactly if the domain has an active one. -/
theorem activeScan_isSome {d : Id} :
    (db.activeScan d).isSome ↔ ∃ x, (db.board q).HasActive x d := by
  have h : (∃ row ∈ db.scansOf d, row.status.IsActive) ↔
      ∃ x st, (db.board q).Has x d st ∧ st.IsActive := exists_mem_scansOf
  rw [activeScan, Option.isSome_map, List.find?_isSome]
  simpa [Board.HasActive] using h

/-- The oldest PENDING scans are PENDING scans of the domain. -/
theorem mem_oldestPending {d : Id} {row : Scan} (h : row ∈ db.oldestPending d) :
    row ∈ db.scans ∧ row.domainId = d ∧ row.status = .pending := by
  simp only [oldestPending, scansOf, List.mem_filter, decide_eq_true_eq, Table.mem_rows] at h
  exact ⟨h.1.1.1, h.1.1.2, h.1.2⟩

/-- No PENDING scan of the domain is older. -/
theorem le_of_mem_oldestPending {d : Id} {row row' : Scan} (h : row ∈ db.oldestPending d)
    (hrow' : row' ∈ db.scans) (hd : row'.domainId = d) (hst : row'.status = .pending) :
    row.createdAt ≤ row'.createdAt := by
  rw [oldestPending, List.mem_filter, decide_eq_true_eq] at h
  refine h.2 row' (List.mem_filter.2 ⟨List.mem_filter.2 ⟨Table.mem_rows.2 hrow', ?_⟩, ?_⟩)
  · exact decide_eq_true hd
  · exact decide_eq_true hst

/-- If a domain has a PENDING scan, one of them is the oldest. -/
theorem oldestPending_ne_nil {d : Id} {row : Scan} (hrow : row ∈ db.scansOf d)
    (hst : row.status = .pending) : db.oldestPending d ≠ [] := by
  have hmem : row ∈ (db.scansOf d).filter fun s ↦ s.status = .pending := by simp [hrow, hst]
  obtain ⟨oldest, holdest⟩ := Option.ne_none_iff_exists'.1 fun h ↦
    List.ne_nil_of_mem hmem (List.argmin_eq_none (f := Scan.createdAt) |>.1 h)
  refine List.ne_nil_of_mem (a := oldest) ?_
  rw [oldestPending, List.mem_filter]
  refine ⟨List.argmin_mem holdest, ?_⟩
  simp only [decide_eq_true_eq]
  exact fun s' hs' ↦ List.le_of_mem_argmin hs' holdest

/-- The next scan is a PENDING one of the domain. -/
theorem has_of_nextPending {d y : Id} {pick : ℕ} (h : db.nextPending d pick = some y) :
    (db.board q).Has y d .pending := by
  obtain ⟨row, hrow, rfl⟩ := Option.map_eq_some_iff.1 h
  obtain ⟨hmem, hd, hst⟩ := mem_oldestPending (List.mem_of_getElem? hrow)
  exact has_board.2 ⟨row, Table.get_key hmem, hd, hst⟩

/-- If there is no next scan, no scan of the domain is PENDING. -/
theorem not_has_of_nextPending {d : Id} {pick : ℕ} (h : db.nextPending d pick = none) (x : Id) :
    ¬ (db.board q).Has x d .pending := by
  intro hx
  obtain ⟨row, hrow, hst⟩ := (exists_mem_scansOf (p := (· = .pending))).2 ⟨x, _, hx, rfl⟩
  have hne := oldestPending_ne_nil hrow hst
  rw [nextPending, Option.map_eq_none_iff, List.getElem?_eq_none_iff] at h
  have hlt := Nat.mod_lt pick (List.length_pos_iff.2 hne)
  omega

/-- The scans that a recovery resets are the RUNNING ones. -/
theorem mem_runningScans {x : Id} :
    x ∈ db.runningScans.map Scan.id ↔ ∃ d, (db.board q).Has x d .running := by
  simp only [List.mem_map, runningScans, List.mem_filter, decide_eq_true_eq, has_board]
  constructor
  · rintro ⟨row, ⟨hmem, hst⟩, rfl⟩
    exact ⟨row.domainId, row, Table.get_key hmem, rfl, hst⟩
  · rintro ⟨d, row, hrow, -, hst⟩
    exact ⟨row, ⟨Table.mem_of_get hrow, hst⟩, Table.key_of_get hrow⟩

/-- The scans that a recovery publishes are the active ones. -/
theorem mem_recoverableIds {x : Id} :
    x ∈ db.recoverableIds ↔ ∃ d, (db.board q).HasActive x d := by
  simp only [recoverableIds, List.mem_map, List.mem_filter, decide_eq_true_eq, Board.HasActive,
    has_board]
  constructor
  · rintro ⟨row, ⟨hmem, hst⟩, rfl⟩
    exact ⟨row.domainId, row.status, ⟨row, Table.get_key hmem, rfl, rfl⟩, hst⟩
  · rintro ⟨d, st, ⟨row, hrow, -, rfl⟩, hst⟩
    exact ⟨row, ⟨Table.mem_of_get hrow, hst⟩, Table.key_of_get hrow⟩

/-! ### Statements on the board -/

theorem writeAll_nil {now : Time} {db' : Database} (h : db.writeAll now [] = .ok db') :
    db' = db :=
  (Except.ok.inj h).symm

/-- A transaction carries out its first statement and then the others. -/
theorem writeAll_cons {now : Time} {w : Write} {ws : List Write} {db' : Database}
    (h : db.writeAll now (w :: ws) = .ok db') :
    ∃ db₁, db.write now w = .ok db₁ ∧ db₁.writeAll now ws = .ok db' := by
  rw [writeAll] at h
  split at h
  · next db₁ h₁ => exact ⟨db₁, h₁, h⟩
  · exact absurd h (by simp)

/-- A new domain has no scans. -/
theorem board_insertDomain {now : Time} {d user : Id} {name : String} {st : DomainStatus}
    {db' : Database} (h : db.write now (.insertDomain d name st user) = .ok db') :
    db'.board q = db.board q := by
  simp only [write] at h
  split at h
  · exact absurd h (by simp)
  · split at h
    · rw [← Except.ok.inj h]
      rfl
    · exact absurd h (by simp)

/-- The id of a new scan was free. -/
theorem board_insertScan {now : Time} {x d : Id} {user : Option Id} {db' : Database}
    (h : db.write now (.insertScan x d .pending user) = .ok db') :
    (db.board q).scans x = none ∧ db'.board q = (db.board q).addScan x d := by
  simp only [write] at h
  split at h
  · next hfree =>
    refine ⟨board_scans_eq_none.2 hfree.1, ?_⟩
    rw [← Except.ok.inj h]
    ext1
    · funext y
      simp only [board, Board.addScan, insertScan, Table.get_insert]
      by_cases hy : x = y
      · simp [hy]
      · simp [hy, Ne.symm hy]
    · rfl
  · exact absurd h (by simp)

/-- Assets are not on the board. -/
theorem board_insertAsset {now : Time} {a x d : Id} {type : AssetType} {value : String}
    {db' : Database} (h : db.write now (.insertAsset a x d type value) = .ok db') :
    db'.board q = db.board q := by
  simp only [write] at h
  split at h
  · exact absurd h (by simp)
  · split at h
    · rw [← Except.ok.inj h]
      rfl
    · exact absurd h (by simp)

/-- The status of a domain is not on the board. -/
theorem board_updateDomain {now : Time} {d : Id} {st : DomainStatus} {db' : Database}
    (h : db.write now (.updateDomain d st) = .ok db') : db'.board q = db.board q := by
  simp only [write] at h
  split at h
  · rw [← Except.ok.inj h]
    rfl
  · exact absurd h (by simp)

/-- Of the columns of a scan only its status is on the board. -/
theorem board_updateScan {now : Time} {x : Id} {p : ScanPatch} {db' : Database}
    (h : db.write now (.updateScan x p) = .ok db') :
    db'.board q = (db.board q).setScan x p.status := by
  simp only [write] at h
  split at h
  · rw [← Except.ok.inj h]
    cases hp : p.status with
    | none =>
      ext1
      · funext y
        simp only [board, updateScan, Table.get_modify, Board.setScan]
        split
        · cases db.scans.get y <;> simp [hp]
        · rfl
      · rfl
    | some st =>
      ext1
      · funext y
        simp only [board, updateScan, Table.get_modify, Board.setScan]
        split
        · cases db.scans.get y <;> simp [hp]
        · rfl
      · rfl
  · exact absurd h (by simp)

/-- With a domain its scans disappear. -/
theorem board_deleteDomain {now : Time} {d : Id} {db' : Database}
    (h : db.write now (.deleteDomain d) = .ok db') :
    db'.board q = (db.board q).dropDomain d := by
  rw [← Except.ok.inj h]
  ext1
  · funext y
    simp only [board, deleteDomain, Table.get_filter, Board.dropDomain]
    cases db.scans.get y with
    | none => rfl
    | some row => by_cases hd : row.domainId = d <;> simp [Option.filter, hd]
  · rfl

end Database

/-- The board of the shared state. -/
def Store.board (s : Store) : Board :=
  s.db.board s.queue

end AssetDiscovery
