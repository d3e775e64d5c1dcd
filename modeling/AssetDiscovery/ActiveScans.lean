import AssetDiscovery.Locks

/-!
# One active scan per domain

`trigger_manual_scan` checks for an active scan and inserts the new one under the row lock of the
domain, so two triggers cannot both pass the check. Two other statements make a scan active without
a check: the insertion of the initial scan, in a transaction of its own after the domain is already
visible, and `mark_scan_running`, which writes RUNNING whatever the row holds by then. Either of
them can give a domain a second active scan (`not_oneActive`).

They are the only ones: as long as the initial scan is inserted while its domain has no active scan,
and `mark_scan_running` finds its scan still active, every domain has at most one active scan
(`oneActive_of_checked`).
-/

set_option autoImplicit false

namespace AssetDiscovery

open Effect Phase

/-- Every domain has at most one scan that is PENDING or RUNNING. -/
def Database.OneActive (db : Database) : Prop :=
  ∀ x ∈ db.scans.rows, ∀ y ∈ db.scans.rows, x.domainId = y.domainId → x.status.IsActive →
    y.status.IsActive → x.id = y.id

instance (db : Database) : Decidable db.OneActive := by
  unfold Database.OneActive
  infer_instance

/-- Every domain of the board has at most one active scan. -/
def Board.OneActive (b : Board) : Prop :=
  ∀ x y d, b.HasActive x d → b.HasActive y d → x = y

/-- The board shows whether a domain has one active scan at most. -/
theorem Database.oneActive_of_board {db : Database} {q : List Message}
    (h : (db.board q).OneActive) : db.OneActive := by
  intro x hx y hy hd hxa hya
  refine h x.id y.id x.domainId ⟨x.status, ?_, hxa⟩ ⟨y.status, ?_, hya⟩
  · exact Database.has_board_of_get (Table.get_key hx)
  · rw [hd]
    exact Database.has_board_of_get (Table.get_key hy)

/-! ### What a move does to the active scans -/

/-- A process that may reset scans. -/
def Phase.Resets : Phase → Prop
  | recovering => True
  | resetting _ => True
  | _ => False

variable {o : Op} {b b' : Board} {v v' : Phase}

theorem Fault.not_resets (h : Fault v v') : ¬ v'.Resets :=
  h.cases_of (P := fun v ↦ ¬ v.Resets) id (fun _ _ ↦ id) (fun _ ↦ id) (fun _ _ ↦ id)
    fun _ _ _ ↦ id

/-- No move leads to a reset but that of a recovery. -/
theorem Move.not_resets (h : Move o b v b' v') (hgrounds : b.Grounds v) (hv : ¬ v.Resets) :
    ¬ v'.Resets := by
  cases h with
  | gone hgone => exact absurd hgrounds hgone
  | stay => exact hv
  | interrupted => exact absurd trivial hv
  | _ => exact id

/-- A scan that is active after a statement which makes no scan active was active before. -/
theorem Board.HasActive.of_setScan {x y d : Id} {st : Option ScanStatus}
    (hst : ∀ st' ∈ st, st'.IsActive → ∃ d, b.HasActive y d)
    (h : (b.setScan y st).HasActive x d) : b.HasActive x d := by
  cases st with
  | none => exact h
  | some st =>
    obtain ⟨st', hx, hactive⟩ := h
    rcases has_setScan_some.1 hx with ⟨rfl, rfl, st₀, hx⟩ | ⟨-, hx⟩
    · obtain ⟨d', st₁, hx', hst₁⟩ := hst _ rfl hactive
      obtain ⟨rfl, rfl⟩ := hx.unique hx'
      exact ⟨st₀, hx, hst₁⟩
    · exact ⟨st', hx, hactive⟩

/-- A move that inserts no scan and does not mark a finished one makes no scan active. -/
theorem Move.hasActive (h : Move o b v b' v') (hgrounds : b.Grounds v) (hresets : ¬ v.Resets)
    (hcreate : ∀ d x ws, o ≠ .commit (.createScan d x) ws)
    (haccept : ∀ d x ws, o ≠ .commit (.triggerManualScan d x) ws)
    (hmark : ∀ x ws, o = .commit (.markScanRunning x) ws → ∃ d, b.HasActive x d) {x d : Id}
    (hx : b'.HasActive x d) : b.HasActive x d := by
  have hfinal : ∀ {st new st' : ScanStatus}, ¬ new.IsActive → st' ∈ change st new →
      ¬ st'.IsActive := by
    intro st new st' hnew hst'
    unfold change at hst'
    split at hst'
    · exact absurd hst' (by simp)
    · rwa [← Option.some.inj hst']
  cases h with
  | gone hgone => exact absurd hgrounds hgone
  | create => exact absurd rfl (hcreate _ _ _)
  | accept => exact absurd rfl (haccept _ _ _)
  | reset => exact absurd trivial hresets
  | mark => exact hx.of_setScan fun _ _ _ ↦ hmark _ _ rfl
  | complete => exact hx.of_setScan fun st' hst' h ↦ absurd h (Option.some.inj hst' ▸ id)
  | fail => exact hx.of_setScan fun st' hst' h ↦ absurd h (hfinal id hst')
  | refail => exact hx.of_setScan fun st' hst' h ↦ absurd h (hfinal id hst')
  | _ => exact hx

/-! ### Runs -/

namespace World

/-- Only requests that create a domain or trigger a scan arrive, besides what workers do. -/
def Requests : Action → Prop
  | .start (.create _ _) => True
  | .start (.trigger _ _) => True
  | .start _ => False
  | _ => True

instance : DecidablePred Requests
  | .start (.create _ _) | .start (.trigger _ _) | .take _ | .duplicate _ | .perform _ _ =>
    instDecidableTrue
  | .start (.delete _) | .start .recover => instDecidableFalse

/-- Runs of requests and workers delete nothing. -/
theorem Requests.keeps {a : Action} (h : Requests a) : Keeps a := by
  cases a with
  | start r =>
    cases r with
    | delete d => exact absurd h id
    | _ => trivial
  | _ => trivial

/-- What the two unchecked statements would have to check: the initial scan is inserted while its
domain has no active scan, and `mark_scan_running` finds its scan still active. -/
def Checked (w : World) : Action → Prop
  | .perform i _ =>
    match w.asks i with
    | some (.commit (.createScan d _) _) => w.shared.db.activeScan d = none
    | some (.commit (.markScanRunning x) _) => ∃ row ∈ w.shared.db.scans.get x, row.status.IsActive
    | _ => True
  | _ => True

instance (w : World) : DecidablePred w.Checked
  | .start _ | .take _ | .duplicate _ => instDecidableTrue
  | .perform i _ => by
    delta Checked
    dsimp only
    generalize w.asks i = asked
    induction asked using Option.casesOn with
    | none => exact instDecidableTrue
    | some o =>
      induction o using Op.casesOn with
      | commit site =>
        induction site using Site.casesOn with
        | createScan d => exact inferInstanceAs (Decidable (w.shared.db.activeScan d = none))
        | markScanRunning x => exact inferInstanceAs
            (Decidable (∃ row ∈ w.shared.db.scans.get x, row.status.IsActive))
        | _ => exact instDecidableTrue
      | _ => exact instDecidableTrue

/-- The invariant: no domain has two active scans, and none at all while a trigger is between its
check and its commit. -/
structure Single (w : World) : Prop where
  sound : w.Sound
  locks : w.LockOwned
  noReset : ∀ v ∈ w.views, ¬ v.Resets
  oneActive : w.shared.board.OneActive
  cleared : ∀ (i : ℕ) (d : Id), w.views[i]? = some (Phase.cleared d) →
    ∀ x, ¬ w.shared.board.HasActive x d

variable {cfg : Settings} {u : Unicode}

/-- In an empty deployment no domain has a scan. -/
theorem single_boot : (boot .empty).Single where
  sound := sound_boot _
  locks := lockOwned_boot fun _ ↦ rfl
  noReset _ hv := absurd hv List.not_mem_nil
  oneActive _ _ _ hx := absurd hx nofun
  cleared _ _ hv := absurd hv nofun

/-- An action that makes no scan active, after which every check that has passed was passed before
or has just been made, keeps the invariant. -/
theorem Single.of_le {w w' : World} (h : w.Single) (hsound : w'.Sound) (hlocks : w'.LockOwned)
    (hnoReset : ∀ v ∈ w'.views, ¬ v.Resets)
    (hle : ∀ x d, w'.shared.board.HasActive x d → w.shared.board.HasActive x d)
    (hcleared : ∀ (i : ℕ) (d : Id), w'.views[i]? = some (Phase.cleared d) →
      w.views[i]? = some (Phase.cleared d) ∨ ∀ x, ¬ w.shared.board.HasActive x d) : w'.Single where
  sound := hsound
  locks := hlocks
  noReset := hnoReset
  oneActive x y d hx hy := h.oneActive x y d (hle x d hx) (hle y d hy)
  cleared i d hi x hx := by
    rcases hcleared i d hi with hi | hnone
    · exact h.cleared i d hi x (hle x d hx)
    · exact hnone x (hle x d hx)

/-- Inserting a scan keeps the invariant if its domain has no active scan and no other process is
between its check and its commit. -/
theorem Single.insert {w w' : World} (h : w.Single) (hsound : w'.Sound) (hlocks : w'.LockOwned)
    (hnoReset : ∀ v ∈ w'.views, ¬ v.Resets) {x d : Id} (hx : w.shared.board.scans x = none)
    (hboard : w'.shared.board = w.shared.board.addScan x d)
    (hnone : ∀ y, ¬ w.shared.board.HasActive y d)
    (hcleared : ∀ (i : ℕ) (d' : Id), w'.views[i]? = some (Phase.cleared d') →
      w.views[i]? = some (Phase.cleared d') ∧ d' ≠ d) : w'.Single := by
  -- the board has gained this one scan only
  have hactive : ∀ {y d'}, w'.shared.board.HasActive y d' →
      (y = x ∧ d' = d) ∨ w.shared.board.HasActive y d' := by
    rintro y d' ⟨st, hy, hst⟩
    rw [hboard] at hy
    rcases (Board.has_addScan hx).1 hy with ⟨rfl, rfl, -⟩ | hy
    · exact Or.inl ⟨rfl, rfl⟩
    · exact Or.inr ⟨st, hy, hst⟩
  refine ⟨hsound, hlocks, hnoReset, fun y z d' hy hz ↦ ?_, fun i d' hi y hy ↦ ?_⟩
  -- two active scans of one domain: if one is new, the other would contradict `hnone`
  · rcases hactive hy with ⟨rfl, rfl⟩ | hy'
    · rcases hactive hz with ⟨rfl, -⟩ | hz'
      · rfl
      · exact absurd hz' (hnone z)
    · rcases hactive hz with ⟨-, rfl⟩ | hz'
      · exact absurd hy' (hnone y)
      · exact h.oneActive y z d' hy' hz'
  -- a process past its check is on another domain, where nothing is new
  · obtain ⟨hi, hne⟩ := hcleared i d' hi
    rcases hactive hy with ⟨-, rfl⟩ | hy
    · exact hne rfl
    · exact h.cleared i d' hi y hy

/-- While a process inserts a scan of a domain, no other one has passed the check: it would hold the
row lock that the insertion waits for. -/
theorem LockOwned.not_cleared {w : World} (h : w.LockOwned) {i j : ℕ} (hij : j ≠ i) {x d : Id}
    {user : Option Id} {ws : List Write}
    (hwaits : ¬ w.shared.Waits i (.insertScan x d .pending user :: ws)) :
    w.views[j]? ≠ some (Phase.cleared d) := by
  intro hj
  refine hwaits ⟨_, List.mem_cons_self, d, List.mem_cons_self, j, ?_, hij⟩
  exact h.held j _ hj d rfl

/-- A commit that inserts a scan of a domain without active scans keeps the invariant. -/
theorem Single.commit {w w' : World} (h : w.Single) (hsound : w'.Sound) (hlocks : w'.LockOwned)
    (hnoReset : ∀ v ∈ w'.views, ¬ v.Resets) {i : ℕ} {e : Env} {v : Phase} {d x : Id}
    {site : Site} {ws : List Write} {r : Except DbError Unit}
    (hsite : site = .createScan d x ∨ site = .triggerManualScan d x)
    (hcommits : v.Commits site ws)
    (hserve : serve i (.commit site ws) e w.shared = some (r, w'.shared))
    (hnot : ¬ Op.Failed (.commit site ws) r)
    (hviews : w'.views = w.views.set i (v.observe (.commit site ws) r))
    (hnone : ∀ y, ¬ w.shared.board.HasActive y d) : w'.Single := by
  obtain ⟨hqueue, ⟨⟨err, rfl⟩, -⟩ | ⟨rfl, hwaits, now, hdb⟩⟩ := serve_commit hserve
  · exact absurd rfl hnot
  -- after either commit the request has the scan to announce
  have hv' : v.observe (.commit site ws) (.ok ()) = .announcing d x := by
    rcases hsite with rfl | rfl
    · cases hcommits
      rfl
    · cases hcommits
      rfl
  obtain ⟨hfree, hboard, user, rest, rfl⟩ := board_of_insertScan (q := w.shared.queue)
    (hsite.imp (fun hsite ↦ hsite ▸ hcommits) fun hsite ↦ hsite ▸ hcommits) hdb
  refine h.insert hsound hlocks hnoReset hfree ?_ hnone fun j d' hj ↦ ?_
  · rw [Store.board, hqueue]
    exact hboard
  -- whoever has passed the check on this domain would hold the lock the insertion waits for
  · rw [hviews, hv'] at hj
    rcases getElem?_set_view hj with ⟨-, hnew⟩ | ⟨hji, hold⟩
    · exact absurd hnew (by simp)
    · refine ⟨hold, ?_⟩
      rintro rfl
      exact h.locks.not_cleared hji hwaits hold

/-- A step that finds what a check would keeps one active scan at most. -/
theorem Single.act {w w' : World} {a : Action} (h : w.Single) (hreq : Requests a)
    (hok : w.Checked a) (ha : w.act cfg u a = some w') : w'.Single := by
  obtain ⟨hsound, htrans⟩ := h.sound.act hreq.keeps ha
  have hlocks := h.locks.act h.sound hreq.keeps ha
  cases htrans with
  -- a request that starts changes no row, and none starts past its check
  | @start r _ hshared hviews =>
    have hr : ¬ r.phase.Resets ∧ ∀ d, r.phase ≠ .cleared d := by
      cases r with
      | recover => exact absurd hreq id
      | _ => exact ⟨id, nofun⟩
    refine h.of_le hsound hlocks (fun v hv ↦ ?_) (fun x d ↦ by rw [hshared]; exact id)
      fun i d hi ↦ ?_
    · rw [hviews] at hv
      rcases List.mem_append.1 hv with hv | hv
      · exact h.noReset v hv
      · rw [List.mem_singleton.1 hv]
        exact hr.1
    · rw [hviews] at hi
      rcases getElem?_append_view hi with hi | hi
      · exact Or.inl hi
      · exact absurd hi.symm (hr.2 d)
  -- nor does a worker that takes a message
  | take hm hshared hviews =>
    refine h.of_le hsound hlocks (fun v hv ↦ ?_) (fun x d ↦ by rw [hshared]; exact id)
      fun i d hi ↦ ?_
    · rw [hviews] at hv
      rcases List.mem_append.1 hv with hv | hv
      · exact h.noReset v hv
      · rw [List.mem_singleton.1 hv]
        exact id
    · rw [hviews] at hi
      rcases getElem?_append_view hi with hi | hi
      · exact Or.inl hi
      · exact absurd hi nofun
  | duplicate hm hshared hviews =>
    refine h.of_le hsound hlocks (fun v hv ↦ ?_) (fun x d ↦ by rw [hshared]; exact id)
      fun i d hi ↦ ?_
    · rw [hviews] at hv
      exact h.noReset v hv
    · rw [hviews] at hi
      exact Or.inl hi
  -- the two insertions need an argument; every other move creates no active scan
  | @perform i e v o r _ hi hasks hallowed hserve hviews =>
    have hv := h.sound.grounded v (List.mem_of_getElem? hi)
    have hvreset := h.noReset v (List.mem_of_getElem? hi)
    have hnoReset : ∀ {v'}, ¬ v'.Resets → w'.views = w.views.set i v' →
        ∀ v ∈ w'.views, ¬ v.Resets := by
      intro v' hv' hviews u hu
      rw [hviews] at hu
      rcases List.mem_or_eq_of_mem_set hu with hu | rfl
      · exact h.noReset u hu
      · exact hv'
    rcases serve_move hallowed hserve with ⟨-, hboard, hfault⟩ | ⟨hnot, hmove⟩
    · refine h.of_le hsound hlocks (hnoReset hfault.not_resets hviews)
        (fun x d ↦ by rw [hboard]; exact id) fun j d hj ↦ ?_
      rw [hviews] at hj
      rcases getElem?_set_view hj with ⟨-, hv'⟩ | ⟨-, hj⟩
      · rw [← hv'] at hfault
        exact absurd rfl (hfault.not_locks (d := d))
      · exact Or.inl hj
    · have hnoReset := hnoReset (hmove.not_resets hv hvreset) hviews
      -- `create_scan` inserts unchecked, and `Checked` says that it finds no active scan
      by_cases hcreate : ∃ d x ws, o = .commit (.createScan d x) ws
      · obtain ⟨d, x, ws, rfl⟩ := hcreate
        obtain - | - | hcommits := hallowed
        refine h.commit hsound hlocks hnoReset (Or.inl rfl) hcommits hserve hnot hviews
          fun y hy ↦ ?_
        simp only [Checked, hasks] at hok
        have hsome := Database.activeScan_isSome.2 ⟨y, hy⟩
        rw [hok] at hsome
        exact absurd hsome (by simp)
      -- `trigger_manual_scan` has checked under the lock, which the invariant remembers
      by_cases haccept : ∃ d x ws, o = .commit (.triggerManualScan d x) ws
      · obtain ⟨d, x, ws, rfl⟩ := haccept
        obtain - | - | hcommits := hallowed
        refine h.commit hsound hlocks hnoReset (Or.inr rfl) hcommits hserve hnot hviews ?_
        cases hcommits with
        | triggerManualScan => exact h.cleared i d hi
      refine h.of_le hsound hlocks hnoReset (fun x d ↦ hmove.hasActive hv hvreset
        (fun d x ws ho ↦ hcreate ⟨d, x, ws, ho⟩) (fun d x ws ho ↦ haccept ⟨d, x, ws, ho⟩) ?_)
        fun j d hj ↦ ?_
      -- the third way to an active scan is `mark_scan_running`, of a scan still active
      · rintro x ws rfl
        simp only [Checked, hasks] at hok
        obtain ⟨row, hrow, hactive⟩ := hok
        exact ⟨row.domainId, (Database.has_board_of_get hrow).active hactive⟩
      · rw [hviews] at hj
        rcases getElem?_set_view hj with ⟨rfl, hv'⟩ | ⟨-, hj⟩
        · rw [← hv'] at hmove
          rcases hmove.cleared hv with rfl | ⟨-, hnone⟩
          · exact Or.inl hi
          · exact Or.inr hnone
        · exact Or.inl hj

/-- **One active scan per domain**, in every run of requests and workers in which the two unchecked
statements find what a check would have to find. -/
theorem oneActive_of_checked (cfg : Settings) (u : Unicode) {w : World}
    (h : Reach cfg u (fun w a ↦ Requests a ∧ w.Checked a) (boot .empty) w) :
    w.shared.db.OneActive := by
  have hsingle : w.Single := h.invariant (fun _ _ _ hw hok ha ↦ hw.act hok.1 hok.2 ha) single_boot
  exact Database.oneActive_of_board hsingle.oneActive

/-- A domain is created and scanned, and a second scan is triggered. -/
def triggerAfterScan : List Action :=
  .start (.create "a.b" 7) :: performs 0 13 ++ .take 0 :: performs 1 23 ++
    .start (.trigger 0 7) :: performs 2 8

theorem oneActive_of_checked_triggerAfterScan :
    ∃ w, Reach {} .plain (fun w a ↦ Requests a ∧ w.Checked a) (boot .empty) w ∧
      w.shared.db.scans.rows.map Scan.status = [.completed, .pending] ∧ w.shared.db.OneActive := by
  obtain ⟨w, hreach, hrows⟩ := Runs.exists_reach (act {} .plain)
    (fun w a ↦ Requests a ∧ w.Checked a)
    (fun w ↦ w.shared.db.scans.rows.map Scan.status = [.completed, .pending]) (s := boot .empty)
    triggerAfterScan (by decide +kernel)
  exact ⟨w, hreach, hrows, oneActive_of_checked {} .plain hreach⟩

/-- A scan is triggered between the two commits of `create_domain`, before the initial scan. -/
def triggerDuringCreate : List Action :=
  .start (.create "a.b" 7) :: performs 0 5 ++ .start (.trigger 0 7) :: performs 1 8 ++
    performs 0 8

/-- Without the checks a domain can have two PENDING scans, although nothing fails. -/
theorem not_oneActive :
    ¬ ∀ w, Reach {} .plain (fun w a ↦ Requests a ∧ w.Succeeds a) (boot .empty) w →
      w.shared.db.OneActive := by
  intro h
  obtain ⟨w, hreach, htwo⟩ := Runs.exists_reach (act {} .plain)
    (fun w a ↦ Requests a ∧ w.Succeeds a)
    (fun w ↦ ¬ w.shared.db.OneActive) (s := boot .empty) triggerDuringCreate (by decide +kernel)
  exact htwo (h w hreach)

-- The other statement: a worker marks a scan that another worker has completed since it was
-- loaded, after a second scan was triggered.
example : (Runs.replay (act {} .plain) (fun w a ↦ Requests a ∧ w.Succeeds a)
    (.start (.create "a.b" 7) :: performs 0 13 ++ .duplicate 0 :: .take 0 :: .take 0 ::
      performs 1 3 ++ performs 2 23 ++ .start (.trigger 0 7) :: performs 3 8 ++
      performs 1 2) (boot .empty)).any fun w ↦
    w.shared.db.scans.rows.map Scan.status = [.running, .pending] := by
  decide +kernel

end World

end AssetDiscovery
