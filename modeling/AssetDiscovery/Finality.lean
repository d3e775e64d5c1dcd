import AssetDiscovery.World

/-!
# COMPLETED and FAILED are final, as long as nobody interferes

Every statement that writes a status is unconditional: `mark_scan_running` after a guard that read
the status earlier, the two final statuses at the end of a job, and the reset of the RUNNING scans
that a starting process has loaded. What finishes a scan under one of them, or runs it twice, makes
it overwrite a final status; so does the catch-all handler when the publish after COMPLETED fails
(`not_final`).

`Uncontested` says that this does not happen. In runs whose steps are uncontested no step changes
the status of a finished scan (`final_of_uncontested`): a worker past `mark_scan_running` is alone
with its scan, which stays active until the worker's own final commit.
-/

set_option autoImplicit false

namespace AssetDiscovery

open Effect Phase

/-- A process in this phase is past `mark_scan_running` of `x` and before its last status commit. -/
def Phase.Discovers : Phase → Id → Prop
  | running y _ _ _, x => y = x
  | _, _ => False

instance (v : Phase) (x : Id) : Decidable (v.Discovers x) := by
  induction v using Phase.casesOn with
  | running y => exact instDecidableEqNat y x
  | _ => exact instDecidableFalse

/-- The publish after COMPLETED failed, and the catch-all handler has taken over. -/
def Phase.Faulted : Phase → Prop
  | faulted _ _ _ => True
  | _ => False

/-- Every scan that is COMPLETED or FAILED in `db` has the same status in `db'`. -/
def Database.KeepsFinished (db db' : Database) : Prop :=
  ∀ row ∈ db.scans.rows, ¬ row.status.IsActive →
    ∃ row' ∈ db'.scans.rows, row'.id = row.id ∧ row'.status = row.status

instance (db db' : Database) : Decidable (db.KeepsFinished db') := by
  unfold Database.KeepsFinished
  infer_instance

/-! ### What a move does to finished scans -/

variable {o : Op} {b b' : Board} {v v' : Phase} {x d : Id} {st : ScanStatus}

/-- A finished scan is not active. -/
theorem Board.Has.not_active (h : b.Has x d st) (hst : ¬ st.IsActive) (d' : Id) :
    ¬ b.HasActive x d' := by
  rintro ⟨st', h', hst'⟩
  obtain ⟨-, rfl⟩ := h.unique h'
  exact hst hst'

theorem Board.Has.setScan_of_ne (h : b.Has x d st) {y : Id} (hne : x ≠ y)
    (st' : Option ScanStatus) : (b.setScan y st').Has x d st := by
  cases st' with
  | none => exact h
  | some st' => exact Board.has_setScan_some.2 (Or.inr ⟨hne, h⟩)

/-- A move leaves a finished scan as it is, if the scans that its statement writes are active. -/
theorem Move.finished (h : Move o b v b' v') (hgrounds : b.Grounds v) (hfaulted : ¬ v.Faulted)
    (hdiscovers : ∀ x, v.Discovers x → ∃ d, b.HasActive x d)
    (hclaiming : ∀ x r d st site ws, v = .claiming x r d st → o = .commit site ws →
      ∃ d, b.HasActive x d)
    (hresetting : ∀ xs site ws, v = .resetting xs → o = .commit site ws →
      ∀ x ∈ xs, ∃ d, b.HasActive x d)
    (hx : b.Has x d st) (hst : ¬ st.IsActive) : b'.Has x d st := by
  -- a status write of an active scan does not reach a finished one
  have hwrite : ∀ {y : Id} (st' : Option ScanStatus), (∃ d, b.HasActive y d) →
      (b.setScan y st').Has x d st := by
    rintro y st' ⟨d', hy⟩
    refine hx.setScan_of_ne ?_ st'
    rintro rfl
    exact hx.not_active hst d' hy
  cases h with
  | gone hgone => exact absurd hgrounds hgone
  | create hfree => exact (Board.has_addScan hfree).2 (Or.inr hx)
  | accept hfree => exact (Board.has_addScan hfree).2 (Or.inr hx)
  -- `reset_interrupted_scans` writes the scans of its list, all active by hypothesis
  | @reset _ xs =>
    refine Board.has_reset.2 (Or.inr ⟨fun hmem ↦ ?_, hx⟩)
    obtain ⟨d', hactive⟩ := hresetting xs _ _ rfl rfl x hmem
    exact hx.not_active hst d' hactive
  | mark => exact hwrite _ (hclaiming _ _ _ _ _ _ rfl rfl)
  | complete => exact hwrite _ (hdiscovers _ rfl)
  | fail => exact hwrite _ (hdiscovers _ rfl)
  -- the handler after a failed publish would write FAILED over COMPLETED
  | refail => exact absurd trivial hfaulted
  | _ => exact hx

/-- An active scan stays active in every move but the last status commit of a worker that discovers
it. -/
theorem Move.active (h : Move o b v b' v') (hgrounds : b.Grounds v) (hfaulted : ¬ v.Faulted)
    (hx : b.HasActive x d) (hv : v.Discovers x → v'.Discovers x) : b'.HasActive x d := by
  obtain ⟨st, hhas, hst⟩ := hx
  cases h with
  | gone hgone => exact absurd hgrounds hgone
  | create hfree => exact ⟨st, (Board.has_addScan hfree).2 (Or.inr hhas), hst⟩
  | accept hfree => exact ⟨st, (Board.has_addScan hfree).2 (Or.inr hhas), hst⟩
  | @reset _ xs =>
    by_cases hmem : x ∈ xs
    · exact ⟨.pending, Board.has_reset.2 (Or.inl ⟨hmem, rfl, st, hhas⟩), trivial⟩
    · exact ⟨st, Board.has_reset.2 (Or.inr ⟨hmem, hhas⟩), hst⟩
  -- `mark_scan_running` leaves RUNNING behind, whatever it found
  | @mark _ y r dy st' =>
    by_cases hxy : x = y
    · subst hxy
      rcases eq_or_ne st' .running with rfl | hst'
      · rw [change_self]
        exact ⟨st, hhas, hst⟩
      · rw [change_of_ne hst']
        exact ⟨.running, Board.has_setScan_some.2 (Or.inl ⟨rfl, rfl, st, hhas⟩), trivial⟩
    · exact ⟨st, hhas.setScan_of_ne hxy _, hst⟩
  -- a final status ends the scan that the worker discovered, which is another one by `hv`
  | complete => exact ⟨st, hhas.setScan_of_ne (fun hxy ↦ hv hxy.symm) _, hst⟩
  | fail => exact ⟨st, hhas.setScan_of_ne (fun hxy ↦ hv hxy.symm) _, hst⟩
  | refail => exact absurd trivial hfaulted
  | _ => exact ⟨st, hhas, hst⟩

/-- A worker comes to discover a scan only by `mark_scan_running`. -/
theorem Move.discovers (h : Move o b v b' v') (hgrounds : b.Grounds v) (hv' : v'.Discovers x) :
    v.Discovers x ∨ ∃ r d st site ws, v = .claiming x r d st ∧ o = .commit site ws := by
  cases h with
  | gone hgone => exact absurd hgrounds hgone
  | stay | reload | expire => exact Or.inl hv'
  | mark => exact Or.inr ⟨_, _, _, _, _, by rw [← hv'], rfl⟩
  | _ => exact absurd hv' id

/-- After an operation has failed, nothing is being discovered. -/
theorem Fault.not_discovers (h : Fault v v') : ¬ v'.Discovers x :=
  h.cases_of (P := fun v ↦ ¬ v.Discovers x) id (fun _ _ ↦ id) (fun _ ↦ id) (fun _ _ ↦ id)
    fun _ _ _ ↦ id

/-- The catch-all handler takes over a finished job only from the publish of the body. -/
theorem Fault.faulted (h : Fault v v') (hv' : v'.Faulted) :
    ∃ x d snap y, v = .handing x d snap false y := by
  rcases h.result with rfl | ⟨d, x, rfl⟩ | ⟨d, rfl⟩ | ⟨x, d, rfl⟩ | ⟨x, d, snap, y, rfl, -⟩
  · exact absurd hv' id
  · exact absurd hv' id
  · exact absurd hv' id
  · exact absurd hv' id
  · exact ⟨x, d, snap, y, rfl⟩

/-- No operation that succeeds leads to the handler of the failed publish. -/
theorem Move.not_faulted (h : Move o b v b' v') (hgrounds : b.Grounds v) (hv : ¬ v.Faulted) :
    ¬ v'.Faulted := by
  cases h with
  | gone hgone => exact absurd hgrounds hgone
  | stay => exact hv
  | _ => exact id

/-! ### Runs -/

namespace World

/-- Scan `x` is stored, and PENDING or RUNNING. -/
def ActiveScan (w : World) (x : Id) : Prop :=
  ∃ row ∈ w.shared.db.scans.get x, row.status.IsActive

instance (w : World) (x : Id) : Decidable (w.ActiveScan x) :=
  inferInstanceAs (Decidable (∃ row ∈ w.shared.db.scans.get x, row.status.IsActive))

theorem ActiveScan.hasActive {w : World} {x : Id} (h : w.ActiveScan x) :
    ∃ d, w.shared.board.HasActive x d := by
  obtain ⟨row, hrow, hactive⟩ := h
  exact ⟨row.domainId, (Database.has_board_of_get hrow).active hactive⟩

/-- Nobody interferes with the scans that this action writes: `mark_scan_running` finds its scan
active and no other worker past its own `mark_scan_running` of it, a reset finds the scans that were
loaded for it still active, and the publish after COMPLETED does not fail. -/
def Uncontested (w : World) : Action → Prop
  | .perform i e =>
    match w.views[i]?, w.asks i with
    | some (.claiming x _ _ _), some (.commit _ _) =>
      w.ActiveScan x ∧ ∀ v ∈ w.views, ¬ v.Discovers x
    | some (.resetting xs), some (.commit _ _) => ∀ x ∈ xs, w.ActiveScan x
    | some (.handing _ _ _ false _), some (.publish _) => w.Succeeds (.perform i e)
    | _, _ => True
  | _ => True

instance (w : World) : DecidablePred w.Uncontested
  | .start _ | .take _ | .duplicate _ => instDecidableTrue
  | .perform i e => by
    delta Uncontested
    dsimp only
    generalize w.views[i]? = phase, w.asks i = asked
    induction phase using Option.casesOn with
    | none => exact instDecidableTrue
    | some v =>
      induction v using Phase.casesOn with
      | claiming x =>
        induction asked using Option.casesOn with
        | none => exact instDecidableTrue
        | some o =>
          induction o using Op.casesOn with
          | commit => exact inferInstanceAs
              (Decidable (w.ActiveScan x ∧ ∀ v ∈ w.views, ¬ v.Discovers x))
          | _ => exact instDecidableTrue
      | resetting xs =>
        induction asked using Option.casesOn with
        | none => exact instDecidableTrue
        | some o =>
          induction o using Op.casesOn with
          | commit => exact inferInstanceAs (Decidable (∀ x ∈ xs, w.ActiveScan x))
          | _ => exact instDecidableTrue
      | handing x d snap handler y =>
        induction handler using Bool.casesOn with
        | true => exact instDecidableTrue
        | false =>
          induction asked using Option.casesOn with
          | none => exact instDecidableTrue
          | some o =>
            induction o using Op.casesOn with
            | publish => exact inferInstanceAs (Decidable (w.Succeeds (.perform i e)))
            | _ => exact instDecidableTrue
      | _ => exact instDecidableTrue

/-- The invariant: a worker past `mark_scan_running` is alone with its scan, which is active. -/
structure Alone (w : World) : Prop where
  sound : w.Sound
  alone : ∀ (i j : ℕ) (v v' : Phase) (x : Id), w.views[i]? = some v → w.views[j]? = some v' →
    v.Discovers x → v'.Discovers x → i = j
  active : ∀ v ∈ w.views, ∀ x, v.Discovers x → ∃ d, w.shared.board.HasActive x d
  noFault : ∀ v ∈ w.views, ¬ v.Faulted

variable {cfg : Settings} {u : Unicode}

theorem alone_boot (s : Store) : (boot s).Alone where
  sound := sound_boot s
  alone _ _ _ _ _ hi := absurd hi nofun
  active _ hv := absurd hv List.not_mem_nil
  noFault _ hv := absurd hv List.not_mem_nil

/-- A new process does not discover anything yet. -/
theorem Alone.append {w w' : World} (h : w.Alone) (hsound : w'.Sound) {v : Phase}
    (hscans : w'.shared.board.scans = w.shared.board.scans) (hviews : w'.views = w.views ++ [v])
    (hv : ∀ x, ¬ v.Discovers x) (hfault : ¬ v.Faulted) : w'.Alone := by
  -- the board is the same; only the list of processes has grown
  have hactive : ∀ {x d}, w.shared.board.HasActive x d → w'.shared.board.HasActive x d := by
    rintro x d ⟨st, hx, hst⟩
    exact ⟨st, by rwa [Board.Has, hscans], hst⟩
  refine ⟨hsound, fun i j a b x hi hj ha hb ↦ ?_, fun a ha x hx ↦ ?_, fun a ha ↦ ?_⟩
  · rw [hviews] at hi hj
    rcases getElem?_append_view hi with hi | rfl
    · rcases getElem?_append_view hj with hj | rfl
      · exact h.alone i j a b x hi hj ha hb
      · exact absurd hb (hv x)
    · exact absurd ha (hv x)
  · rw [hviews] at ha
    rcases List.mem_append.1 ha with ha | ha
    · obtain ⟨d, hd⟩ := h.active a ha x hx
      exact ⟨d, hactive hd⟩
    · rw [List.mem_singleton.1 ha] at hx
      exact absurd hx (hv x)
  · rw [hviews] at ha
    rcases List.mem_append.1 ha with ha | ha
    · exact h.noFault a ha
    · rw [List.mem_singleton.1 ha]
      exact hfault

/-- What `Uncontested` says of the statements that a process writes statuses with. -/
theorem Uncontested.claiming {w : World} {i : ℕ} {e : Env} (h : w.Uncontested (.perform i e))
    {x d : Id} {r : ℕ} {st : ScanStatus} {site : Site} {ws : List Write}
    (hi : w.views[i]? = some (.claiming x r d st)) (hasks : w.asks i = some (.commit site ws)) :
    w.ActiveScan x ∧ ∀ v ∈ w.views, ¬ v.Discovers x := by
  simpa only [Uncontested, hi, hasks] using h

theorem Uncontested.resetting {w : World} {i : ℕ} {e : Env} (h : w.Uncontested (.perform i e))
    {xs : List Id} {site : Site} {ws : List Write} (hi : w.views[i]? = some (.resetting xs))
    (hasks : w.asks i = some (.commit site ws)) : ∀ x ∈ xs, w.ActiveScan x := by
  simpa only [Uncontested, hi, hasks] using h

theorem Uncontested.handing {w : World} {i : ℕ} {e : Env} (h : w.Uncontested (.perform i e))
    {x d y : Id} {snap : Option ScanStatus} {m : Message}
    (hi : w.views[i]? = some (.handing x d snap false y)) (hasks : w.asks i = some (.publish m)) :
    w.Succeeds (.perform i e) := by
  simpa only [Uncontested, hi, hasks] using h

/-- A step of an uncontested run keeps the workers alone with their scans. -/
theorem Alone.act {w w' : World} {a : Action} (h : w.Alone) (hkeeps : Keeps a)
    (hok : w.Uncontested a) (ha : w.act cfg u a = some w') : w'.Alone := by
  obtain ⟨hsound, htrans⟩ := h.sound.act hkeeps ha
  cases htrans with
  | @start r _ hshared hviews =>
    exact h.append hsound (by rw [hshared]) hviews (fun x ↦ by cases r <;> exact id)
      (by cases r <;> exact id)
  | take hm hshared hviews =>
    exact h.append hsound (by rw [hshared]; rfl) hviews (fun x ↦ id) id
  | duplicate hm hshared hviews =>
    refine ⟨hsound, ?_, ?_, ?_⟩
    · rw [hviews]
      exact h.alone
    · rw [hviews, hshared]
      exact h.active
    · rw [hviews]
      exact h.noFault
  | @perform i e v o r _ hi hasks hallowed hserve hviews =>
    have hmem := List.mem_of_getElem? hi
    have hv := h.sound.grounded v hmem
    rcases serve_move hallowed hserve with ⟨hfailed, hboard, hfault⟩ | ⟨-, hmove⟩
    · refine ⟨hsound, fun j k a b x hj hk ha hb ↦ ?_, fun a ha x hx ↦ ?_, fun a ha hafault ↦ ?_⟩
      · rw [hviews] at hj hk
        rcases getElem?_set_view hj with ⟨-, rfl⟩ | ⟨-, hj⟩
        · exact absurd ha hfault.not_discovers
        · rcases getElem?_set_view hk with ⟨-, rfl⟩ | ⟨-, hk⟩
          · exact absurd hb hfault.not_discovers
          · exact h.alone j k a b x hj hk ha hb
      · rw [hviews] at ha
        rw [hboard]
        rcases List.mem_or_eq_of_mem_set ha with ha | rfl
        · exact h.active a ha x hx
        · exact absurd hx hfault.not_discovers
      · rw [hviews] at ha
        rcases List.mem_or_eq_of_mem_set ha with ha | rfl
        · exact h.noFault a ha hafault
        · -- only the publish of the body leads here, and it does not fail
          obtain ⟨x, d, snap, y, rfl⟩ := hfault.faulted hafault
          cases hallowed with
          | query hreads => cases hreads
          | commit hcommits => cases hcommits
          | publish hpub =>
            exact not_failed_of_succeeds (hok.handing hi hasks) hasks hserve hfailed
          | close hcloses => cases hcloses
          | _ => exact hfailed
    · -- whoever discovers a scan after the move discovered it before, or has just marked it
      have hdiscovers : ∀ {x}, (v.observe o r).Discovers x →
          v.Discovers x ∨ (w.ActiveScan x ∧ ∀ u ∈ w.views, ¬ u.Discovers x) := by
        intro x hx
        rcases hmove.discovers hv hx with hx | ⟨r', d, st, site, ws, rfl, rfl⟩
        · exact Or.inl hx
        · exact Or.inr (hok.claiming hi hasks)
      have hnew : ∀ {j : ℕ} {a : Phase} {x : Id}, j ≠ i → w.views[j]? = some a → a.Discovers x →
          ¬ (v.observe o r).Discovers x := by
        intro j a x hji hj ha hx
        rcases hdiscovers hx with hx | ⟨-, hnone⟩
        · exact hji (h.alone j i a v x hj hi ha hx)
        · exact hnone a (List.mem_of_getElem? hj) ha
      refine ⟨hsound, fun j k a b x hj hk ha hb ↦ ?_, fun a ha x hx ↦ ?_, fun a ha ↦ ?_⟩
      · rw [hviews] at hj hk
        rcases getElem?_set_view hj with ⟨hji, rfl⟩ | ⟨hji, hj'⟩
        · rcases getElem?_set_view hk with ⟨hki, -⟩ | ⟨hki, hk'⟩
          · rw [hji, hki]
          · exact absurd ha (hnew hki hk' hb)
        · rcases getElem?_set_view hk with ⟨-, rfl⟩ | ⟨hki, hk'⟩
          · exact absurd hb (hnew hji hj' ha)
          · exact h.alone j k a b x hj' hk' ha hb
      · obtain ⟨j, hj⟩ := List.mem_iff_getElem?.1 ha
        rw [hviews] at hj
        rcases getElem?_set_view hj with ⟨rfl, rfl⟩ | ⟨hji, hj⟩
        · have hbefore : ∃ d, w.shared.board.HasActive x d := by
            rcases hdiscovers hx with hx | ⟨hactive, -⟩
            · exact h.active v hmem x hx
            · exact hactive.hasActive
          obtain ⟨d, hd⟩ := hbefore
          exact ⟨d, hmove.active hv (h.noFault v hmem) hd fun _ ↦ hx⟩
        · obtain ⟨d, hd⟩ := h.active a (List.mem_of_getElem? hj) x hx
          refine ⟨d, hmove.active hv (h.noFault v hmem) hd fun hvx ↦ ?_⟩
          exact absurd (h.alone j i a v x hj hi hx hvx) hji
      · rw [hviews] at ha
        rcases List.mem_or_eq_of_mem_set ha with ha | rfl
        · exact h.noFault a ha
        · exact hmove.not_faulted hv (h.noFault v hmem)

/-- An uncontested action changes the status of no finished scan. -/
theorem Alone.final {w w' : World} {a : Action} (h : w.Alone) (hkeeps : Keeps a)
    (hok : w.Uncontested a) (ha : w.act cfg u a = some w') {x d : Id} {st : ScanStatus}
    (hx : w.shared.board.Has x d st) (hst : ¬ st.IsActive) : w'.shared.board.Has x d st := by
  obtain ⟨-, htrans⟩ := h.sound.act hkeeps ha
  cases htrans with
  | start hshared _ => rwa [hshared]
  | take _ hshared _ => rwa [hshared]
  | duplicate _ hshared _ => rwa [hshared]
  | @perform i e v o r _ hi hasks hallowed hserve _ =>
    have hmem := List.mem_of_getElem? hi
    rcases serve_move hallowed hserve with ⟨-, hboard, -⟩ | ⟨-, hmove⟩
    · rwa [hboard]
    · refine hmove.finished (h.sound.grounded v hmem) (h.noFault v hmem) (h.active v hmem) ?_ ?_
        hx hst
      · rintro y r' d' st' site ws rfl rfl
        exact (hok.claiming hi hasks).1.hasActive
      · rintro xs site ws rfl rfl y hy
        exact (hok.resetting hi hasks y hy).hasActive

/-- **COMPLETED and FAILED are final** in every run whose steps are uncontested, from any store. -/
theorem final_of_uncontested (cfg : Settings) (u : Unicode) (s : Store) {w w' : World} {a : Action}
    (h : Reach cfg u (fun w a ↦ Keeps a ∧ w.Uncontested a) (boot s) w)
    (hok : Keeps a ∧ w.Uncontested a) (ha : w.act cfg u a = some w') :
    w.shared.db.KeepsFinished w'.shared.db := by
  intro row hrow hfinished
  have halone : w.Alone :=
    h.invariant (fun _ _ _ hw hok ha ↦ hw.act hok.1 hok.2 ha) (alone_boot s)
  have hx := Database.has_board_of_get (q := w.shared.queue) (Table.get_key hrow)
  obtain ⟨row', hrow', -, hst⟩ := Database.has_board.1
    (halone.final hok.1 hok.2 ha hx hfinished)
  exact ⟨row', Table.mem_of_get hrow', Table.key_of_get hrow', hst⟩

/-- A domain is created and scanned; a second scan is triggered after the COMPLETED commit of the
first, whose worker finds it. -/
def triggerBeforeNext : List Action :=
  .start (.create "a.b" 7) :: performs 0 13 ++ .take 0 :: performs 1 18 ++
    .start (.trigger 0 7) :: performs 2 8 ++ performs 1 4

theorem final_of_uncontested_triggerBeforeNext :
    ∃ w w', Reach {} .plain (fun w a ↦ Keeps a ∧ w.Uncontested a) (boot .empty) w ∧
      w.act {} .plain (.perform 1 {}) = some w' ∧
      w.shared.db.scans.rows.map Scan.status = [.completed, .pending] ∧
      w.shared.db.KeepsFinished w'.shared.db := by
  obtain ⟨w, hreach, hok, hsome, hrows⟩ := Runs.exists_reach (act {} .plain)
    (fun w a ↦ Keeps a ∧ w.Uncontested a)
    (fun w ↦ (Keeps (.perform 1 {}) ∧ w.Uncontested (.perform 1 {})) ∧
      (w.act {} .plain (.perform 1 {})).isSome ∧
      w.shared.db.scans.rows.map Scan.status = [.completed, .pending]) (s := boot .empty)
    triggerBeforeNext (by decide +kernel)
  obtain ⟨w', ha⟩ := Option.isSome_iff_exists.1 hsome
  exact ⟨w, w', hreach, ha, hrows, final_of_uncontested {} .plain .empty hreach hok ha⟩

/-- If the publish of the second scan fails there, the handler's FAILED overwrites COMPLETED. -/
theorem not_final :
    ¬ ∀ (s : Store) (w w' : World) (a : Action), Reach {} .plain (fun _ a ↦ Keeps a) (boot s) w →
      Keeps a → w.act {} .plain a = some w' → w.shared.db.KeepsFinished w'.shared.db := by
  intro h
  obtain ⟨w, hreach, w', ha, hkeeps⟩ := Runs.exists_reach (act {} .plain) (fun _ a ↦ Keeps a)
    (fun w ↦ ∃ w' ∈ w.act {} .plain (.perform 1 {}),
      ¬ w.shared.db.KeepsFinished w'.shared.db) (s := boot .empty)
    (triggerBeforeNext ++ [.perform 1 { fails := true }, .perform 1 {}]) (by decide +kernel)
  exact hkeeps (h .empty w w' (.perform 1 {}) hreach trivial ha)

-- Nothing need fail: of two workers with the same message one completes the scan, and the other
-- then marks it RUNNING.
example : (Runs.replay (act {} .plain) (fun w a ↦ Keeps a ∧ w.Succeeds a)
    (.start (.create "a.b" 7) :: performs 0 13 ++ .duplicate 0 :: .take 0 :: .take 0 ::
      performs 1 4 ++ performs 2 23) (boot .empty)).any fun w ↦
    ∃ w' ∈ w.act {} .plain (.perform 1 {}), ¬ w.shared.db.KeepsFinished w'.shared.db := by
  decide +kernel

end World

end AssetDiscovery
