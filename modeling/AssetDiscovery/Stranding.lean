import AssetDiscovery.World

/-!
# No scan is stranded

In a run in which nothing fails and no domain is deleted, every active scan has a holder.

A RUNNING scan is held *directly*: by a queued message for it, by the worker that processes it, or
by a recovery that will publish it. A worker that finds another scan of its domain RUNNING drops its
own message, so a PENDING scan need not be held directly. It is enough that its domain has a RUNNING
scan, or that *some* PENDING scan of the domain is held, or that a worker is about to look for the
next PENDING scan of the domain (`NoneStranded`).

Each move keeps this, one case for each kind of move (`Move.running`, `Move.pending`); where the
queue is empty and every process has ended there is no holder left, hence no active scan.
-/

set_option autoImplicit false

namespace AssetDiscovery

open Phase

/-! ### Holders -/

/-- There is a queued message for scan `x`. -/
def Board.Queued (b : Board) (x : Id) : Prop :=
  ∃ m ∈ b.queue, m.scan = x

/-- A process in this phase holds scan `x` if it is RUNNING. A worker whose session has loaded
FAILED does not: its `mark_scan_failed` would leave the status out of the `UPDATE`. -/
def Phase.HoldsRunning : Phase → Id → Prop
  | recovering, _ => True
  | resetting _, _ => True
  | listing, _ => True
  | republishing xs, x => x ∈ xs
  | taken y _, x => y = x
  | loaded y _ _ st, x => y = x ∧ st = .running
  | claiming y _ _ _, x => y = x
  | running y _ _ snap, x => y = x ∧ snap ≠ some .failed
  | _, _ => False

/-- A process in this phase holds scan `x` of domain `d` if it is PENDING. -/
def Phase.HoldsPending : Phase → Id → Id → Prop
  | announcing _ y, x, _ => y = x
  | recovering, _, _ => True
  | resetting _, _, _ => True
  | listing, _, _ => True
  | republishing xs, x, _ => x ∈ xs
  | taken y _, x, _ => y = x
  | loaded y _ _ _, x, _ => y = x
  | claiming y _ _ _, x, _ => y = x
  | running y _ _ _, x, _ => y = x
  | finished _ d' _ _, _, d => d' = d
  | handing _ _ _ _ y, x, _ => y = x
  | _, _, _ => False

/-- A process with nothing in hand holds no RUNNING scan. -/
theorem Phase.Unbound.not_holdsRunning {v : Phase} (h : v.Unbound) (x : Id) :
    ¬ v.HoldsRunning x := by
  cases h with
  | republishing => exact List.not_mem_nil
  | _ => exact id

/-- Nor does it hold a PENDING one. -/
theorem Phase.Unbound.not_holdsPending {v : Phase} (h : v.Unbound) (x d : Id) :
    ¬ v.HoldsPending x d := by
  cases h with
  | republishing => exact List.not_mem_nil
  | _ => exact id

/-- Every active scan has a holder. -/
structure NoneStranded (b : Board) (vs : List Phase) : Prop where
  running : ∀ x d, b.Has x d .running → b.Queued x ∨ ∃ v ∈ vs, v.HoldsRunning x
  pending : ∀ x d, b.Has x d .pending → (∃ y, b.Has y d .running) ∨
    ∃ y, b.Has y d .pending ∧ (b.Queued y ∨ ∃ v ∈ vs, v.HoldsPending y d)

/-! ### What a move does to the holders -/

variable {o : Op} {b b' : Board} {v v' : Phase} {x d : Id}

/-- A scan stays queued when another message is published. -/
theorem Board.Queued.push (h : b.Queued x) (m : Message) : (b.push m).Queued x := by
  obtain ⟨m', hm', rfl⟩ := h
  exact ⟨m', List.mem_append_left _ hm', rfl⟩

/-- A scan is queued once its message is published. -/
theorem Board.queued_push (b : Board) (m : Message) : (b.push m).Queued m.scan :=
  ⟨m, List.mem_append_right _ List.mem_cons_self, rfl⟩

/-- A move takes no message off the queue. -/
theorem Move.queued (h : Move o b v b' v') (hv : b.Grounds v) (hx : b.Queued x) :
    b'.Queued x := by
  cases h with
  | gone hgone => exact absurd hv hgone
  | announce | republish | retry | hand => exact hx.push _
  | mark | complete | fail | refail =>
    obtain ⟨m, hm, rfl⟩ := hx
    exact ⟨m, by rwa [Board.setScan_queue], rfl⟩
  | _ => exact hx

/-- The scan that a statement on another scan leaves RUNNING was so before. -/
theorem Board.has_running_of_setScan {y : Id} {st : ScanStatus} (hst : st ≠ .running)
    (h : (b.setScan y (some st)).Has x d .running) : x ≠ y ∧ b.Has x d .running := by
  rcases Board.has_setScan_some.1 h with ⟨-, rfl, -⟩ | h
  · exact absurd rfl hst
  · exact h

/-- A scan that is RUNNING after a move is held by the move's process or its messages, or it was
RUNNING before and that process did not hold it. -/
theorem Move.running (h : Move o b v b' v') (hv : b.Grounds v) (hx : b'.Has x d .running) :
    (b'.Queued x ∨ v'.HoldsRunning x) ∨ (b.Has x d .running ∧ ¬ v.HoldsRunning x) := by
  -- the statuses are as before, and the process keeps what it holds
  have hkeep : b.Has x d .running → (v.HoldsRunning x → b'.Queued x ∨ v'.HoldsRunning x) →
      (b'.Queued x ∨ v'.HoldsRunning x) ∨ (b.Has x d .running ∧ ¬ v.HoldsRunning x) := by
    intro hx hhold
    by_cases hv : v.HoldsRunning x
    · exact Or.inl (hhold hv)
    · exact Or.inr ⟨hx, hv⟩
  cases h with
  | gone hgone => exact absurd hv hgone
  | stay => exact hkeep hx Or.inr
  | leave hu => exact hkeep hx fun h ↦ absurd h (hu.not_holdsRunning x)
  | create hfree =>
    rcases (Board.has_addScan hfree).1 hx with ⟨-, -, hst⟩ | hx
    · exact absurd hst (by simp)
    · exact hkeep hx False.elim
  | accept hfree =>
    rcases (Board.has_addScan hfree).1 hx with ⟨-, -, hst⟩ | hx
    · exact absurd hst (by simp)
    · exact hkeep hx False.elim
  | opened | lock | occupied | clear | announce | release | choose | hand | settle =>
    exact hkeep hx False.elim
  | interrupted | uninterrupted | reset => exact Or.inl (Or.inr trivial)
  | list hxs => exact Or.inl (Or.inr ((hxs x).2 ⟨d, hx.active trivial⟩))
  | @republish b y ys =>
    refine hkeep hx fun h ↦ ?_
    rcases List.mem_cons.1 h with rfl | h
    · exact Or.inl (Board.queued_push _ _)
    · exact Or.inr h
  | drop hfin =>
    refine hkeep hx fun h ↦ ?_
    obtain rfl := h
    exact absurd (hx.active trivial) (hfin d)
  | load hy _ =>
    refine hkeep hx fun h ↦ ?_
    obtain rfl := h
    exact Or.inr ⟨rfl, (hy.unique hx).2⟩
  | defer _ hst => exact hkeep hx fun h ↦ absurd h.2 hst
  | claim => exact hkeep hx fun h ↦ Or.inr h.1
  | @mark _ y _ _ st =>
    by_cases hxy : y = x
    · exact Or.inl (Or.inr ⟨hxy, nofun⟩)
    · refine Or.inr ⟨?_, hxy⟩
      unfold change at hx
      split at hx
      · exact hx
      · rcases Board.has_setScan_some.1 hx with ⟨rfl, -⟩ | ⟨-, hx⟩
        · exact absurd rfl hxy
        · exact hx
  | reload hy =>
    refine hkeep hx fun h ↦ ?_
    obtain ⟨rfl, -⟩ := h
    obtain ⟨-, rfl⟩ := hy.unique hx
    exact Or.inr ⟨rfl, nofun⟩
  | expire => exact hkeep hx fun h ↦ Or.inr ⟨h.1, nofun⟩
  | retry =>
    refine hkeep hx fun h ↦ ?_
    obtain ⟨rfl, -⟩ := h
    exact Or.inl (Board.queued_push _ _)
  | complete =>
    obtain ⟨hne, hx⟩ := Board.has_running_of_setScan (by decide) hx
    exact hkeep hx fun h ↦ absurd h.1.symm hne
  | @fail _ y _ _ st =>
    unfold change at hx
    split at hx
    · next hst => exact hkeep hx fun h ↦ absurd (by rw [hst]) h.2
    · obtain ⟨hne, hx⟩ := Board.has_running_of_setScan (by decide) hx
      exact hkeep hx fun h ↦ absurd h.1.symm hne
  | refail =>
    unfold change at hx
    split at hx
    · exact hkeep hx False.elim
    · exact hkeep (Board.has_running_of_setScan (by decide) hx).2 False.elim

/-- What holds of a domain that is taken care of by a process in phase `v`. -/
def Board.Served (b : Board) (v : Phase) (d : Id) : Prop :=
  (∃ y, b.Has y d .running) ∨ ∃ y, b.Has y d .pending ∧ (b.Queued y ∨ v.HoldsPending y d)

/-- A domain with a PENDING scan after a move is served, or the scans of the domain are as before
and the move's process held none of them. -/
theorem Move.pending (h : Move o b v b' v') (hv : b.Grounds v) (hx : b'.Has x d .pending) :
    b'.Served v' d ∨ (b.Has x d .pending ∧ (∀ y st, b.Has y d st → b'.Has y d st) ∧
      ∀ y, b.Has y d .pending → ¬ v.HoldsPending y d) := by
  -- the scans of the domain are as before, and the process keeps what it holds
  have hkeep : b.Has x d .pending → (∀ y st, b.Has y d st → b'.Has y d st) →
      (∀ y, b.Has y d .pending → v.HoldsPending y d → b'.Served v' d) →
      b'.Served v' d ∨ (b.Has x d .pending ∧ (∀ y st, b.Has y d st → b'.Has y d st) ∧
        ∀ y, b.Has y d .pending → ¬ v.HoldsPending y d) := by
    intro hx hsame hhold
    by_cases hv : ∃ y, b.Has y d .pending ∧ v.HoldsPending y d
    · obtain ⟨y, hy, hvy⟩ := hv
      exact Or.inl (hhold y hy hvy)
    · exact Or.inr ⟨hx, hsame, fun y hy hvy ↦ hv ⟨y, hy, hvy⟩⟩
  have hsame : ∀ y st, b.Has y d st → b.Has y d st := fun _ _ ↦ id
  -- a statement on a scan of another domain
  have hother : ∀ {y dy st' v'}, (∃ st, b.Has y dy st) → dy ≠ d →
      (∀ z e, v.HoldsPending z e → z = y) → (b.setScan y st').Has x d .pending →
      (b.setScan y st').Served v' d ∨ (b.Has x d .pending ∧
        (∀ z st, b.Has z d st → (b.setScan y st').Has z d st) ∧
        ∀ z, b.Has z d .pending → ¬ v.HoldsPending z d) := by
    rintro y dy st' v' ⟨st, hy⟩ hne hhold hx
    refine Or.inr ⟨(Board.has_setScan_of_ne hy hne).1 hx,
      fun z st ↦ (Board.has_setScan_of_ne hy hne).2, fun z hz hvz ↦ hne ?_⟩
    rw [hhold z d hvz] at hz
    exact (hy.unique hz).1
  cases h with
  | gone hgone => exact absurd hv hgone
  | stay => exact hkeep hx hsame fun y hy h ↦ Or.inr ⟨y, hy, Or.inr h⟩
  | leave hu => exact hkeep hx hsame fun y _ h ↦ absurd h (hu.not_holdsPending y d)
  | create hfree =>
    rcases (Board.has_addScan hfree).1 hx with ⟨rfl, rfl, -⟩ | hx'
    · exact Or.inl (Or.inr ⟨_, hx, Or.inr rfl⟩)
    · exact hkeep hx' (fun y st h ↦ (Board.has_addScan hfree).2 (Or.inr h)) fun _ _ ↦ False.elim
  | accept hfree =>
    rcases (Board.has_addScan hfree).1 hx with ⟨rfl, rfl, -⟩ | hx'
    · exact Or.inl (Or.inr ⟨_, hx, Or.inr rfl⟩)
    · exact hkeep hx' (fun y st h ↦ (Board.has_addScan hfree).2 (Or.inr h)) fun _ _ ↦ False.elim
  | announce =>
    refine hkeep hx hsame fun y hy h ↦ Or.inr ⟨y, hy, Or.inl ?_⟩
    obtain rfl := h
    exact Board.queued_push _ _
  | opened | lock | occupied | clear => exact hkeep hx hsame fun _ _ ↦ False.elim
  | interrupted | uninterrupted | reset => exact Or.inl (Or.inr ⟨x, hx, Or.inr trivial⟩)
  | list hxs => exact Or.inl (Or.inr ⟨x, hx, Or.inr ((hxs x).2 ⟨d, hx.active trivial⟩)⟩)
  | republish =>
    refine hkeep hx hsame fun y hy h ↦ Or.inr ⟨y, hy, ?_⟩
    rcases List.mem_cons.1 h with rfl | h
    · exact Or.inl (Board.queued_push _ _)
    · exact Or.inr h
  | drop hfin =>
    refine hkeep hx hsame fun y hy h ↦ ?_
    obtain rfl := h
    exact absurd (hy.active trivial) (hfin d)
  | load | claim | reload | expire =>
    exact hkeep hx hsame fun y hy h ↦ Or.inr ⟨y, hy, Or.inr h⟩
  | defer hz =>
    refine hkeep hx hsame fun y hy h ↦ ?_
    obtain rfl := h
    obtain ⟨st, hst⟩ := hv
    rw [(hst.unique hy).1] at hz
    exact Or.inl ⟨_, hz⟩
  | @mark _ y r dy st =>
    by_cases hd : dy = d
    · subst hd
      rcases eq_or_ne st .running with rfl | hst
      · rw [change_self] at hx hkeep ⊢
        exact hkeep hx hsame fun z hz h ↦ Or.inr ⟨z, hz, Or.inr h⟩
      · rw [change_of_ne hst]
        exact Or.inl (Or.inl ⟨y, Board.has_setScan_some.2 (Or.inl ⟨rfl, rfl, hv⟩)⟩)
    · exact hother hv hd (fun _ _ ↦ Eq.symm) hx
  | retry =>
    refine hkeep hx hsame fun y hy h ↦ Or.inr ⟨y, hy, Or.inl ?_⟩
    obtain rfl := h
    exact Board.queued_push _ _
  | @complete _ y r dy =>
    by_cases hd : dy = d
    · exact Or.inl (Or.inr ⟨x, hx, Or.inr hd⟩)
    · exact hother hv hd (fun _ _ ↦ Eq.symm) hx
  | @fail _ y r dy =>
    by_cases hd : dy = d
    · exact Or.inl (Or.inr ⟨x, hx, Or.inr hd⟩)
    · exact hother hv hd (fun _ _ ↦ Eq.symm) hx
  | settle =>
    refine hkeep hx hsame fun y hy h ↦ Or.inr ⟨y, hy, Or.inr h⟩
  | release hnone =>
    refine hkeep hx hsame fun y hy h ↦ ?_
    obtain rfl := h
    exact absurd hy (hnone y)
  | choose hz =>
    refine hkeep hx hsame fun y hy h ↦ Or.inr ⟨_, ?_, Or.inr rfl⟩
    obtain rfl := h
    exact hz
  | hand =>
    refine hkeep hx hsame fun y hy h ↦ Or.inr ⟨y, hy, Or.inl ?_⟩
    obtain rfl := h
    exact Board.queued_push _ _
  | @refail _ y dy =>
    by_cases hd : dy = d
    · exact Or.inl (Or.inr ⟨x, hx, Or.inr hd⟩)
    · exact hother hv hd (fun _ _ ↦ False.elim) hx

/-! ### Runs -/

variable {vs vs' : List Phase}

/-- Nobody is stranded by a step that changes no scan and loses neither messages nor processes. -/
theorem NoneStranded.mono (h : NoneStranded b vs) (hscans : b'.scans = b.scans)
    (hqueue : ∀ x, b.Queued x → b'.Queued x ∨ ∃ v ∈ vs', v.HoldsRunning x ∧ ∀ d, v.HoldsPending x d)
    (hvs : ∀ v ∈ vs, v ∈ vs') : NoneStranded b' vs' := by
  have hhas : ∀ {x d st}, b'.Has x d st ↔ b.Has x d st := by
    intro x d st
    rw [Board.Has, hscans, Board.Has]
  refine ⟨fun x d hx ↦ ?_, fun x d hx ↦ ?_⟩
  · rcases h.running x d (hhas.1 hx) with hq | ⟨v, hv, hhold⟩
    · rcases hqueue x hq with hq | ⟨v, hv, hhold, -⟩
      · exact Or.inl hq
      · exact Or.inr ⟨v, hv, hhold⟩
    · exact Or.inr ⟨v, hvs v hv, hhold⟩
  · rcases h.pending x d (hhas.1 hx) with ⟨y, hy⟩ | ⟨y, hy, hq | ⟨v, hv, hhold⟩⟩
    · exact Or.inl ⟨y, hhas.2 hy⟩
    · rcases hqueue y hq with hq | ⟨v, hv, -, hhold⟩
      · exact Or.inr ⟨y, hhas.2 hy, Or.inl hq⟩
      · exact Or.inr ⟨y, hhas.2 hy, Or.inr ⟨v, hv, hhold d⟩⟩
    · exact Or.inr ⟨y, hhas.2 hy, Or.inr ⟨v, hvs v hv, hhold⟩⟩

/-- A move of one process strands no scan. -/
theorem NoneStranded.move (h : NoneStranded b vs) {i : ℕ} (hi : vs[i]? = some v)
    (hv : b.Grounds v) (hmove : Move o b v b' v') : NoneStranded b' (vs.set i v') := by
  have hmem : v' ∈ vs.set i v' := Effect.mem_set_self hi
  refine ⟨fun x d hx ↦ ?_, fun x d hx ↦ ?_⟩
  · rcases hmove.running hv hx with (hq | hhold) | ⟨hx, hnot⟩
    · exact Or.inl hq
    · exact Or.inr ⟨v', hmem, hhold⟩
    · rcases h.running x d hx with hq | hhold
      · exact Or.inl (hmove.queued hv hq)
      · exact Or.inr ((Effect.exists_mem_set hi hhold).resolve_left hnot)
  · rcases hmove.pending hv hx with (hrun | ⟨y, hy, hq | hhold⟩) | ⟨hx, hsame, hnot⟩
    · exact Or.inl hrun
    · exact Or.inr ⟨y, hy, Or.inl hq⟩
    · exact Or.inr ⟨y, hy, Or.inr ⟨v', hmem, hhold⟩⟩
    · rcases h.pending x d hx with ⟨y, hy⟩ | ⟨y, hy, hq | hhold⟩
      · exact Or.inl ⟨y, hsame y _ hy⟩
      · exact Or.inr ⟨y, hsame y _ hy, Or.inl (hmove.queued hv hq)⟩
      · exact Or.inr ⟨y, hsame y _ hy,
          Or.inr ((Effect.exists_mem_set hi hhold).resolve_left (hnot y hy))⟩

namespace World

/-- Nothing fails and no domain is deleted. -/
def Undisturbed (w : World) (a : Action) : Prop :=
  Keeps a ∧ w.Succeeds a

instance (w : World) (a : Action) : Decidable (w.Undisturbed a) :=
  inferInstanceAs (Decidable (Keeps a ∧ w.Succeeds a))

variable {cfg : Settings} {u : Unicode}

/-- The message that is taken is the only one that leaves the queue. -/
theorem queued_eraseIdx {q : List Message} {n : ℕ} {m : Message} (hm : q[n]? = some m)
    {m' : Message} (h : m' ∈ q) : m' ∈ q.eraseIdx n ∨ m' = m := by
  obtain ⟨k, hk⟩ := List.mem_iff_getElem?.1 h
  by_cases hkn : k = n
  · rw [hkn, hm] at hk
    exact Or.inr (Option.some.inj hk).symm
  · exact Or.inl (List.mem_eraseIdx_iff_getElem?.2 ⟨k, hkn, hk⟩)

/-- One action of an undisturbed run strands no scan. -/
theorem noneStranded_act {w w' : World} {a : Action} (hw : w.Sound)
    (h : NoneStranded w.shared.board w.views) (hok : w.Undisturbed a)
    (ha : w.act cfg u a = some w') : NoneStranded w'.shared.board w'.views := by
  obtain ⟨-, htrans⟩ := hw.act hok.1 ha
  cases htrans with
  | start hshared hviews =>
    rw [hshared, hviews]
    exact h.mono rfl (fun x hx ↦ Or.inl hx) fun v hv ↦ List.mem_append_left _ hv
  | @take n m _ hm hshared hviews =>
    rw [hshared, hviews]
    refine h.mono rfl (fun x hx ↦ ?_) fun v hv ↦ List.mem_append_left _ hv
    obtain ⟨m', hm', rfl⟩ := hx
    rcases queued_eraseIdx hm hm' with hm' | rfl
    · exact Or.inl ⟨m', hm', rfl⟩
    · exact Or.inr ⟨m'.phase, List.mem_append_right _ List.mem_cons_self, rfl, fun _ ↦ rfl⟩
  | duplicate hm hshared hviews =>
    rw [hshared, hviews]
    refine h.mono rfl (fun x hx ↦ Or.inl ?_) fun v ↦ id
    obtain ⟨m', hm', rfl⟩ := hx
    exact ⟨m', List.mem_append_left _ hm', rfl⟩
  | perform hi hasks hallowed hserve hviews =>
    rw [hviews]
    have hv := hw.grounded _ (List.mem_of_getElem? hi)
    rcases serve_move hallowed hserve with ⟨hfailed, -, -⟩ | ⟨-, hmove⟩
    · exact absurd hfailed (not_failed_of_succeeds hok.2 hasks hserve)
    · exact h.move hi hv hmove

/-- Nothing is held where the queue is empty and every process has ended. -/
theorem not_isActive_of_quiet {w : World} (hw : w.Sound)
    (h : NoneStranded w.shared.board w.views) (hqueue : w.shared.queue = [])
    (hdone : ∀ t ∈ w.threads, t.IsDone) : ∀ row ∈ w.shared.db.scans, ¬ row.status.IsActive := by
  have hquiet : ∀ x, ¬ w.shared.board.Queued x := by
    rintro x ⟨m, hm, -⟩
    rw [Store.board, Database.board_queue, hqueue] at hm
    exact absurd hm List.not_mem_nil
  have hends : ∀ v ∈ w.views, ∃ a, v.Ends a := by
    intro v hv
    obtain ⟨t, ht, rfl⟩ := List.mem_map.1 hv
    obtain ⟨a, ha⟩ := hdone t ht
    have hfollows := hw.disciplined t ht
    rw [ha] at hfollows
    exact ⟨a, hfollows⟩
  have hrunning : ∀ x d, ¬ w.shared.board.Has x d .running := by
    intro x d hx
    rcases h.running x d hx with hq | ⟨v, hv, hhold⟩
    · exact hquiet x hq
    · obtain ⟨a, ha⟩ := hends v hv
      cases ha <;> exact hhold
  have hpending : ∀ x d, ¬ w.shared.board.Has x d .pending := by
    intro x d hx
    rcases h.pending x d hx with ⟨y, hy⟩ | ⟨y, hy, hq | ⟨v, hv, hhold⟩⟩
    · exact hrunning y d hy
    · exact hquiet y hq
    · obtain ⟨a, ha⟩ := hends v hv
      cases ha <;> exact hhold
  intro row hrow hactive
  have hx := Database.has_board_of_get (q := w.shared.queue) (Table.get_key hrow)
  rcases ScanStatus.isActive_iff.1 hactive with hst | hst
  · rw [hst] at hx
    exact hpending _ _ hx
  · rw [hst] at hx
    exact hrunning _ _ hx

/-- **No scan is stranded.** However requests, recoveries and workers are interleaved from an empty
deployment, if nothing fails and no domain is deleted, then whenever the queue is empty and every
process has ended, no scan is PENDING or RUNNING. -/
theorem no_scan_stranded (cfg : Settings) (u : Unicode) {w : World}
    (h : Reach cfg u Undisturbed (boot .empty) w) (hqueue : w.shared.queue = [])
    (hdone : ∀ t ∈ w.threads, t.IsDone) : ∀ row ∈ w.shared.db.scans, ¬ row.status.IsActive := by
  have hinv : w.Sound ∧ NoneStranded w.shared.board w.views := by
    refine h.invariant (I := fun w ↦ w.Sound ∧ NoneStranded w.shared.board w.views)
      (fun w a w' hw hok ha ↦ ?_) ⟨sound_boot _, ?_⟩
    · exact ⟨(hw.1.act hok.1 ha).1, noneStranded_act hw.1 hw.2 hok ha⟩
    · exact ⟨fun x d hx ↦ absurd hx nofun, fun x d hx ↦ absurd hx nofun⟩
  exact not_isActive_of_quiet hinv.1 hinv.2 hqueue hdone

/-- A domain is created, a worker processes its scan, and an API process that starts meanwhile
publishes the scan once more. -/
def recoveryDuringScan : List Action :=
  .start (.create "a.b" 7) :: performs 0 13 ++ .take 0 :: performs 1 3 ++
    .start .recover :: performs 2 4 ++ performs 1 20 ++ .take 0 :: performs 3 2

theorem no_scan_stranded_recoveryDuringScan :
    ∃ w, Reach {} .plain Undisturbed (boot .empty) w ∧ w.shared.db.scans.rows.length = 1 ∧
      ∀ row ∈ w.shared.db.scans, ¬ row.status.IsActive := by
  obtain ⟨w, hreach, hqueue, hdone, hrows⟩ := Runs.exists_reach (act {} .plain) Undisturbed
    (fun w ↦ w.shared.queue = [] ∧ (∀ t ∈ w.threads, t.IsDone) ∧
      w.shared.db.scans.rows.length = 1) (s := boot .empty) recoveryDuringScan (by decide +kernel)
  exact ⟨w, hreach, hrows, no_scan_stranded {} .plain hreach hqueue hdone⟩

end World

end AssetDiscovery
