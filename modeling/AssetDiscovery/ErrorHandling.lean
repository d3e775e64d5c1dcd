import AssetDiscovery.Alone.Rules
import AssetDiscovery.World

/-!
# Scans that are stuck RUNNING

The handlers of `_process_scan` are there so that no error leaves a scan RUNNING. They work in the
session that the error may just have broken: after a failed statement it refuses the first statement
of the handler, and the scan stays RUNNING. So does it when the publish of the retry fails.

The executions here run alone, and any of their statements and publishes may fail, with any lookups;
that a commit fails means that the flush inside it does.
While nothing has failed on a RUNNING scan an execution is `OnTrack`; a failure at such a moment
makes the process idle, and nothing is done about the scan any more. `not_stuck_iff` says that these
failures are exactly the ones that leave a scan stuck.
-/

set_option autoImplicit false

namespace AssetDiscovery

open Effect Phase

/-- The row of the scan, if there is one, is RUNNING. -/
def Store.IsRunning (s : Store) (x : Id) : Prop :=
  (s.db.scans.get x).map Scan.status = some .running

instance (s : Store) (x : Id) : Decidable (s.IsRunning x) :=
  inferInstanceAs (Decidable (_ = _))

/-- The scan of `m` is RUNNING, and nothing has been published that would take it up again since the
queue was `q`. -/
def Store.Stuck (s : Store) (q : List Message) (m : Message) : Prop :=
  s.IsRunning m.scan ∧ ⟨m.scan, m.retries + 1⟩ ∉ s.queue.drop q.length

instance (s : Store) (q : List Message) (m : Message) : Decidable (s.Stuck q m) :=
  inferInstanceAs (Decidable (_ ∧ _))

/-- An operation does not fail while the scan would be stuck. -/
def Unharmed (q : List Message) (m : Message) (s : Store) (o : Op) (r : o.Res) : Prop :=
  s.Stuck q m → ¬ o.Failed r

instance (q : List Message) (m : Message) (s : Store) (o : Op) (r : o.Res) :
    Decidable (Unharmed q m s o r) :=
  inferInstanceAs (Decidable (_ → _))

/-! ### On track -/

namespace Board

variable (b : Board) (q : List Message) (m : Message)

/-- What `Store.Stuck` says, on the board. -/
def Stuck : Prop :=
  (∃ d, b.Has m.scan d .running) ∧ ⟨m.scan, m.retries + 1⟩ ∉ b.queue.drop q.length

/-- Where an execution that works on the message `m` can be, as long as nothing has failed on its
RUNNING scan; it began when the queue was `q`. -/
def OnTrack : Phase → Prop
  | taken x r => m = ⟨x, r⟩ ∧ b.queue = q
  | loaded x r d st => m = ⟨x, r⟩ ∧ b.queue = q ∧ b.Has x d st ∧ st.IsActive
  | claiming x r d st => m = ⟨x, r⟩ ∧ b.queue = q ∧ b.Has x d st ∧ st.IsActive
  | running x r d snap => m = ⟨x, r⟩ ∧ b.queue = q ∧ b.Has x d .running ∧
      ∀ st, snap = some st → st = .running
  | finished x d _ _ => x = m.scan ∧ ∃ st, b.Has x d st ∧ st ≠ .running
  | handing x d _ _ y => x = m.scan ∧ (∃ st, b.Has x d st ∧ st ≠ .running) ∧ ∃ st, b.Has y d st
  | faulted x d _ => x = m.scan ∧ ∃ st, b.Has x d st ∧ st ≠ .running
  | idle => ¬ b.Stuck q m
  | _ => False

variable {b q m}

/-- A scan with another status is not stuck. -/
theorem not_stuck_of_has {d : Id} {st : ScanStatus} (h : b.Has m.scan d st) (hst : st ≠ .running) :
    ¬ b.Stuck q m := by
  rintro ⟨⟨d', hd'⟩, -⟩
  exact hst (h.unique hd').2

/-- What the phase of a process on track rests on is stored. -/
theorem OnTrack.grounds {v : Phase} (h : b.OnTrack q m v) : b.Grounds v := by
  cases v with
  | loaded | claiming => exact ⟨_, h.2.2.1⟩
  | running => exact ⟨_, h.2.2.1⟩
  | finished | faulted => exact ⟨_, h.2.choose_spec.1⟩
  | handing => exact ⟨⟨_, h.2.1.choose_spec.1⟩, h.2.2⟩
  | taken | idle => trivial
  | _ => exact absurd h id

end Board

/-- Whether a scan is stuck can be read off the board. -/
theorem Store.stuck_iff {s : Store} {q : List Message} {m : Message} :
    s.Stuck q m ↔ s.board.Stuck q m := by
  have hrunning : s.IsRunning m.scan ↔ ∃ d, s.board.Has m.scan d .running := by
    simp [IsRunning, Store.board, Database.has_board]
  exact and_congr hrunning Iff.rfl

section Steps

variable {b b' : Board} {q : List Message} {m : Message} {v v' : Phase}

/-- A failure on a RUNNING scan makes the process idle, and any other leaves it on track. -/
theorem Fault.onTrack (h : Fault v v') (hv : b.OnTrack q m v) :
    (b.Stuck q m ∧ v' = .idle) ∨ (¬ b.Stuck q m ∧ b.OnTrack q m v') := by
  have hidle : v' = .idle → (b.Stuck q m ∧ v' = .idle) ∨ (¬ b.Stuck q m ∧ b.OnTrack q m v') := by
    rintro rfl
    by_cases hstuck : b.Stuck q m
    · exact Or.inl ⟨hstuck, rfl⟩
    · exact Or.inr ⟨hstuck, hstuck⟩
  cases h with
  | statement =>
    cases v with
    | taken | loaded | claiming | running | finished | handing | faulted | idle => exact hidle rfl
    | _ => exact absurd hv id
  | publish hpub =>
    cases hpub with
    | retry => exact hidle rfl
    | @handing x d snap h y =>
      obtain ⟨rfl, ⟨st, hst, hne⟩, -⟩ := hv
      cases h with
      | true => exact hidle rfl
      | false => exact Or.inr ⟨Board.not_stuck_of_has hst hne, rfl, st, hst, hne⟩
    | announcing | republishing | lost => exact absurd hv id

/-- Assigning a status to a scan whose loaded status is the stored one sets it. -/
theorem Board.has_setScan_change {x d : Id} {st new : ScanStatus} (hx : b.Has x d st) :
    (b.setScan x (change st new)).Has x d new := by
  by_cases h : st = new
  · rw [h, change_self]
    exact h ▸ hx
  · rw [change_of_ne h]
    exact Board.has_setScan_some.2 (Or.inl ⟨rfl, rfl, st, hx⟩)

/-- An operation that succeeds leaves the process on track. -/
theorem Move.onTrack {o : Op} (h : Move o b v b' v') (hv : b.OnTrack q m v) :
    b'.OnTrack q m v' := by
  cases h with
  | stay => exact hv
  -- the phases of requests are not on the track of a delivery
  | leave hunbound =>
    cases hunbound <;> exact absurd hv id
  | gone hgone => exact absurd hv.grounds hgone
  | drop hdrop =>
    obtain ⟨rfl, -⟩ := hv
    rintro ⟨⟨d, hd⟩, -⟩
    exact hdrop d (hd.active trivial)
  | load hx hst =>
    obtain ⟨rfl, hq⟩ := hv
    exact ⟨rfl, hq, hx, hst⟩
  | defer _ hst =>
    obtain ⟨rfl, -, hx, -⟩ := hv
    exact Board.not_stuck_of_has hx hst
  | claim => exact hv
  -- from here on the scan is RUNNING and this delivery answers for it
  | mark =>
    obtain ⟨rfl, hq, hx, -⟩ := hv
    exact ⟨rfl, by rwa [Board.setScan_queue], Board.has_setScan_change hx, nofun⟩
  | reload hx =>
    obtain ⟨rfl, hq, hrunning, hsnap⟩ := hv
    refine ⟨rfl, hq, hrunning, fun st hst ↦ ?_⟩
    rw [← Option.some.inj hst]
    exact (hx.unique hrunning).2
  | expire =>
    obtain ⟨rfl, hq, hrunning, -⟩ := hv
    exact ⟨rfl, hq, hrunning, nofun⟩
  -- the message is back in the queue with one retry more
  | retry =>
    obtain ⟨rfl, rfl, -⟩ := hv
    rintro ⟨-, hnone⟩
    simp at hnone
  | complete =>
    obtain ⟨rfl, -, hrunning, -⟩ := hv
    exact ⟨rfl, .completed, Board.has_setScan_some.2 (Or.inl ⟨rfl, rfl, _, hrunning⟩), nofun⟩
  | fail =>
    obtain ⟨rfl, -, hrunning, hsnap⟩ := hv
    rw [hsnap _ rfl]
    exact ⟨rfl, .failed, Board.has_setScan_change hrunning, nofun⟩
  | settle => exact hv
  | release =>
    obtain ⟨rfl, st, hst, hne⟩ := hv
    exact Board.not_stuck_of_has hst hne
  | choose hy => exact ⟨hv.1, hv.2, _, hy⟩
  | hand =>
    obtain ⟨rfl, ⟨st, hst, hne⟩, -⟩ := hv
    exact Board.not_stuck_of_has (b := b.push _) hst hne
  | @refail _ x d st ws =>
    obtain ⟨rfl, st', hst', hne⟩ := hv
    by_cases hst : st = .failed
    · rw [hst, change_self]
      exact ⟨rfl, st', hst', hne⟩
    · rw [change_of_ne hst]
      exact ⟨rfl, .failed, Board.has_setScan_some.2 (Or.inl ⟨rfl, rfl, st', hst'⟩), nofun⟩
  | _ => exact absurd hv id

/-- An idle process does nothing about the scan. -/
theorem Move.idle {o : Op} (h : Move o b .idle b' v') : v' = .idle ∧ b' = b := by
  cases h with
  | stay => exact ⟨rfl, rfl⟩
  | leave hunbound => exact ⟨rfl, rfl⟩
  | gone hgone => exact absurd trivial hgone

theorem Fault.idle (h : Fault .idle v') : v' = .idle := by
  cases h with
  | statement => rfl
  | publish hpub => exact absurd hpub nofun

end Steps

/-! ### Executions -/

/-- While nothing has failed on its RUNNING scan, an execution stays on track, and afterwards it is
idle and the scan is stuck. -/
theorem runDiscoveryScan_run {s : Store} (cfg : Settings) (hs : s.Free) (m : Message)
    (ω : ℕ → Env) :
    ∃ a ω' s', (Py.start (runDiscoveryScan cfg m)).run (serve 0) ω s = some (a, ω', s') ∧
      (((Py.start (runDiscoveryScan cfg m)).Throughout (serve 0) (Unharmed s.queue m) ω s ∧
          ¬ s'.Stuck s.queue m) ∨
        (¬ (Py.start (runDiscoveryScan cfg m)).Throughout (serve 0) (Unharmed s.queue m) ω s ∧
          s'.Stuck s.queue m)) := by
  let q := s.queue
  have hrun := Program.Follows.run_or (D := Phase.discipline) (H := serve 0)
    (P := Unharmed q m) (J := fun v s ↦ s.Free ∧ s.board.OnTrack q m v)
    (B := fun v s ↦ s.Free ∧ v = .idle ∧ s.board.Stuck q m) ?_ ?_ (m.follows cfg)
    (s := s) ⟨hs, rfl, rfl⟩ ω
  · obtain ⟨a, ω', s', v', hrun, hends, hend⟩ := hrun
    refine ⟨a, ω', s', hrun, hend.imp (fun h ↦ ⟨h.1, ?_⟩) fun h ↦ ⟨h.1, Store.stuck_iff.2 h.2.2.2⟩⟩
    obtain ⟨-, -, htrack⟩ := h
    rw [Store.stuck_iff]
    cases hends with
    | accepted | announced => exact absurd htrack id
    | idle => exact htrack
  · rintro v o e s₁ hallowed ⟨hs₁, htrack⟩
    obtain ⟨r, s₂, hserve, hs₂⟩ := hs₁.serve o e
    refine ⟨r, s₂, hserve, World.possible_of_serve hserve, ?_⟩
    rcases serve_move hallowed hserve with ⟨hfailed, hboard, hfault⟩ | ⟨hdone, hmove⟩
    · rcases hfault.onTrack htrack with ⟨hstuck, hidle⟩ | ⟨hstuck, htrack'⟩
      · refine Or.inr ⟨fun h ↦ h (Store.stuck_iff.2 hstuck) hfailed, hs₂, hidle, ?_⟩
        rwa [hboard]
      · refine Or.inl ⟨fun h ↦ absurd (Store.stuck_iff.1 h) hstuck, hs₂, ?_⟩
        rwa [hboard]
    · exact Or.inl ⟨fun _ ↦ hdone, hs₂, hmove.onTrack htrack⟩
  · rintro v o e s₁ hallowed ⟨hs₁, rfl, hstuck⟩
    obtain ⟨r, s₂, hserve, hs₂⟩ := hs₁.serve o e
    refine ⟨r, s₂, hserve, World.possible_of_serve hserve, hs₂, ?_⟩
    rcases serve_move hallowed hserve with ⟨-, hboard, hfault⟩ | ⟨-, hmove⟩
    · exact ⟨hfault.idle, by rwa [hboard]⟩
    · obtain ⟨hidle, hboard⟩ := hmove.idle
      exact ⟨hidle, by rwa [hboard]⟩

/-- **An execution leaves its scan stuck RUNNING** if and only if one of its statements or publishes
fails at a moment at which the scan is RUNNING and its retry has not been published. -/
theorem not_stuck_iff (cfg : Settings) {s : Store} (hs : s.Free) (m : Message) (ω : ℕ → Env) :
    ∃ a ω' s', (Py.start (runDiscoveryScan cfg m)).run (serve 0) ω s = some (a, ω', s') ∧
      (¬ s'.Stuck s.queue m ↔
        (Py.start (runDiscoveryScan cfg m)).Throughout (serve 0) (Unharmed s.queue m) ω s) := by
  obtain ⟨a, ω', s', hrun, ⟨hall, hstuck⟩ | ⟨hall, hstuck⟩⟩ := runDiscoveryScan_run cfg hs m ω
  · exact ⟨a, ω', s', hrun, iff_of_true hstuck hall⟩
  · exact ⟨a, ω', s', hrun, iff_of_false (not_not.2 hstuck) hall⟩

/-- `not_stuck_iff` for a delivery whose lookups time out after its attempts are used up. -/
theorem not_stuck_iff_timeout :
    ∃ a ω' s', (Py.start (runDiscoveryScan {} ⟨1, 3⟩)).run (serve 0)
      (fun _ ↦ { lookups := fun _ ↦ .timeout "LifetimeTimeout" "" }) .awaiting =
        some (a, ω', s') ∧ ¬ s'.Stuck [] ⟨1, 3⟩ := by
  obtain ⟨a, ω', s', hrun, hiff⟩ := not_stuck_iff {} Store.free_awaiting ⟨1, 3⟩
    fun _ ↦ { lookups := fun _ ↦ .timeout "LifetimeTimeout" "" }
  exact ⟨a, ω', s', hrun, hiff.2 (by decide +kernel)⟩

/-- If the commit of the records fails, the handler's first statement is refused, and the scan stays
RUNNING. -/
theorem not_never_stuck :
    ¬ ∀ (s : Store) (m : Message) (ω : ℕ → Env), s.Free → ∀ a ω' s',
      (Py.start (runDiscoveryScan {} m)).run (serve 0) ω s = some (a, ω', s') →
        ¬ s'.Stuck s.queue m := by
  intro h
  let oneAddress : AssetType → Lookup :=
    fun type ↦ if type = .a then .answer [⟨"192.0.2.1", "", ""⟩] else .noAnswer
  let ω : ℕ → Env := fun n ↦ { fails := n = 14, lookups := oneAddress }
  have hstuck : ((Py.start (runDiscoveryScan {} ⟨1, 0⟩)).run (serve 0) ω .awaiting).any
      (fun p ↦ p.1 = .error .pendingRollback ∧ p.2.2.Stuck [] ⟨1, 0⟩) = true := by
    decide +kernel
  obtain ⟨⟨a, ω', s'⟩, hrun, hend⟩ := (Option.any_eq_true _ _).1 hstuck
  exact h .awaiting ⟨1, 0⟩ ω Store.free_awaiting a ω' s' hrun (of_decide_eq_true hend).2

end AssetDiscovery
