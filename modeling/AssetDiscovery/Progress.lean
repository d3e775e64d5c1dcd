import AssetDiscovery.Locks
import AssetDiscovery.Stranding
import AssetDiscovery.Termination

/-!
# Nothing waits for ever

The only thing an operation waits for is the row lock of a domain. A process that holds such a lock
is in one of three phases of a trigger, in which it needs no lock but that one
(`serve_ne_none_of_owner`). So an unfinished process can always go on, or waits for one that can
(`goes_on`), and a service that has come to rest has nothing left to do (`atRest_iff`).

Together with the invariant that no scan is stranded this says what has become of the scans when the
service comes to rest (`settled_at_rest`): requests may fail here up to the commit of their scan.
-/

set_option autoImplicit false

namespace AssetDiscovery

open Effect Phase

/-! ### What operations wait for -/

section Waiting

variable {i : ℕ} {v : Phase} {o : Op} {e : Env} {s : Store} {d : Id}

/-- The row locks an operation needs. -/
def Op.needs : Op → List Id
  | .query (.domainForUpdate d) => [d]
  | .flush ws => ws.flatMap Write.domains
  | .commit _ ws => ws.flatMap Write.domains
  | .query _ | .rollback | .close | .publish _ | .lookup _ _ | .now | .uuid4 => []

theorem Store.waits_iff {ws : List Write} :
    s.Waits i ws ↔ ∃ d ∈ ws.flatMap Write.domains, s.LockedFor i d := by
  simp only [Store.Waits, List.mem_flatMap]
  exact ⟨fun ⟨w, hw, d, hd, h⟩ ↦ ⟨d, ⟨w, hw, hd⟩, h⟩, fun ⟨d, ⟨w, hw, hd⟩, h⟩ ↦ ⟨w, hw, d, hd, h⟩⟩

/-- An operation is carried out unless another process holds a lock that it needs. -/
theorem exists_locked_of_serve (h : serve i o e s = none) : ∃ d ∈ o.needs, s.LockedFor i d := by
  cases o with
  | query q =>
    simp only [serve] at h
    split at h
    · exact absurd h (by simp)
    · cases q with
      | domainForUpdate d =>
        simp only at h
        split at h
        · next hlocked => exact ⟨d, List.mem_singleton_self d, hlocked⟩
        · split at h <;> exact absurd h (by simp)
      | _ => exact absurd h (by simp)
  | flush ws | commit site ws =>
    simp only [serve] at h
    split at h
    · exact absurd h (by simp)
    · split at h
      · next hwaits => exact Store.waits_iff.1 hwaits
      · split at h <;> exact absurd h (by simp)
  | publish m =>
    simp only [serve] at h
    split at h <;> exact absurd h (by simp)
  | rollback | close | lookup | now | uuid4 => exact absurd h (by simp [serve])

/-- In the phases in which a process may hold a lock, it needs no other one. -/
theorem eq_of_mem_needs (hallowed : v.Allowed o) (hv : v.MayLock d) {d' : Id} (hd : d' ∈ o.needs) :
    d' = d := by
  cases v with
  | locked d₀ =>
    obtain rfl : d₀ = d := hv
    cases hallowed with
    | query hreads => cases hreads; exact absurd hd List.not_mem_nil
    | commit hcommits => cases hcommits
    | _ => exact absurd hd List.not_mem_nil
  | cleared d₀ =>
    obtain rfl : d₀ = d := hv
    cases hallowed with
    | query hreads => cases hreads
    | flush => exact List.mem_singleton.1 hd
    | commit hcommits =>
      cases hcommits with
      | triggerManualScan hws =>
        rcases hws with rfl | rfl <;> simpa [Op.needs, Write.domains] using hd
    | _ => exact absurd hd List.not_mem_nil
  | refused d₀ =>
    cases hallowed with
    | query hreads => cases hreads
    | commit hcommits => cases hcommits
    | _ => exact absurd hd List.not_mem_nil
  | _ => exact absurd hv id

/-- The holder of a lock waits for nobody. -/
theorem serve_ne_none_of_owner (hallowed : v.Allowed o) (hv : v.MayLock d)
    (hlocks : s.locks d = some i) : serve i o e s ≠ none := by
  intro h
  obtain ⟨d', hd', t, ht, hne⟩ := exists_locked_of_serve h
  rw [eq_of_mem_needs hallowed hv hd', hlocks] at ht
  exact hne (Option.some.inj ht).symm

end Waiting

namespace World

variable {cfg : Settings} {u : Unicode} {w w' : World} {i : ℕ}

/-- Every process keeps to the discipline, and who holds a row lock is in a phase for it. -/
structure Accountable (w : World) : Prop where
  disciplined : w.Disciplined
  owner : ∀ i d, w.shared.locks d = some i → ∃ v, w.views[i]? = some v ∧ v.MayLock d

/-- Without locks there is nothing to account for. -/
theorem accountable_boot {s : Store} (hs : ∀ d, s.locks d = none) : (boot s).Accountable := by
  refine ⟨fun _ h ↦ absurd h List.not_mem_nil, fun i d hd ↦ ?_⟩
  rw [show (boot s).shared.locks d = none from hs d] at hd
  exact absurd hd (by simp)

/-- Every step keeps the locks accounted for. -/
theorem Accountable.act {a : Action} (h : w.Accountable) (ha : w.act cfg u a = some w') :
    w'.Accountable := by
  obtain ⟨hdisc, htrans⟩ := h.disciplined.act ha
  refine ⟨hdisc, fun i d hd ↦ ?_⟩
  cases htrans with
  | start hshared hviews | take _ hshared hviews =>
    rw [hshared] at hd
    obtain ⟨v, hi, hmay⟩ := h.owner i d hd
    refine ⟨v, ?_, hmay⟩
    rw [hviews, List.getElem?_append_left (List.getElem?_eq_some_iff.1 hi).1, hi]
  | duplicate _ hshared hviews =>
    rw [hshared] at hd
    obtain ⟨v, hi, hmay⟩ := h.owner i d hd
    exact ⟨v, by rw [hviews, hi], hmay⟩
  | @perform j e v o r _ hj hasks hallowed hserve hviews =>
    rw [hviews]
    -- nobody but the process itself takes a lock or gives it back
    by_cases hij : i = j
    · subst hij
      refine ⟨_, List.getElem?_set_self (List.getElem?_eq_some_iff.1 hj).1,
        mayLock_of_serve hallowed hserve (fun d hd ↦ ?_) hd⟩
      obtain ⟨v', hi, hmay⟩ := h.owner i d hd
      rw [hj] at hi
      rwa [Option.some.inj hi]
    · obtain ⟨v', hi, hmay⟩ := h.owner i d ((locks_of_ne hserve hij d).1 hd)
      exact ⟨v', by rw [List.getElem?_set_ne (Ne.symm hij), hi], hmay⟩

/-- What an unfinished process of a disciplined world asks for. -/
theorem Accountable.asks (h : w.Accountable) {t : Thread Op Op.Res (Except Exn Response) Phase}
    (ht : w.threads[i]? = some t) (hdone : ¬ t.IsDone) :
    ∃ o next, t.program = .perform o next ∧ t.view.Allowed o := by
  have hfollows := h.disciplined t (List.mem_of_getElem? ht)
  obtain ⟨program, view⟩ := t
  cases program with
  | pure a => exact absurd ⟨a, rfl⟩ hdone
  | perform o next => exact ⟨o, next, rfl, hfollows.1⟩

theorem act_perform {o : Op} {next : o.Res → Process} {v : Phase} {e : Env} {r : o.Res} {s : Store}
    (ht : w.threads[i]? = some ⟨.perform o next, v⟩)
    (hserve : serve i o e w.shared = some (r, s)) :
    w.act cfg u (.perform i e) =
      some ⟨s, w.threads.set i ⟨next r, Phase.discipline.observe v o r⟩⟩ := by
  show Pool.step serve Phase.discipline i e w = _
  simp only [Pool.step, ht, hserve]

/-- A process can carry out its next operation, whatever the environment decides. -/
def CanGoOn (cfg : Settings) (u : Unicode) (w : World) (i : ℕ) : Prop :=
  ∀ e, ∃ w', w.act cfg u (.perform i e) = some w'

/-- The holder of a row lock is not finished and can go on. -/
theorem Accountable.canGoOn_of_owner (h : w.Accountable) {d : Id}
    (hd : w.shared.locks d = some i) : w.CanGoOn cfg u i := by
  obtain ⟨v, hi, hmay⟩ := h.owner i d hd
  rw [Pool.views, List.getElem?_map] at hi
  obtain ⟨t, ht, rfl⟩ := Option.map_eq_some_iff.1 hi
  have hdone : ¬ t.IsDone := by
    rintro ⟨a, ha⟩
    have hends := h.disciplined t (List.mem_of_getElem? ht)
    rw [ha] at hends
    generalize t.view = v at hmay hends
    cases hends <;> exact hmay
  obtain ⟨o, next, hprogram, hallowed⟩ := h.asks ht hdone
  intro e
  obtain ⟨⟨r, s⟩, hserve⟩ := Option.ne_none_iff_exists'.1
    (serve_ne_none_of_owner (e := e) hallowed hmay hd)
  exact ⟨_, act_perform (by rw [ht, ← hprogram]) hserve⟩

/-- An unfinished process can carry out its next operation, or waits for one that can. -/
theorem Accountable.goes_on (h : w.Accountable) {t : Thread Op Op.Res (Except Exn Response) Phase}
    (ht : w.threads[i]? = some t) (hdone : ¬ t.IsDone) (e : Env) :
    (∃ w', w.act cfg u (.perform i e) = some w') ∨
      ∃ d j, w.shared.locks d = some j ∧ j ≠ i ∧ w.CanGoOn cfg u j := by
  obtain ⟨o, next, hprogram, -⟩ := h.asks ht hdone
  cases hserve : serve i o e w.shared with
  | some q =>
    obtain ⟨r, s⟩ := q
    exact Or.inl ⟨_, act_perform (by rw [ht, ← hprogram]) hserve⟩
  | none =>
    obtain ⟨d, -, j, hj, hne⟩ := exists_locked_of_serve hserve
    exact Or.inr ⟨d, j, hj, hne, h.canGoOn_of_owner hj⟩

theorem Accountable.reach {ok : World → Action → Prop} (h : w.Accountable)
    (hreach : Reach cfg u ok w w') : w'.Accountable :=
  hreach.invariant (fun _ _ _ hw _ ha ↦ Accountable.act hw ha) h

/-- **No deadlock.** In every run from a deployment without row locks, with any requests, restarts,
deliveries, deletions and failures: a process that is not finished can carry out its next operation,
or waits for a row lock whose holder can carry out its own, whatever the environment decides. -/
theorem no_deadlock (cfg : Settings) (u : Unicode) {s : Store} (hs : ∀ d, s.locks d = none)
    {w : World} (hrun : Reach cfg u (fun _ _ ↦ True) (boot s) w) {i : ℕ}
    {t : Thread Op Op.Res (Except Exn Response) Phase} (ht : w.threads[i]? = some t)
    (hdone : ¬ t.IsDone) (e : Env) :
    (∃ w', w.act cfg u (.perform i e) = some w') ∨
      ∃ d j, w.shared.locks d = some j ∧ j ≠ i ∧ w.CanGoOn cfg u j :=
  ((accountable_boot hs).reach hrun).goes_on ht hdone e

/-- Two triggers of one domain: the second one waits for the first. -/
theorem no_deadlock_twoTriggers : ∃ w, Reach {} .plain (fun _ _ ↦ True) (boot .oneDomain) w ∧
    (w.act {} .plain (.perform 1 {})).isNone ∧
    ∃ d j, w.shared.locks d = some j ∧ j ≠ 1 ∧ w.CanGoOn {} .plain j := by
  obtain ⟨w, hrun, hwaits, hdone⟩ := Runs.exists_reach (act {} .plain) (fun _ _ ↦ True)
    (fun w ↦ (w.act {} .plain (.perform 1 {})).isNone ∧ w.threads[1]?.any fun t ↦ ¬ t.IsDone)
    (s := boot .oneDomain) [.start (.trigger 0 7), .start (.trigger 0 8), .perform 0 {}]
    (by decide +kernel)
  obtain ⟨t, ht, hdone⟩ := (Option.any_eq_true _ _).1 hdone
  refine ⟨w, hrun, hwaits, (no_deadlock {} .plain (fun _ ↦ rfl) hrun ht (by simpa using hdone)
    {}).resolve_left ?_⟩
  rintro ⟨w', hw'⟩
  rw [hw'] at hwaits
  exact absurd hwaits (by simp)

/-! ### Coming to rest -/

/-- No message can be taken and no operation carried out. -/
def AtRest (cfg : Settings) (u : Unicode) (w : World) : Prop :=
  ∀ a : Action, a.Drains → w.act cfg u a = none

/-- A service is at rest just when its queue is empty and every process is finished. -/
theorem Accountable.atRest_iff (h : w.Accountable) :
    w.AtRest cfg u ↔ w.shared.queue = [] ∧ ∀ t ∈ w.threads, t.IsDone := by
  constructor
  · intro hrest
    refine ⟨?_, fun t ht ↦ ?_⟩
    · cases hqueue : w.shared.queue with
      | nil => rfl
      | cons m ms =>
        have htake := hrest (.take 0) trivial
        simp [World.act, hqueue] at htake
    · by_contra hdone
      obtain ⟨i, hi⟩ := List.mem_iff_getElem?.1 ht
      rcases h.goes_on hi hdone {} with ⟨w', hw'⟩ | ⟨d, j, -, -, hj⟩
      · rw [hrest (.perform i {}) trivial] at hw'
        exact absurd hw' (by simp)
      · obtain ⟨w', hw'⟩ := hj {}
        rw [hrest (.perform j {}) trivial] at hw'
        exact absurd hw' (by simp)
  · rintro ⟨hqueue, hdone⟩ a ha
    cases a with
    | start | duplicate => exact absurd ha id
    | take n => simp [World.act, hqueue]
    | perform i e =>
      show Pool.step serve Phase.discipline i e w = none
      cases ht : w.threads[i]? with
      | none => simp [Pool.step, ht]
      | some t =>
        obtain ⟨a, ha⟩ := hdone t (List.mem_of_getElem? ht)
        obtain ⟨program, view⟩ := t
        subst ha
        simp [Pool.step, ht]

end World

/-- A request in this phase has not committed a scan. -/
def Phase.Uncommitted : Phase → Prop
  | creating => True
  | created _ => True
  | triggering _ => True
  | locked _ => True
  | cleared _ => True
  | refused _ => True
  | _ => False

instance : DecidablePred Phase.Uncommitted := fun v ↦ by
  cases v <;> (unfold Phase.Uncommitted; infer_instance)

theorem Phase.Uncommitted.not_holdsRunning {v : Phase} (h : v.Uncommitted) (x : Id) :
    ¬ v.HoldsRunning x := by
  cases v with
  | creating | created | triggering | locked | cleared | refused => exact id
  | _ => exact absurd h id

theorem Phase.Uncommitted.not_holdsPending {v : Phase} (h : v.Uncommitted) (x d : Id) :
    ¬ v.HoldsPending x d := by
  cases v with
  | creating | created | triggering | locked | cleared | refused => exact id
  | _ => exact absurd h id

/-- A process that holds no scan may leave its phase for any other, if the rows and the queue stay
as they are. -/
theorem NoneStranded.leave {b : Board} {vs : List Phase} {i : ℕ} {v : Phase}
    (h : NoneStranded b vs) (hi : vs[i]? = some v) (hv : v.Uncommitted) (v' : Phase) :
    NoneStranded b (vs.set i v') := by
  refine ⟨fun x d hx ↦ ?_, fun x d hx ↦ ?_⟩
  · rcases h.running x d hx with hq | hhold
    · exact Or.inl hq
    · exact Or.inr ((Effect.exists_mem_set hi hhold).resolve_left (hv.not_holdsRunning x))
  · rcases h.pending x d hx with hrun | ⟨y, hy, hq | hhold⟩
    · exact Or.inl hrun
    · exact Or.inr ⟨y, hy, Or.inl hq⟩
    · exact Or.inr ⟨y, hy, Or.inr
        ((Effect.exists_mem_set hi hhold).resolve_left (hv.not_holdsPending y d))⟩

namespace World

variable {cfg : Settings} {u : Unicode}

/-- The action is an operation of a request that has not committed a scan. -/
def Spares (w : World) : Action → Prop
  | .perform i _ => w.views[i]?.any fun v ↦ v.Uncommitted
  | _ => False

instance (w : World) : DecidablePred w.Spares
  | .perform _ _ => instDecidableEqBool _ _
  | .start _ | .take _ | .duplicate _ => instDecidableFalse

/-- No domain is deleted, and what fails is at most an operation of a request that has not committed
a scan. -/
def Calm (w : World) (a : Action) : Prop :=
  Keeps a ∧ (w.Succeeds a ∨ w.Spares a)

instance (w : World) (a : Action) : Decidable (w.Calm a) :=
  inferInstanceAs (Decidable (Keeps a ∧ (w.Succeeds a ∨ w.Spares a)))

/-- A calm step strands no scan. -/
theorem noneStranded_calm {w w' : World} {a : Action} (hw : w.Sound)
    (h : NoneStranded w.shared.board w.views) (hok : w.Calm a)
    (ha : w.act cfg u a = some w') : NoneStranded w'.shared.board w'.views := by
  rcases hok.2 with hsucceeds | hspares
  · exact noneStranded_act hw h ⟨hok.1, hsucceeds⟩ ha
  · cases (hw.act hok.1 ha).2 with
    | start | take | duplicate => exact absurd hspares id
    | @perform i e v o r _ hi hasks hallowed hserve hviews =>
      have hv : v.Uncommitted := by simpa [Spares, hi] using hspares
      rw [hviews]
      rcases serve_move hallowed hserve with ⟨-, hboard, -⟩ | ⟨-, hmove⟩
      · rw [hboard]
        exact h.leave hi hv _
      · exact h.move hi (hw.grounded _ (List.mem_of_getElem? hi)) hmove

/-- **At rest, every scan is settled.** In a run from an empty deployment in which no domain is
deleted and nothing fails but requests that have not committed their scan, a service that has come
to rest has brought every scan to COMPLETED or FAILED. -/
theorem settled_at_rest (cfg : Settings) (u : Unicode) {w : World}
    (hrun : Reach cfg u Calm (boot .empty) w) (hrest : w.AtRest cfg u) :
    ∀ row ∈ w.shared.db.scans, ¬ row.status.IsActive := by
  have hinv : w.Sound ∧ NoneStranded w.shared.board w.views := by
    refine hrun.invariant (I := fun w ↦ w.Sound ∧ NoneStranded w.shared.board w.views)
      (fun w a w' hw hok ha ↦ ?_) ⟨sound_boot _, ?_⟩
    · exact ⟨(hw.1.act hok.1 ha).1, noneStranded_calm hw.1 hw.2 hok ha⟩
    · exact ⟨fun x d hx ↦ absurd hx nofun, fun x d hx ↦ absurd hx nofun⟩
  have haccountable := (accountable_boot fun _ ↦ rfl).reach hrun
  obtain ⟨hqueue, hdone⟩ := haccountable.atRest_iff.1 hrest
  exact not_isActive_of_quiet hinv.1 hinv.2 hqueue hdone

/-- Two requests for one name find it free; the commit of the second fails. The scan of the first is
processed. -/
def rivalRequests : List Action :=
  .start (.create "a.b" 7) :: .start (.create "a.b" 8) :: performs 0 1 ++ performs 1 1 ++
    performs 0 12 ++ performs 1 3 ++ .take 0 :: performs 2 23

theorem settled_at_rest_rivalRequests :
    ∃ w, Reach {} .plain Calm (boot .empty) w ∧ w.shared.db.scans.rows.length = 1 ∧
      ∀ row ∈ w.shared.db.scans, ¬ row.status.IsActive := by
  obtain ⟨w, hrun, hqueue, hdone, hrows⟩ := Runs.exists_reach (act {} .plain) Calm
    (fun w ↦ w.shared.queue = [] ∧ (∀ t ∈ w.threads, t.IsDone) ∧ w.shared.db.scans.rows.length = 1)
    (s := boot .empty) rivalRequests (by decide +kernel)
  have hrest : w.AtRest {} .plain :=
    ((accountable_boot fun _ ↦ rfl).reach hrun).atRest_iff.2 ⟨hqueue, hdone⟩
  exact ⟨w, hrun, hrows, settled_at_rest {} .plain hrun hrest⟩

end World

end AssetDiscovery
