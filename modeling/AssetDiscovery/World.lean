import AssetDiscovery.Conformance.Requests
import AssetDiscovery.Library.Runs
import AssetDiscovery.Protocol

/-!
# The interleaved service

A `World` is the shared state with every process that has been started. An `Action` is one step of
it: a request arrives or an API process starts, a worker takes any queued message, the broker
delivers a message once more, or one process carries out one operation. `World.act` carries an
action out, and `World.Reach ok` are the runs of this state machine whose actions all satisfy `ok`.

`World.Sound` is what holds in every run without a deletion: each process keeps to the discipline,
and the rows it works on are on the board. With it every step of a run is a move of the protocol
(`World.Sound.step`), from which the invariants of the service are proved.
-/

set_option autoImplicit false

namespace AssetDiscovery

open Effect

/-- The shared state and the processes. -/
abbrev World := Pool Op Op.Res (Except Exn Response) Store Phase

/-- A step of the interleaved service. -/
inductive Action where
  /-- A request arrives, or an API process starts. -/
  | start (r : Request)
  /-- A worker takes the `n`-th queued message. -/
  | take (n : ℕ)
  /-- The broker will deliver the `n`-th queued message once more. -/
  | duplicate (n : ℕ)
  /-- Process `i` carries out its next operation. -/
  | perform (i : ℕ) (e : Env)

namespace World

/-- No process has been started. -/
def boot (s : Store) : World := ⟨s, []⟩

variable (cfg : Settings) (u : Unicode)

/-- Carry out one action; `none` if there is no such message or process, or if it has to wait. -/
def act (w : World) : Action → Option World
  | .start r => some (w.spawn (Py.start (r.code u)) r.phase)
  | .take n =>
    match w.shared.queue[n]? with
    | some m =>
      some (Pool.spawn (Py.start (runDiscoveryScan cfg m)) m.phase
        { w with shared := { w.shared with queue := w.shared.queue.eraseIdx n } })
    | none => none
  | .duplicate n =>
    match w.shared.queue[n]? with
    | some m => some { w with shared := { w.shared with queue := w.shared.queue ++ [m] } }
    | none => none
  | .perform i e => w.step serve Phase.discipline i e

/-- Process `i` carries out `n` operations, none of which the environment disturbs. -/
def performs (i n : ℕ) : List Action :=
  List.replicate n (.perform i {})

/-- The resolver knows one address. -/
def oneAddress : Env where
  lookups
    | .a => .answer [{ toText := "192.0.2.1" }]
    | _ => .noAnswer

/-- `w'` is reached from `w` by actions that satisfy `ok`. -/
abbrev Reach : (World → Action → Prop) → World → World → Prop :=
  Runs.Reach (act cfg u)

variable {cfg u}

/-! ### Sound worlds -/

/-- The answers of the service are possible. -/
theorem possible_of_serve {i : ℕ} {o : Op} {e : Env} {s s' : Store} {r : o.Res}
    (h : serve i o e s = some (r, s')) : Phase.discipline.Possible o r := by
  cases o with
  | query q =>
    obtain ⟨-, -, ⟨err, rfl⟩ | rfl⟩ := serve_query h
    · cases q <;> trivial
    · cases q with
      | scan x =>
        show Phase.Possible (.query (.scan x)) (Except.ok (s.db.scans.get x))
        cases hrow : s.db.scans.get x with
        | none => trivial
        | some row => exact Table.key_of_get hrow
      | domain d =>
        show Phase.Possible (.query (.domain d)) (Except.ok (s.db.domains.get d))
        cases hrow : s.db.domains.get d with
        | none => trivial
        | some row => exact Table.key_of_get hrow
      | domainForUpdate d =>
        show Phase.Possible (.query (.domainForUpdate d)) (Except.ok (s.db.domains.get d))
        cases hrow : s.db.domains.get d with
        | none => trivial
        | some row => exact Table.key_of_get hrow
      | runningScans =>
        intro row hrow
        simpa using (List.mem_filter.1 hrow).2
      | _ => trivial
  | _ => trivial

/-- What one action does to the shared state and to the phases. -/
inductive Transition (w : World) : Action → World → Prop
  | start {r w'} (hshared : w'.shared = w.shared) (hviews : w'.views = w.views ++ [r.phase]) :
    Transition w (.start r) w'
  | take {n m w'} (hm : w.shared.queue[n]? = some m)
      (hshared : w'.shared = { w.shared with queue := w.shared.queue.eraseIdx n })
      (hviews : w'.views = w.views ++ [m.phase]) : Transition w (.take n) w'
  | duplicate {n m w'} (hm : w.shared.queue[n]? = some m)
      (hshared : w'.shared = { w.shared with queue := w.shared.queue ++ [m] })
      (hviews : w'.views = w.views) : Transition w (.duplicate n) w'
  | perform {i e v o r w'} (hi : w.views[i]? = some v) (hasks : w.asks i = some o)
      (hallowed : v.Allowed o) (hserve : serve i o e w.shared = some (r, w'.shared))
      (hviews : w'.views = w.views.set i (v.observe o r)) : Transition w (.perform i e) w'

/-- Every process keeps to the discipline. -/
abbrev Disciplined (w : World) : Prop :=
  Pool.Disciplined Phase.discipline (fun a v ↦ v.Ends a) w

/-- A step keeps every process to the discipline, and does what `Transition` says. -/
theorem Disciplined.act {w w' : World} {a : Action} (hw : w.Disciplined)
    (ha : w.act cfg u a = some w') : w'.Disciplined ∧ w.Transition a w' := by
  cases a with
  | start r =>
    obtain rfl := Option.some.inj ha
    exact ⟨hw.spawn (r.follows u), .start rfl (by simp [Pool.views, Pool.spawn])⟩
  | take n =>
    simp only [World.act] at ha
    split at ha
    · next m hm =>
      obtain rfl := Option.some.inj ha
      exact ⟨Pool.Disciplined.spawn (P := ⟨_, w.threads⟩) hw (m.follows cfg),
        .take hm rfl (by simp [Pool.views, Pool.spawn])⟩
    · exact absurd ha (by simp)
  | duplicate n =>
    simp only [World.act] at ha
    split at ha
    · next m hm =>
      obtain rfl := Option.some.inj ha
      exact ⟨hw, .duplicate hm rfl rfl⟩
    · exact absurd ha (by simp)
  | perform i e =>
    obtain ⟨hw', v, o, r, hi, hasks, hallowed, hserve, hviews⟩ :=
      Pool.Disciplined.step hw ha possible_of_serve
    exact ⟨hw', .perform hi hasks hallowed hserve hviews⟩

/-- Every process keeps to the discipline, and the rows it works on are on the board. -/
structure Sound (w : World) : Prop where
  disciplined : w.Disciplined
  grounded : ∀ v ∈ w.views, w.shared.board.Grounds v

/-- Before a process is started there is nothing to keep to. -/
theorem sound_boot (s : Store) : (boot s).Sound :=
  ⟨fun _ h ↦ absurd h List.not_mem_nil, fun _ h ↦ absurd h List.not_mem_nil⟩

/-- Every statement, commit or publish that this action carries out succeeds. -/
def Succeeds (w : World) : Action → Prop
  | .perform i e =>
    match w.asks i with
    | some o =>
      match serve i o e w.shared with
      | some (r, _) => ¬ o.Failed r
      | none => True
    | none => True
  | _ => True

instance (w : World) : DecidablePred w.Succeeds := fun a ↦ by
  unfold Succeeds
  split
  · split
    · split <;> infer_instance
    · infer_instance
  · infer_instance

/-- An operation that succeeds has not failed. -/
theorem not_failed_of_succeeds {w : World} {i : ℕ} {e : Env} {o : Op} {r : o.Res} {s : Store}
    (h : w.Succeeds (.perform i e)) (hasks : w.asks i = some o)
    (hserve : serve i o e w.shared = some (r, s)) : ¬ o.Failed r := by
  simpa only [Succeeds, hasks, hserve] using h

/-- No domain is deleted by this action. -/
def Keeps : Action → Prop
  | .start (.delete _) => False
  | _ => True

instance : DecidablePred Keeps
  | .start (.create _ _) | .start (.trigger _ _) | .start .recover | .take _ | .duplicate _
  | .perform _ _ => instDecidableTrue
  | .start (.delete _) => instDecidableFalse

/-- A step that deletes no domain keeps a world sound. -/
theorem Sound.act {w w' : World} {a : Action} (hw : w.Sound) (hkeeps : Keeps a)
    (ha : w.act cfg u a = some w') : w'.Sound ∧ w.Transition a w' := by
  obtain ⟨hdisc, htrans⟩ := hw.disciplined.act ha
  refine ⟨⟨hdisc, ?_⟩, htrans⟩
  have hgrounded := hw.grounded
  cases htrans with
  | @start r _ hshared hviews =>
    rw [hshared, hviews]
    intro v hv
    rcases List.mem_append.1 hv with hv | hv
    · exact hgrounded v hv
    · rw [List.mem_singleton.1 hv]
      cases r with
      | delete d => exact absurd hkeeps id
      | _ => trivial
  | take hm hshared hviews =>
    rw [hshared, hviews]
    intro v hv
    rcases List.mem_append.1 hv with hv | hv
    · exact hgrounded v hv
    · rw [List.mem_singleton.1 hv]
      trivial
  | duplicate hm hshared hviews =>
    rw [hshared, hviews]
    exact hgrounded
  | @perform i e v o r _ hi _ hallowed hserve hviews =>
    have hv := hgrounded v (List.mem_of_getElem? hi)
    rw [hviews]
    intro v' hv'
    rcases serve_move hallowed hserve with ⟨-, hboard, hfault⟩ | ⟨-, hmove⟩
    · rw [hboard]
      rcases List.mem_or_eq_of_mem_set hv' with hv' | rfl
      · exact hgrounded v' hv'
      · exact hfault.grounds hv
    · rcases List.mem_or_eq_of_mem_set hv' with hv' | rfl
      · exact (hmove.grows hv).grounds (hgrounded v' hv')
      · exact hmove.grounds hv

end World

end AssetDiscovery
