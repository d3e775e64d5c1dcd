import AssetDiscovery.Library.Knowledge
import AssetDiscovery.Library.Pool

/-!
# Races for a key

Several threads of a pool are after the same key. Each looks whether the key is stored and gives up
if it is; if it is not, the thread stores it in a later operation, and in between the others take
their steps.

A `Race` says what a thread knows of the shared state, how it stands by what it knows, and which
changes of the state are *quiet*: they leave the key and everybody's knowledge as they are. Only the
thread that stores the key makes other changes, and those who have not stored it know nothing that
the key's being stored could make wrong. `Race.Contends` is the rule for the code of one thread, of
the kind of `Program.Secures`, for the steps that satisfy `ok`.

If every thread contends, a run whose steps are all `ok` keeps the race `Fair`, and its results are
then as they are for threads that run one after the other (`Race.Under.decided`).
-/

set_option autoImplicit false

universe u v w x y z

namespace Effect

/-- How a thread that is after a key stands. -/
inductive Standing where
  /-- It may still store the key. -/
  | contending
  /-- It has found the key stored. -/
  | refused
  /-- It has stored the key. -/
  | won
  deriving DecidableEq, Repr

/-- How the threads stand together, if the key was stored `before` the race or not, and is `stored`
now or not. -/
structure Fair (before stored : Prop) (vs : List Standing) : Prop where
  stored_iff : stored ↔ before ∨ Standing.won ∈ vs
  stored_of_refused : Standing.refused ∈ vs → stored
  new_of_won : Standing.won ∈ vs → ¬ before
  unique : ∀ {i j : ℕ}, vs[i]? = some .won → vs[j]? = some .won → i = j

namespace Fair

variable {before stored stored' : Prop} {vs : List Standing} {i : ℕ}

/-- Where nobody contends nothing has happened. -/
theorem nil : Fair before before [] where
  stored_iff := by simp
  stored_of_refused h := absurd h List.not_mem_nil
  new_of_won h := absurd h List.not_mem_nil
  unique h := absurd h (by simp)

theorem congr (h : Fair before stored vs) (hstored : stored' ↔ stored) :
    Fair before stored' vs := by
  rw [propext hstored]
  exact h

/-- Another contender changes nothing. -/
theorem append (h : Fair before stored vs) : Fair before stored (vs ++ [.contending]) where
  stored_iff := by simpa using h.stored_iff
  stored_of_refused hmem := h.stored_of_refused (by simpa using hmem)
  new_of_won hmem := h.new_of_won (by simpa using hmem)
  unique hi hj := by
    rcases getElem?_append_view hi with hi | hi
    · rcases getElem?_append_view hj with hj | hj
      · exact h.unique hi hj
      · exact absurd hj (by simp)
    · exact absurd hi (by simp)

/-- Whoever has won is still listed after a thread that has not won stands otherwise. -/
theorem won_mem_set {v v' : Standing} (hi : vs[i]? = some v) (hv : v ≠ .won)
    (hmem : Standing.won ∈ vs) : Standing.won ∈ vs.set i v' := by
  have hset : v = .won ∨ ∃ u ∈ vs.set i v', u = .won :=
    exists_mem_set (P := fun u ↦ u = .won) hi ⟨_, hmem, rfl⟩
  obtain ⟨_, hu, rfl⟩ := hset.resolve_left hv
  exact hu

/-- A contender that is refused finds the name taken. -/
theorem refuse (h : Fair before stored vs) (hi : vs[i]? = some .contending) (hs : stored) :
    Fair before stored (vs.set i .refused) := by
  have hwon : Standing.won ∈ vs.set i .refused → Standing.won ∈ vs := fun hmem ↦
    (List.mem_or_eq_of_mem_set hmem).resolve_right (by simp)
  refine ⟨⟨fun hs ↦ ?_, fun _ ↦ hs⟩, fun _ ↦ hs, fun hmem ↦ h.new_of_won (hwon hmem), ?_⟩
  · exact (h.stored_iff.1 hs).imp_right (won_mem_set hi (by simp))
  · intro j k hj hk
    rcases getElem?_set_view hj with ⟨-, hj⟩ | ⟨-, hj⟩
    · exact absurd hj (by simp)
    · rcases getElem?_set_view hk with ⟨-, hk⟩ | ⟨-, hk⟩
      · exact absurd hk (by simp)
      · exact h.unique hj hk

/-- A contender that wins is the first one. -/
theorem win (h : Fair before stored vs) (hi : vs[i]? = some .contending) (hs : ¬ stored)
    (hs' : stored') : Fair before stored' (vs.set i .won) := by
  have hnone : Standing.won ∉ vs := fun hmem ↦ hs (h.stored_iff.2 (Or.inr hmem))
  have hself : ∀ {j : ℕ}, (vs.set i .won)[j]? = some .won → j = i := by
    intro j hj
    rcases getElem?_set_view hj with ⟨hji, -⟩ | ⟨-, hj⟩
    · exact hji
    · exact absurd (List.mem_of_getElem? hj) hnone
  refine ⟨⟨fun _ ↦ Or.inr (mem_set_self hi), fun _ ↦ hs'⟩, fun _ ↦ hs', fun _ hbefore ↦ ?_,
    fun hj hk ↦ (hself hj).trans (hself hk).symm⟩
  exact hs (h.stored_iff.2 (Or.inl hbefore))

end Fair

/-- A key that threads are after. -/
structure Race (Op : Type u) (Res : Op → Type v) (Env : Type x) (State : Type y)
    (Info : Type z) where
  /-- What the operations of each thread do. -/
  handler : ℕ → Handler Op Res Env State
  /-- The steps that are considered. -/
  ok : Op → Env → State → Prop
  /-- The key is stored. -/
  Stored : State → Prop
  /-- A thread knows this of the state. -/
  Known : ℕ → Info → State → Prop
  /-- How a thread stands that knows this. -/
  standing : Info → Standing
  /-- What a thread knows that has just been started. -/
  start : Info
  /-- A change of the state that nobody minds. -/
  Quiet : State → State → Prop
  standing_start : standing start = .contending
  stored_of_quiet : ∀ {s s'}, Quiet s s' → (Stored s' ↔ Stored s)
  known_of_quiet : ∀ {i k s s'}, Known i k s → Quiet s s' → Known i k s'
  /-- Who has not stored the key knows nothing that its being stored makes wrong. -/
  known_of_stored : ∀ {i k s s'}, Known i k s → standing k ≠ .won → Stored s' → Known i k s'

namespace Race

variable {Op : Type u} {Res : Op → Type v} {α β : Type w} {Env : Type x} {State : Type y}
variable {Info : Type z} {View : Type*}

variable (R : Race Op Res Env State Info)

/-- What a step of a thread is for the race. -/
inductive Turn : Info → State → Info → State → Prop
  | quiet {k s k' s'} (hk : R.standing k' = R.standing k) (h : R.Quiet s s') : Turn k s k' s'
  | refused {k s k' s'} (hk : R.standing k = .contending) (hk' : R.standing k' = .refused)
      (hs : R.Stored s) (h : R.Quiet s s') : Turn k s k' s'
  | won {k s k' s'} (hk : R.standing k = .contending) (hk' : R.standing k' = .won)
      (hs : ¬ R.Stored s) (hs' : R.Stored s') : Turn k s k' s'
  /-- The winner goes on. -/
  | further {k s k' s'} (hk : R.standing k = .won) (hk' : R.standing k' = .won)
      (hs' : R.Stored s') : Turn k s k' s'

/-- Knowing this, thread `i` can go on by the rules of the race, whatever the others do, and ends
as `Q` says. -/
def Contends (i : ℕ) (Q : α → Info → Prop) : Program Op Res α → Info → Prop
  | .pure a, k => ∀ s, R.Known i k s → Q a k
  | .perform o next, k => ∀ s e, R.Known i k s → R.ok o e s →
    ∃ r s' k', R.handler i o e s = some (r, s') ∧ R.Known i k' s' ∧ R.Turn k s k' s' ∧
      Contends i Q (next r) k'

variable {R} {i : ℕ}

/-! ### The code of one thread -/

/-- Code may be judged by what is known of the state that it begins in. -/
theorem contends_of_known {Q : α → Info → Prop} {p : Program Op Res α} {k : Info}
    (h : ∀ s, R.Known i k s → R.Contends i Q p k) : R.Contends i Q p k := by
  cases p with
  | pure a => exact fun s hs ↦ h s hs s hs
  | perform o next => exact fun s e hs ↦ h s hs s e hs

/-- A weaker end is reached as well. -/
theorem Contends.mono {Q Q' : α → Info → Prop} {p : Program Op Res α} {k : Info}
    (h : R.Contends i Q p k) (hQ : ∀ a k, Q a k → Q' a k) : R.Contends i Q' p k := by
  induction p generalizing k with
  | pure a => exact fun s hs ↦ hQ a k (h s hs)
  | perform o next ih =>
    intro s e hs hok
    obtain ⟨r, s', k', hr, hs', hturn, hnext⟩ := h s e hs hok
    exact ⟨r, s', k', hr, hs', hturn, ih r hnext⟩

/-- The rule of sequential composition. -/
theorem contends_bind {Q : β → Info → Prop} {p : Program Op Res α} {f : α → Program Op Res β}
    {k : Info} (h : R.Contends i (fun a k ↦ R.Contends i Q (f a) k) p k) :
    R.Contends i Q (p.bind f) k := by
  induction p generalizing k with
  | pure a => exact contends_of_known h
  | perform o next ih =>
    intro s e hs hok
    obtain ⟨r, s', k', hr, hs', hturn, hnext⟩ := h s e hs hok
    exact ⟨r, s', k', hr, hs', hturn, ih r hnext⟩

/-- An operation that changes the state quietly. -/
theorem contends_quiet {Q : α → Info → Prop} {o : Op} {next : Res o → Program Op Res α} {k : Info}
    (h : ∀ s e, R.Known i k s → R.ok o e s →
      ∃ r s', R.handler i o e s = some (r, s') ∧ R.Quiet s s' ∧ R.Contends i Q (next r) k) :
    R.Contends i Q (.perform o next) k := by
  intro s e hs hok
  obtain ⟨r, s', hr, hquiet, hnext⟩ := h s e hs hok
  exact ⟨r, s', k, hr, R.known_of_quiet hs hquiet, .quiet rfl hquiet, hnext⟩

/-- Once a thread has won, it is enough that its code is correct by what it knows. -/
theorem contends_of_secures {Info' : Type*} (won : Info' → Info)
    {H : Handler Op Res Env State} {K : Info' → State → Prop} {G : Info' → Op → Info' → Prop}
    {Q : α → Info' → Prop} (hH : ∀ {o e s}, R.ok o e s → H o e s = R.handler i o e s)
    (hK : ∀ {k s}, R.Known i (won k) s ↔ K k s) (hwon : ∀ k, R.standing (won k) = .won)
    (hstored : ∀ {k s}, K k s → R.Stored s) {p : Program Op Res α} {k : Info'}
    (h : p.Secures H K G Q k) : R.Contends i (fun a k ↦ ∃ k', k = won k' ∧ Q a k') p (won k) := by
  induction p generalizing k with
  | pure a => exact fun s hs ↦ ⟨k, rfl, h s (hK.1 hs)⟩
  | perform o next ih =>
    intro s e hs hok
    obtain ⟨r, s', k', hr, hs', -, hnext⟩ := h s e (hK.1 hs)
    exact ⟨r, s', won k', (hH hok).symm.trans hr, hK.2 hs',
      .further (hwon k) (hwon k') (hstored hs'), ih r hnext⟩

/-! ### The pool -/

/-- A turn of one thread leaves the knowledge of another alone, if they have not both won. -/
theorem Turn.known {j : ℕ} {k k' l : Info} {s s' : State} (h : R.Turn k s k' s')
    (hl : R.Known j l s) (hboth : ¬ (R.standing k = .won ∧ R.standing l = .won))
    (hnew : R.standing l = .won → R.Stored s) : R.Known j l s' := by
  cases h with
  | quiet _ hquiet => exact R.known_of_quiet hl hquiet
  | refused _ _ _ hquiet => exact R.known_of_quiet hl hquiet
  | won _ _ hs hs' => exact R.known_of_stored hl (fun hwon ↦ hs (hnew hwon)) hs'
  | further hk _ hs' => exact R.known_of_stored hl (fun hwon ↦ hboth ⟨hk, hwon⟩) hs'

/-- A turn keeps the race fair. -/
theorem Turn.fair {before : Prop} {vs : List Standing} {k k' : Info} {s s' : State}
    (h : R.Turn k s k' s') (hi : vs[i]? = some (R.standing k))
    (hfair : Fair before (R.Stored s) vs) :
    Fair before (R.Stored s') (vs.set i (R.standing k')) := by
  have hsame : R.standing k' = R.standing k → vs.set i (R.standing k') = vs := by
    intro hk
    obtain ⟨hlt, hget⟩ := List.getElem?_eq_some_iff.1 hi
    rw [hk, ← hget, List.set_getElem_self]
  cases h with
  | quiet hk hquiet =>
    rw [hsame hk]
    exact hfair.congr (R.stored_of_quiet hquiet)
  | refused hk hk' hs hquiet =>
    rw [hk] at hi
    rw [hk']
    exact (hfair.refuse hi hs).congr (R.stored_of_quiet hquiet)
  | won hk hk' hs hs' =>
    rw [hk] at hi
    rw [hk']
    exact hfair.win hi hs hs'
  | further hk hk' hs' =>
    rw [hsame (hk'.trans hk.symm)]
    rw [hk] at hi
    exact hfair.congr ⟨fun _ ↦ hfair.stored_iff.2 (Or.inr (List.mem_of_getElem? hi)), fun _ ↦ hs'⟩

/-- The threads know `ks`, each goes on by the rules, and the race is fair. -/
structure Under (R : Race Op Res Env State Info) (before : Prop) (Q : α → Info → Prop)
    (ks : List Info) (P : Pool Op Res α State View) : Prop where
  length : ks.length = P.threads.length
  knows : ∀ {i : ℕ} {t k}, P.threads[i]? = some t → ks[i]? = some k →
    R.Known i k P.shared ∧ R.Contends i Q t.program k
  known_start : ∀ i, R.Known i R.start P.shared
  fair : Fair before (R.Stored P.shared) (ks.map R.standing)

variable {before : Prop} {Q : α → Info → Prop} {ks : List Info} {P P' : Pool Op Res α State View}

/-- Before the race begins nobody has won it. -/
theorem under_nil (hP : P.threads = []) (hknown : ∀ i, R.Known i R.start P.shared) :
    R.Under (R.Stored P.shared) Q [] P where
  length := by rw [hP]; rfl
  knows ht := absurd ht (by simp [hP])
  known_start := hknown
  fair := .nil

/-- Another thread may join at any time. -/
theorem Under.spawn (h : R.Under before Q ks P) {p : Program Op Res α} {v : View}
    (hp : ∀ i, R.Contends i Q p R.start) : R.Under before Q (ks ++ [R.start]) (P.spawn p v) where
  length := by simp [Pool.spawn, h.length]
  knows := by
    intro j t l ht hl
    by_cases hj : j < P.threads.length
    · rw [Pool.spawn, List.getElem?_append_left hj] at ht
      rw [List.getElem?_append_left (h.length.symm ▸ hj)] at hl
      exact h.knows ht hl
    · rw [Pool.spawn, List.getElem?_append_right (Nat.le_of_not_lt hj)] at ht
      rw [List.getElem?_append_right (h.length.symm ▸ Nat.le_of_not_lt hj)] at hl
      obtain rfl := List.mem_singleton.1 (List.mem_of_getElem? ht)
      obtain rfl := List.mem_singleton.1 (List.mem_of_getElem? hl)
      exact ⟨h.known_start j, hp j⟩
  known_start := h.known_start
  fair := by
    rw [List.map_append, List.map_singleton, R.standing_start]
    exact h.fair.append

/-- Something is known of each contender. -/
theorem Under.exists_info (h : R.Under before Q ks P) {t : Thread Op Res α View}
    (ht : P.threads[i]? = some t) : ∃ k, ks[i]? = some k := by
  have hlt : i < ks.length := h.length.symm ▸ (List.getElem?_eq_some_iff.1 ht).1
  exact ⟨_, List.getElem?_eq_getElem hlt⟩

/-- No thread waits. -/
theorem Under.proceeds (h : R.Under before Q ks P) {D : Discipline Op Res View} {o : Op} {e : Env}
    (ho : P.asks i = some o) (hok : R.ok o e P.shared) : (P.step R.handler D i e).isSome := by
  rw [Pool.asks] at ho
  split at ho
  · next o' next v ht =>
    obtain rfl := Option.some.inj ho
    obtain ⟨k, hk⟩ := h.exists_info ht
    obtain ⟨hknown, hcontends⟩ := h.knows ht hk
    obtain ⟨r, s', k', hr, -⟩ := hcontends P.shared e hknown hok
    simp [Pool.step, ht, hr]
  · exact absurd ho (by simp)

/-- A step that is considered. -/
theorem Under.step (h : R.Under before Q ks P) {D : Discipline Op Res View} {e : Env}
    (hok : ∀ o, P.asks i = some o → R.ok o e P.shared) (hstep : P.step R.handler D i e = some P') :
    ∃ ks', R.Under before Q ks' P' := by
  obtain ⟨o, next, v, r, s, ht, hr, rfl⟩ := Pool.step_eq_some hstep
  obtain ⟨k, hk⟩ := h.exists_info ht
  obtain ⟨hknown, hcontends⟩ := h.knows ht hk
  obtain ⟨r', s', k', hr', hknown', hturn, hnext⟩ :=
    hcontends P.shared e hknown (hok o (by rw [Pool.asks, ht]))
  obtain ⟨rfl, rfl⟩ := Prod.mk.inj (Option.some.inj (hr.symm.trans hr'))
  have hstanding : ∀ {j : ℕ} {l}, ks[j]? = some l →
      (ks.map R.standing)[j]? = some (R.standing l) := by
    intro j l hl
    rw [List.getElem?_map, hl]
    rfl
  refine ⟨ks.set i k', by simp [h.length], ?_, fun j ↦ ?_, ?_⟩
  · intro j t l hj hl
    rcases getElem?_set_view hl with ⟨rfl, rfl⟩ | ⟨hji, hl⟩
    · rw [List.getElem?_set_self (List.getElem?_eq_some_iff.1 ht).1] at hj
      rw [← Option.some.inj hj]
      exact ⟨hknown', hnext⟩
    · rw [List.getElem?_set_ne (Ne.symm hji)] at hj
      obtain ⟨hother, hgoes⟩ := h.knows hj hl
      refine ⟨hturn.known hother (fun hboth ↦ hji ?_) fun hwon ↦ ?_, hgoes⟩
      · exact h.fair.unique (hboth.2 ▸ hstanding hl) (hboth.1 ▸ hstanding hk)
      · exact h.fair.stored_iff.2 (Or.inr (List.mem_of_getElem? (hwon ▸ hstanding hl)))
  · have hstart : R.standing R.start ≠ .won := by simp [R.standing_start]
    exact hturn.known (h.known_start j) (fun hboth ↦ hstart hboth.2) fun hwon ↦ absurd hwon hstart
  · rw [List.map_set]
    exact hturn.fair (hstanding hk) h.fair

end Race

/-! ### How a race ends -/

/-- How threads that are after a key should end, if it was stored `before` or not: each that is done
has succeeded or met a conflict; none has succeeded if the key was stored before, and at most one if
it was not; and once all are done, one has, and the key is stored `now`. -/
structure Pool.Decided {Op : Type u} {Res : Op → Type v} {α : Type w} {State : Type y}
    {View : Type z} (Success Conflict : α → Prop) (before now : Prop)
    (P : Pool Op Res α State View) : Prop where
  answered : ∀ {i a}, P.result i = some a → Success a ∨ Conflict a
  none_of_before : before → ∀ {i a}, P.result i = some a → ¬ Success a
  unique : ∀ {i j a b}, P.result i = some a → P.result j = some b → Success a → Success b → i = j
  exists_of_new : ¬ before → P.threads ≠ [] → (∀ t ∈ P.threads, t.IsDone) →
    ∃ i a, P.result i = some a ∧ Success a
  stored : P.threads ≠ [] → (∀ t ∈ P.threads, t.IsDone) → now

namespace Race

variable {Op : Type u} {Res : Op → Type v} {α : Type w} {Env : Type x} {State : Type y}
variable {Info : Type z} {View : Type*}
variable {R : Race Op Res Env State Info} {before : Prop} {ks : List Info}
variable {P : Pool Op Res α State View} {Success Conflict : α → Prop}

/-- How a thread ends that has taken part. -/
inductive Ends (R : Race Op Res Env State Info) (Success Conflict : α → Prop) (a : α) (k : Info) :
    Prop
  | won (hk : R.standing k = .won) (ha : Success a)
  | refused (hk : R.standing k = .refused) (ha : Conflict a)

/-- A contender that is done has ended as its knowledge says. -/
theorem Under.ends (h : R.Under before (R.Ends Success Conflict) ks P) {i : ℕ} {a : α}
    (ha : P.result i = some a) : ∃ k, ks[i]? = some k ∧ R.Ends Success Conflict a k := by
  rw [Pool.result] at ha
  split at ha
  · next a' v ht =>
    obtain rfl := Option.some.inj ha
    obtain ⟨k, hk⟩ := h.exists_info ht
    obtain ⟨hknown, hcontends⟩ := h.knows ht hk
    exact ⟨k, hk, hcontends _ hknown⟩
  · exact absurd ha (by simp)

/-- Who has succeeded has won. -/
theorem Under.won_of_success (h : R.Under before (R.Ends Success Conflict) ks P)
    (hne : ∀ a, Success a → ¬ Conflict a) {i : ℕ} {a : α} (hi : P.result i = some a)
    (ha : Success a) : (ks.map R.standing)[i]? = some .won := by
  obtain ⟨k, hk, hends⟩ := h.ends hi
  cases hends with
  | won hwon _ => rw [List.getElem?_map, hk, ← hwon]; rfl
  | refused _ hconflict => exact absurd hconflict (hne a ha)

/-- A pool under the rules of a race ends as it should. -/
theorem Under.decided (h : R.Under before (R.Ends Success Conflict) ks P)
    (hne : ∀ a, Success a → ¬ Conflict a) :
    P.Decided Success Conflict before (R.Stored P.shared) := by
  have hfair := h.fair
  have hresult : ∀ t ∈ P.threads, t.IsDone → ∃ i a, P.result i = some a := by
    rintro ⟨p, v⟩ ht ⟨a, rfl⟩
    obtain ⟨i, hi⟩ := List.mem_iff_getElem?.1 ht
    exact ⟨i, a, by rw [Pool.result, hi]⟩
  -- once all have ended, the key is stored: a loser was refused because of it
  have hstored : P.threads ≠ [] → (∀ t ∈ P.threads, t.IsDone) → R.Stored P.shared := by
    intro hthreads hdone
    obtain ⟨t, ht⟩ := List.exists_mem_of_ne_nil _ hthreads
    obtain ⟨i, a, ha⟩ := hresult t ht (hdone t ht)
    obtain ⟨k, hk, hends⟩ := h.ends ha
    have hmem : R.standing k ∈ ks.map R.standing := List.mem_map_of_mem (List.mem_of_getElem? hk)
    cases hends with
    | won hwon _ => exact hfair.stored_iff.2 (Or.inr (hwon ▸ hmem))
    | refused hrefused _ => exact hfair.stored_of_refused (hrefused ▸ hmem)
  refine ⟨fun hi ↦ ?_, fun hbefore i a hi ha ↦ ?_, fun hi hj ha hb ↦ ?_,
    fun hnew hthreads hdone ↦ ?_, hstored⟩
  · obtain ⟨k, -, hends⟩ := h.ends hi
    cases hends with
    | won _ ha => exact Or.inl ha
    | refused _ ha => exact Or.inr ha
  · exact hfair.new_of_won (List.mem_of_getElem? (h.won_of_success hne hi ha)) hbefore
  · exact hfair.unique (h.won_of_success hne hi ha) (h.won_of_success hne hj hb)
  · -- the key is stored by now, so somebody has won, and has ended
    have hmem := (hfair.stored_iff.1 (hstored hthreads hdone)).resolve_left hnew
    obtain ⟨k, hk, hwon⟩ := List.mem_map.1 hmem
    obtain ⟨i, hi⟩ := List.mem_iff_getElem?.1 hk
    have hlt : i < P.threads.length := h.length ▸ (List.getElem?_eq_some_iff.1 hi).1
    obtain ⟨a, ha⟩ := hdone _ (List.getElem_mem hlt)
    have hresult : P.result i = some a := by
      rw [Pool.result, List.getElem?_eq_getElem hlt]
      rw [show P.threads[i] = ⟨.pure a, P.threads[i].view⟩ by rw [← ha]]
    obtain ⟨k', hk', hends⟩ := h.ends hresult
    rw [hi] at hk'
    obtain rfl := Option.some.inj hk'
    cases hends with
    | won _ hsuccess => exact ⟨i, a, hresult, hsuccess⟩
    | refused hrefused _ => exact absurd (hwon.symm.trans hrefused) (by simp)

end Race

end Effect
