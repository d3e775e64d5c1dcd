import AssetDiscovery.World

/-!
# Row locks

Who holds the row lock of a domain can be read off the phases: a trigger holds it from the moment
its `SELECT ... FOR UPDATE` returns the row until its transaction ends. `World.LockOwned` states
this in both directions, and every action keeps it.
-/

set_option autoImplicit false

namespace AssetDiscovery

open Effect Phase

/-- A process in this phase holds the row lock of `d`. -/
def Phase.Locks : Phase → Id → Prop
  | locked d, d' => d = d'
  | cleared d, d' => d = d'
  | _, _ => False

/-- A process in this phase may hold the row lock of `d`. -/
def Phase.MayLock : Phase → Id → Prop
  | locked d, d' => d = d'
  | cleared d, d' => d = d'
  | refused d, d' => d = d'
  | _, _ => False

/-- The lock of a domain after it is taken. -/
def Store.takeLock (s : Store) (i : ℕ) (d : Id) : Id → Option ℕ :=
  fun d' ↦ if d' = d then some i else s.locks d'

/-- An operation with this answer ends the transaction of its process. -/
def Op.EndsTransaction : (o : Op) → o.Res → Prop
  | .commit _ _, _ => True
  | .rollback, _ => True
  | .close, _ => True
  | .flush _, r => r.toOption = none
  | _, _ => False

/-- What `SELECT ... FOR UPDATE` does to the row locks. -/
theorem serve_domainForUpdate {i : ℕ} {d : Id} {e : Env} {s s' : Store}
    {r : Except DbError (Option Domain)}
    (h : serve i (.query (.domainForUpdate d)) e s = some (r, s')) :
    (s'.locks = s.locks ∧ ((∃ err, r = .error err) ∨ r = .ok none)) ∨
      (∃ row, r = .ok (some row)) ∧ ¬ s.LockedFor i d ∧ s'.locks = s.takeLock i d := by
  simp only [serve] at h
  split at h
  · obtain ⟨rfl, rfl⟩ := Prod.mk.inj (Option.some.inj h)
    exact Or.inl ⟨rfl, Or.inl ⟨_, rfl⟩⟩
  · split at h
    · exact absurd h (by simp)
    · next hfree =>
      split at h
      · obtain ⟨rfl, rfl⟩ := Prod.mk.inj (Option.some.inj h)
        exact Or.inl ⟨rfl, Or.inr rfl⟩
      · obtain ⟨rfl, rfl⟩ := Prod.mk.inj (Option.some.inj h)
        exact Or.inr ⟨⟨_, rfl⟩, hfree, rfl⟩

/-- What the other operations do to the row locks. -/
theorem serve_locks {i : ℕ} {o : Op} {e : Env} {s s' : Store} {r : o.Res}
    (ho : ∀ d, o ≠ .query (.domainForUpdate d)) (h : serve i o e s = some (r, s')) :
    (¬ o.EndsTransaction r ∧ s'.locks = s.locks) ∨
      (o.EndsTransaction r ∧ s'.locks = (s.release i).locks) := by
  cases o with
  | query q =>
    simp only [serve] at h
    split at h
    · obtain ⟨rfl, rfl⟩ := Prod.mk.inj (Option.some.inj h)
      exact Or.inl ⟨id, rfl⟩
    · cases q with
      | domainForUpdate d => exact absurd rfl (ho d)
      | _ =>
        obtain ⟨rfl, rfl⟩ := Prod.mk.inj (Option.some.inj h)
        exact Or.inl ⟨id, rfl⟩
  -- a flush that is refused rolls back, and the locks go with the transaction
  | flush ws =>
    simp only [serve] at h
    split at h
    · obtain ⟨rfl, rfl⟩ := Prod.mk.inj (Option.some.inj h)
      exact Or.inr ⟨rfl, rfl⟩
    · split at h
      · exact absurd h (by simp)
      · split at h
        · obtain ⟨rfl, rfl⟩ := Prod.mk.inj (Option.some.inj h)
          exact Or.inl ⟨Option.some_ne_none _, rfl⟩
        · obtain ⟨rfl, rfl⟩ := Prod.mk.inj (Option.some.inj h)
          exact Or.inr ⟨rfl, rfl⟩
  | commit site ws =>
    simp only [serve] at h
    split at h
    · obtain ⟨rfl, rfl⟩ := Prod.mk.inj (Option.some.inj h)
      exact Or.inr ⟨trivial, rfl⟩
    · split at h
      · exact absurd h (by simp)
      · split at h
        · obtain ⟨rfl, rfl⟩ := Prod.mk.inj (Option.some.inj h)
          exact Or.inr ⟨trivial, rfl⟩
        · obtain ⟨rfl, rfl⟩ := Prod.mk.inj (Option.some.inj h)
          exact Or.inr ⟨trivial, rfl⟩
  | rollback =>
    obtain ⟨-, rfl⟩ := Prod.mk.inj (Option.some.inj h)
    exact Or.inr ⟨trivial, rfl⟩
  | close =>
    obtain ⟨-, rfl⟩ := Prod.mk.inj (Option.some.inj h)
    exact Or.inr ⟨trivial, rfl⟩
  | publish m =>
    simp only [serve] at h
    split at h
    · obtain ⟨rfl, rfl⟩ := Prod.mk.inj (Option.some.inj h)
      exact Or.inl ⟨id, rfl⟩
    · obtain ⟨rfl, rfl⟩ := Prod.mk.inj (Option.some.inj h)
      exact Or.inl ⟨id, rfl⟩
  | lookup | now | uuid4 =>
    obtain ⟨-, rfl⟩ := Prod.mk.inj (Option.some.inj h)
    exact Or.inl ⟨id, rfl⟩

/-- A process that gives its locks back holds none. -/
theorem release_locks_self (s : Store) (i : ℕ) (d : Id) : (s.release i).locks d ≠ some i := by
  intro h
  have h' := Option.eq_some_of_filter_eq_some h
  simp [Store.release, h'] at h

/-- The locks of the others stay. -/
theorem release_locks_of_ne (s : Store) {i j : ℕ} (hij : j ≠ i) (d : Id) :
    (s.release i).locks d = some j ↔ s.locks d = some j := by
  rw [Store.release, Option.filter_eq_some_iff]
  simp [hij]

/-- An operation of one process takes no lock from another. -/
theorem locks_of_ne {i j : ℕ} {o : Op} {e : Env} {s s' : Store} {r : o.Res}
    (h : serve i o e s = some (r, s')) (hij : j ≠ i) (d : Id) :
    s'.locks d = some j ↔ s.locks d = some j := by
  by_cases ho : ∃ d, o = .query (.domainForUpdate d)
  · obtain ⟨d', rfl⟩ := ho
    rcases serve_domainForUpdate h with ⟨hlocks, -⟩ | ⟨-, hfree, hlocks⟩
    · rw [hlocks]
    · rw [hlocks, Store.takeLock]
      split
      · next hd =>
        subst hd
        refine ⟨fun h ↦ absurd (Option.some.inj h).symm hij, fun h ↦ absurd ⟨j, h, hij⟩ hfree⟩
      · rfl
  · rcases serve_locks (not_exists.1 ho) h with ⟨-, hlocks⟩ | ⟨-, hlocks⟩
    · rw [hlocks]
    · rw [hlocks, release_locks_of_ne s hij]

/-! ### Locks and phases -/

variable {o : Op} {b b' : Board} {v v' : Phase} {d : Id}

/-- A process that an error stops holds no lock. -/
theorem Fault.not_locks (h : Fault v v') : ¬ v'.Locks d :=
  h.cases_of (P := fun v ↦ ¬ v.Locks d) id (fun _ _ ↦ id) (fun _ ↦ id) (fun _ _ ↦ id)
    fun _ _ _ ↦ id

/-- A process comes to hold a lock only by `SELECT ... FOR UPDATE`. -/
theorem Move.locks (h : Move o b v b' v') (hv : b.Grounds v) (hlocks : v'.Locks d) :
    v.Locks d ∨ ∃ d', o = .query (.domainForUpdate d') := by
  cases h with
  | gone hgone => exact absurd hv hgone
  | stay => exact Or.inl hlocks
  | lock => exact Or.inr ⟨_, rfl⟩
  | clear => exact Or.inl hlocks
  | _ => exact absurd hlocks id

/-- A move after which the check for an active scan has passed is the check itself, or the process
had passed it. -/
theorem Move.cleared (h : Move o b v b' (Phase.cleared d)) (hgrounds : b.Grounds v) :
    v = Phase.cleared d ∨ (v = Phase.locked d ∧ ∀ x, ¬ b.HasActive x d) := by
  cases h with
  | gone hgone => exact absurd hgrounds hgone
  | stay => exact Or.inl rfl
  | clear hnone => exact Or.inr ⟨rfl, hnone⟩

section Serve

variable {i : ℕ} {e : Env} {s s' : Store} {r : o.Res}

/-- A process that holds a lock after an operation has it in the store. -/
theorem locks_of_serve (hallowed : v.Allowed o) (hv : s.board.Grounds v)
    (h : serve i o e s = some (r, s')) (hinv : ∀ d, v.Locks d → s.locks d = some i)
    (hlocks : (v.observe o r).Locks d) : s'.locks d = some i := by
  have hfrom : v.Locks d ∨ ∃ d', o = .query (.domainForUpdate d') := by
    rcases serve_move hallowed h with ⟨-, -, hfault⟩ | ⟨-, hmove⟩
    · exact absurd hlocks hfault.not_locks
    · exact hmove.locks hv hlocks
  by_cases ho : ∃ d, o = .query (.domainForUpdate d)
  · obtain ⟨d', rfl⟩ := ho
    obtain ⟨hreads⟩ := hallowed
    cases hreads with
    | triggering =>
      rcases serve_domainForUpdate h with ⟨-, ⟨err, rfl⟩ | rfl⟩ | ⟨⟨row, rfl⟩, -, hset⟩
      · exact absurd hlocks id
      · exact absurd hlocks id
      · obtain rfl : d' = d := hlocks
        rw [hset, Store.takeLock, if_pos rfl]
  · have hv := hfrom.resolve_right ho
    rcases serve_locks (not_exists.1 ho) h with ⟨-, hsame⟩ | ⟨hends, -⟩
    · rw [hsame]
      exact hinv d hv
    · -- the operations that end a transaction also end the phases that hold a lock
      cases v with
      | locked d' =>
        cases hallowed with
        | query hreads => exact absurd hends id
        | commit hcommits => cases hcommits
        | close hcloses => cases hcloses
        | publish hpub => cases hpub
        | _ => exact absurd hends id
      | cleared d' =>
        cases hallowed with
        | query hreads => cases hreads
        | flush =>
          cases r with
          | ok _ => exact absurd hends nofun
          | error _ => exact absurd hlocks id
        | commit hcommits =>
          cases hcommits with
          | triggerManualScan =>
            cases r with
            | ok _ => exact absurd hlocks id
            | error _ => exact absurd hlocks id
        | close hcloses => cases hcloses
        | publish hpub => cases hpub
        | _ => exact absurd hends id
      | _ => exact absurd hv id

/-- A process whose lock is in the store is in a phase that may hold it. -/
theorem mayLock_of_serve (hallowed : v.Allowed o) (h : serve i o e s = some (r, s'))
    (hinv : ∀ d, s.locks d = some i → v.MayLock d) (hlocks : s'.locks d = some i) :
    (v.observe o r).MayLock d := by
  by_cases ho : ∃ d, o = .query (.domainForUpdate d)
  · obtain ⟨d', rfl⟩ := ho
    obtain ⟨hreads⟩ := hallowed
    cases hreads with
    | triggering =>
      rcases serve_domainForUpdate h with ⟨hsame, -⟩ | ⟨⟨row, rfl⟩, -, hset⟩
      · rw [hsame] at hlocks
        exact absurd (hinv d hlocks) id
      · rw [hset, Store.takeLock] at hlocks
        split at hlocks
        · next hd => exact hd.symm
        · exact absurd (hinv d hlocks) id
  · rcases serve_locks (not_exists.1 ho) h with ⟨hends, hsame⟩ | ⟨-, hset⟩
    · rw [hsame] at hlocks
      have hv := hinv d hlocks
      cases v with
      | locked d' =>
        cases hallowed with
        | @query _ q hreads =>
          cases hreads with
          | locked =>
            cases r with
            | error _ => exact hv
            | ok found => cases found <;> exact hv
        | commit hcommits => cases hcommits
        | close hcloses => cases hcloses
        | publish hpub => cases hpub
        | _ => exact hv
      | cleared d' =>
        cases hallowed with
        | query hreads => cases hreads
        | flush =>
          cases r with
          | ok _ => exact hv
          | error _ => exact hv
        | commit hcommits => exact absurd trivial hends
        | close hcloses => exact absurd trivial hends
        | publish hpub => cases hpub
        | _ => exact hv
      | refused d' =>
        cases hallowed with
        | query hreads => cases hreads
        | commit hcommits => exact absurd trivial hends
        | rollback => exact absurd trivial hends
        | close hcloses => exact absurd trivial hends
        | publish hpub => cases hpub
        | _ => exact hv
      | _ => exact absurd hv id
    · rw [hset] at hlocks
      exact absurd hlocks (release_locks_self s i d)

end Serve

/-! ### Who holds a lock -/

namespace World

/-- The phases and the store agree on who holds which row lock. -/
structure LockOwned (w : World) : Prop where
  held : ∀ i v, w.views[i]? = some v → ∀ d, v.Locks d → w.shared.locks d = some i
  owner : ∀ i d, w.shared.locks d = some i → ∃ v, w.views[i]? = some v ∧ v.MayLock d

/-- Before a process is started no lock is held. -/
theorem lockOwned_boot {s : Store} (hs : ∀ d, s.locks d = none) : (boot s).LockOwned := by
  refine ⟨fun i v hi ↦ absurd hi nofun, fun i d hd ↦ ?_⟩
  rw [show (boot s).shared.locks d = none from hs d] at hd
  exact absurd hd (by simp)

/-- A new process holds no lock. -/
theorem LockOwned.append {w w' : World} (h : w.LockOwned) {v : Phase}
    (hlocks : w'.shared.locks = w.shared.locks) (hviews : w'.views = w.views ++ [v])
    (hv : ∀ d, ¬ v.Locks d) : w'.LockOwned := by
  refine ⟨fun i v' hi d hd ↦ ?_, fun i d hd ↦ ?_⟩
  · rw [hviews] at hi
    rw [hlocks]
    rcases getElem?_append_view hi with hi | rfl
    · exact h.held i v' hi d hd
    · exact absurd hd (hv d)
  · rw [hlocks] at hd
    obtain ⟨v', hi, hmay⟩ := h.owner i d hd
    refine ⟨v', ?_, hmay⟩
    rw [hviews, List.getElem?_append_left (List.getElem?_eq_some_iff.1 hi).1]
    exact hi

/-- A step keeps every lock with a process that knows of it. -/
theorem LockOwned.act {cfg : Settings} {u : Unicode} {w w' : World} {a : Action}
    (h : w.LockOwned) (hw : w.Sound) (hkeeps : Keeps a) (ha : w.act cfg u a = some w') :
    w'.LockOwned := by
  obtain ⟨-, htrans⟩ := hw.act hkeeps ha
  cases htrans with
  | @start r _ hshared hviews =>
    exact h.append (by rw [hshared]) hviews fun d ↦ by cases r <;> exact id
  | take hm hshared hviews => exact h.append (by rw [hshared]) hviews fun d ↦ id
  | duplicate hm hshared hviews =>
    refine ⟨fun i v hi d hd ↦ ?_, fun i d hd ↦ ?_⟩
    · rw [hviews] at hi
      rw [hshared]
      exact h.held i v hi d hd
    · rw [hshared] at hd
      rw [hviews]
      exact h.owner i d hd
  | @perform i e v o r _ hi hasks hallowed hserve hviews =>
    have hself : w'.views[i]? = some (v.observe o r) := by
      rw [hviews, List.getElem?_set_self (List.getElem?_eq_some_iff.1 hi).1]
    have hne : ∀ {j}, j ≠ i → w'.views[j]? = w.views[j]? := by
      intro j hj
      rw [hviews, List.getElem?_set_ne hj.symm]
    have hv := hw.grounded _ (List.mem_of_getElem? hi)
    refine ⟨fun j v' hj d hd ↦ ?_, fun j d hd ↦ ?_⟩
    · rw [hviews] at hj
      rcases getElem?_set_view hj with ⟨rfl, rfl⟩ | ⟨hji, hj⟩
      · exact locks_of_serve hallowed hv hserve (h.held j v hi) hd
      · exact (locks_of_ne hserve hji d).2 (h.held j v' hj d hd)
    · by_cases hji : j = i
      · subst hji
        refine ⟨_, hself, mayLock_of_serve hallowed hserve (fun d hd ↦ ?_) hd⟩
        obtain ⟨v', hj, hmay⟩ := h.owner j d hd
        rw [hi] at hj
        rwa [Option.some.inj hj]
      · obtain ⟨v', hj, hmay⟩ := h.owner j d ((locks_of_ne hserve hji d).1 hd)
        exact ⟨v', (hne hji).trans hj, hmay⟩

end World

end AssetDiscovery
