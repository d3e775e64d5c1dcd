import AssetDiscovery.Rows
import AssetDiscovery.World

/-!
# At most one worker discovers a domain

A worker looks for a RUNNING scan of its domain and then, in another statement, marks its own scan
RUNNING. Two workers that look before either of them marks both go on (`not_exclusive`); the guard
lets a worker pass whose scan was RUNNING when it was loaded, without looking at it again; and it
lets a worker pass whose scan was PENDING when it was loaded and has been completed since.

`Guarded` says what the guard would have to find. In runs whose steps are guarded the domains that
are being discovered are pairwise distinct, and the assets of a scan are stored by one worker
(`exclusive_of_guarded`). Two invariants carry this. The first ties the workers to the database: a
worker past `mark_scan_running` has a RUNNING scan, which the guard of every other worker of the
domain finds (`World.Apart`). The second ties the workers to the past: where a worker has stored
assets of a scan, they are still there, and no other worker is past the guard with that scan
(`World.Owned`).
-/

set_option autoImplicit false

namespace AssetDiscovery

open Effect Phase

/-- The domain that a worker discovers: it is past `mark_scan_running` and before the last status
commit of its scan. -/
def Phase.discovered : Phase → Option Id
  | running _ _ d _ => some d
  | _ => none

/-- A worker that has passed the guard for `d` and has not made its last status commit. -/
def Phase.Works : Phase → Id → Prop
  | claiming _ _ d' _, d => d' = d
  | running _ _ d' _, d => d' = d
  | _, _ => False

/-- A worker that has passed the guard and not yet marked its scan. -/
def Phase.Claims : Phase → Id → Prop
  | claiming _ _ d' _, d => d' = d
  | _, _ => False

/-- A worker that goes on as if scan `x` were RUNNING. -/
def Phase.Expects : Phase → Id → Prop
  | claiming y _ _ st, x => y = x ∧ st = .running
  | running y _ _ _, x => y = x
  | _, _ => False

/-- A worker that has passed the guard with scan `x` and has not made its last status commit. -/
def Phase.Handles : Phase → Id → Prop
  | claiming y _ _ _, x => y = x
  | running y _ _ _, x => y = x
  | _, _ => False

instance (v : Phase) (d : Id) : Decidable (v.Works d) := by
  induction v using Phase.casesOn with
  | claiming _ _ d' => exact instDecidableEqNat d' d
  | running _ _ d' => exact instDecidableEqNat d' d
  | _ => exact instDecidableFalse

instance (v : Phase) (d : Id) : Decidable (v.Claims d) := by
  induction v using Phase.casesOn with
  | claiming _ _ d' => exact instDecidableEqNat d' d
  | _ => exact instDecidableFalse

instance (v : Phase) (x : Id) : Decidable (v.Expects x) := by
  induction v using Phase.casesOn with
  | claiming y _ _ st => exact inferInstanceAs (Decidable (y = x ∧ st = .running))
  | running y => exact instDecidableEqNat y x
  | _ => exact instDecidableFalse

/-! ### What a move does to a worker's scan -/

variable {o : Op} {b b' : Board} {v v' : Phase} {x d : Id}

/-- A worker that discovers a domain works on it. -/
theorem Phase.works_of_discovered (h : v.discovered = some d) : v.Works d := by
  cases v with
  | running => exact Option.some.inj h
  | _ => exact absurd h nofun

/-- A worker that expects a scan works on the domain of the scan. -/
theorem Phase.Expects.works {st : ScanStatus} (h : v.Expects x) (hv : b.Grounds v)
    (hx : b.Has x d st) : v.Works d := by
  cases v with
  | claiming y r d' st' =>
    obtain ⟨rfl, -⟩ := h
    obtain ⟨st₀, hy⟩ := hv
    exact (hy.unique hx).1
  | running y r d' snap =>
    obtain rfl := h
    obtain ⟨st₀, hy⟩ := hv
    exact (hy.unique hx).1
  | _ => exact absurd h id

/-- The scan that a worker handles is one of the domain that it works on. -/
theorem Phase.Handles.works (h : v.Handles x) (hv : b.Grounds v) :
    ∃ d st, v.Works d ∧ b.Has x d st := by
  cases v with
  | claiming y r d st =>
    obtain rfl := h
    obtain ⟨st₀, hy⟩ := hv
    exact ⟨d, st₀, rfl, hy⟩
  | running y r d snap =>
    obtain rfl := h
    obtain ⟨st₀, hy⟩ := hv
    exact ⟨d, st₀, rfl, hy⟩
  | _ => exact absurd h id

/-- A worker that works on a domain has not claimed it, or is discovering a scan it expects. -/
theorem Phase.Works.claims_or (h : v.Works d) (hv : b.Grounds v) :
    v.Claims d ∨ ∃ x st, v.Expects x ∧ b.Has x d st := by
  cases v with
  | claiming => exact Or.inl h
  | running y r d' snap =>
    obtain rfl := h
    obtain ⟨st, hy⟩ := hv
    exact Or.inr ⟨y, st, rfl, hy⟩
  | _ => exact absurd h id

/-- A worker comes to work on a domain only through the guard. -/
theorem Move.works (h : Move o b v b' v') (hgrounds : b.Grounds v) (hv' : v'.Works d) :
    v.Works d ∨ ∃ x r st, v = .loaded x r d st ∧ v' = .claiming x r d st ∧
      o = .query (.runningScan d) ∧ (st = .running ∨ ∀ y, ¬ b.Has y d .running) := by
  cases h with
  | gone hgone => exact absurd hgrounds hgone
  | stay | mark | reload | expire => exact Or.inl hv'
  | claim hpass =>
    obtain rfl := hv'
    exact Or.inr ⟨_, _, _, rfl, rfl, rfl, hpass⟩
  | _ => exact absurd hv' id

/-- A worker comes to handle a scan only through the guard. -/
theorem Move.handles (h : Move o b v b' v') (hgrounds : b.Grounds v) (hv' : v'.Handles x) :
    v.Handles x ∨ ∃ r d st, v = .loaded x r d st ∧ o = .query (.runningScan d) ∧
      (st = .running ∨ ∀ y, ¬ b.Has y d .running) := by
  cases h with
  | gone hgone => exact absurd hgrounds hgone
  | stay | mark | reload | expire => exact Or.inl hv'
  | claim hpass =>
    obtain rfl := hv'
    exact Or.inr ⟨_, _, _, rfl, rfl, hpass⟩
  | _ => exact absurd hv' id

/-- A worker that an error stops works on no domain. -/
theorem Fault.not_works (h : Fault v v') : ¬ v'.Works d :=
  h.cases_of (P := fun v ↦ ¬ v.Works d) id (fun _ _ ↦ id) (fun _ ↦ id) (fun _ _ ↦ id)
    fun _ _ _ ↦ id

/-- A worker that an error stops expects nothing of a scan. -/
theorem Fault.not_expects (h : Fault v v') : ¬ v'.Expects x :=
  h.cases_of (P := fun v ↦ ¬ v.Expects x) id (fun _ _ ↦ id) (fun _ ↦ id) (fun _ _ ↦ id)
    fun _ _ _ ↦ id

/-- A worker that an error stops handles no scan. -/
theorem Fault.not_handles (h : Fault v v') : ¬ v'.Handles x :=
  h.cases_of (P := fun v ↦ ¬ v.Handles x) id (fun _ _ ↦ id) (fun _ ↦ id) (fun _ _ ↦ id)
    fun _ _ _ ↦ id

/-- A RUNNING scan stays RUNNING, unless it is reset or given a final status. -/
theorem Move.running_kept (h : Move o b v b' v') (hgrounds : b.Grounds v)
    (hown : v.Expects x → v'.Expects x)
    (hresetting : ∀ xs site ws, v = .resetting xs → o = .commit site ws → x ∉ xs)
    (hfaulted : ∀ y d snap site ws, v = .faulted y d snap → o = .commit site ws → x ≠ y)
    (hx : b.Has x d .running) : b'.Has x d .running := by
  have hset : ∀ {y : Id} (st : Option ScanStatus), x ≠ y → (b.setScan y st).Has x d .running := by
    intro y st hne
    cases st with
    | none => exact hx
    | some st => exact Board.has_setScan_some.2 (Or.inr ⟨hne, hx⟩)
  cases h with
  | gone hgone => exact absurd hgrounds hgone
  | create hfree => exact (Board.has_addScan hfree).2 (Or.inr hx)
  | accept hfree => exact (Board.has_addScan hfree).2 (Or.inr hx)
  | @reset _ xs => exact Board.has_reset.2 (Or.inr ⟨hresetting xs _ _ rfl rfl, hx⟩)
  | @mark _ y r dy st =>
    rcases eq_or_ne st .running with rfl | hst
    · rwa [change_self]
    · rw [change_of_ne hst]
      by_cases hxy : x = y
      · exact Board.has_setScan_some.2 (Or.inl ⟨hxy, rfl, _, hxy ▸ hx⟩)
      · exact hset _ hxy
  | complete => exact hset _ fun hxy ↦ hown hxy.symm
  | fail => exact hset _ fun hxy ↦ hown hxy.symm
  | refail => exact hset _ (hfaulted _ _ _ _ _ rfl rfl)
  | _ => exact hx

/-- What a worker expects after a move it expected before, or has just marked, or has loaded as
RUNNING and passed the guard with. -/
theorem Move.expects (h : Move o b v b' v') (hgrounds : b.Grounds v) (hv' : v'.Expects x) :
    (v.Expects x ∧ ∀ d, b.Has x d .running → b'.Has x d .running) ∨ (∃ d, b'.Has x d .running) ∨
      ∃ r d, v = .loaded x r d .running ∧ o = .query (.runningScan d) ∧ b' = b := by
  cases h with
  | gone hgone => exact absurd hgrounds hgone
  | stay | reload | expire => exact Or.inl ⟨hv', fun _ ↦ id⟩
  | @claim _ y r d st _ =>
    obtain ⟨rfl, rfl⟩ := hv'
    exact Or.inr (Or.inr ⟨r, d, rfl, rfl, rfl⟩)
  | @mark _ y r d st =>
    obtain rfl := hv'
    rcases eq_or_ne st .running with rfl | hst
    · rw [change_self]
      exact Or.inl ⟨⟨rfl, rfl⟩, fun _ ↦ id⟩
    · rw [change_of_ne hst]
      exact Or.inr (Or.inl ⟨d, Board.has_setScan_some.2 (Or.inl ⟨rfl, rfl, hgrounds⟩)⟩)
  | _ => exact absurd hv' id

/-! ### Runs -/

namespace World

/-- What the one-RUNNING guard and the two writes that take RUNNING away from a scan would have to
find. A worker passes the guard only if no asset of its scan is stored and no other worker of the
domain is between the guard and its mark, and on the strength of the RUNNING it has loaded only if
that is still there and no other worker discovers the domain. No worker expects a scan that is
reset, or that a handler fails after the publish of the body failed. -/
def Guarded (w : World) : Action → Prop
  | .perform i _ =>
    match w.views[i]?, w.asks i with
    | some (.loaded x _ d st), some (.query (.runningScan _)) =>
      st = .running ∨ w.shared.db.runningScan d = none →
        w.shared.db.assetsOf x = [] ∧ (∀ v ∈ w.views, ¬ v.Claims d) ∧ (st = .running →
          (∃ row ∈ w.shared.db.scans.get x, row.status = .running) ∧
            ∀ v ∈ w.views, v.discovered ≠ some d)
    | some (.resetting xs), some (.commit _ _) => ∀ x ∈ xs, ∀ v ∈ w.views, ¬ v.Expects x
    | some (.faulted x _ _), some (.commit _ _) => ∀ v ∈ w.views, ¬ v.Expects x
    | _, _ => True
  | _ => True

instance (w : World) : DecidablePred w.Guarded
  | .start _ | .take _ | .duplicate _ => instDecidableTrue
  | .perform i e => by
    delta Guarded
    dsimp only
    generalize w.views[i]? = phase, w.asks i = asked
    induction phase using Option.casesOn with
    | none => exact instDecidableTrue
    | some v =>
      induction v using Phase.casesOn with
      | loaded x _ d st =>
        induction asked using Option.casesOn with
        | none => exact instDecidableTrue
        | some o =>
          induction o using Op.casesOn with
          | query q =>
            induction q using Query.casesOn with
            | runningScan => exact inferInstanceAs
                (Decidable (st = .running ∨ w.shared.db.runningScan d = none →
                  w.shared.db.assetsOf x = [] ∧ (∀ v ∈ w.views, ¬ v.Claims d) ∧ (st = .running →
                    (∃ row ∈ w.shared.db.scans.get x, row.status = .running) ∧
                      ∀ v ∈ w.views, v.discovered ≠ some d)))
            | _ => exact instDecidableTrue
          | _ => exact instDecidableTrue
      | resetting xs =>
        induction asked using Option.casesOn with
        | none => exact instDecidableTrue
        | some o =>
          induction o using Op.casesOn with
          | commit => exact inferInstanceAs
              (Decidable (∀ x ∈ xs, ∀ v ∈ w.views, ¬ v.Expects x))
          | _ => exact instDecidableTrue
      | faulted x =>
        induction asked using Option.casesOn with
        | none => exact instDecidableTrue
        | some o =>
          induction o using Op.casesOn with
          | commit => exact inferInstanceAs (Decidable (∀ v ∈ w.views, ¬ v.Expects x))
          | _ => exact instDecidableTrue
      | _ => exact instDecidableTrue

/-- What a guarded step says where a worker passes the guard. -/
theorem Guarded.loaded {w : World} {i : ℕ} {e : Env} (h : w.Guarded (.perform i e))
    {x d : Id} {r : ℕ} {st : ScanStatus} (hi : w.views[i]? = some (.loaded x r d st))
    (hasks : w.asks i = some (.query (.runningScan d)))
    (hpass : st = .running ∨ ∀ y, ¬ w.shared.board.Has y d .running) :
    w.shared.db.assetsOf x = [] ∧ (∀ v ∈ w.views, ¬ v.Claims d) ∧ (st = .running →
      (∃ row ∈ w.shared.db.scans.get x, row.status = .running) ∧
        ∀ v ∈ w.views, v.discovered ≠ some d) := by
  simp only [Guarded, hi, hasks] at h
  refine h (hpass.imp_right fun hnone ↦ ?_)
  rw [← Option.not_isSome_iff_eq_none, Database.runningScan_isSome (q := w.shared.queue)]
  exact not_exists.2 hnone

/-- What it says where RUNNING scans are reset. -/
theorem Guarded.resetting {w : World} {i : ℕ} {e : Env} (h : w.Guarded (.perform i e))
    {xs : List Id} {site : Site} {ws : List Write} (hi : w.views[i]? = some (.resetting xs))
    (hasks : w.asks i = some (.commit site ws)) : ∀ x ∈ xs, ∀ v ∈ w.views, ¬ v.Expects x := by
  simpa only [Guarded, hi, hasks] using h

/-- What it says where a handler fails a scan that its body has completed. -/
theorem Guarded.faulted {w : World} {i : ℕ} {e : Env} (h : w.Guarded (.perform i e))
    {x d : Id} {snap : Option ScanStatus} {site : Site} {ws : List Write}
    (hi : w.views[i]? = some (.faulted x d snap)) (hasks : w.asks i = some (.commit site ws)) :
    ∀ v ∈ w.views, ¬ v.Expects x := by
  simpa only [Guarded, hi, hasks] using h

/-- The invariant: a worker that has passed the guard is the only one of its domain, and the scan
that it expects to be RUNNING is. -/
structure Apart (w : World) : Prop where
  sound : w.Sound
  apart : ∀ (i j : ℕ) (v v' : Phase) (d : Id), w.views[i]? = some v → w.views[j]? = some v' →
    v.Works d → v'.Works d → i = j
  expects : ∀ v ∈ w.views, ∀ x, v.Expects x → ∃ d, w.shared.board.Has x d .running

variable {cfg : Settings} {u : Unicode}

/-- Before a process is started nothing is to be shown. -/
theorem apart_boot (s : Store) : (boot s).Apart where
  sound := sound_boot s
  apart _ _ _ _ _ hi := absurd hi nofun
  expects _ hv := absurd hv List.not_mem_nil

/-- A new process has not passed the guard. -/
theorem Apart.append {w w' : World} (h : w.Apart) (hsound : w'.Sound) {v : Phase}
    (hscans : w'.shared.board.scans = w.shared.board.scans) (hviews : w'.views = w.views ++ [v])
    (hworks : ∀ d, ¬ v.Works d) (hexpects : ∀ x, ¬ v.Expects x) : w'.Apart := by
  refine ⟨hsound, fun i j a b d hi hj ha hb ↦ ?_, fun a ha x hx ↦ ?_⟩
  · rw [hviews] at hi hj
    rcases getElem?_append_view hi with hi | rfl
    · rcases getElem?_append_view hj with hj | rfl
      · exact h.apart i j a b d hi hj ha hb
      · exact absurd hb (hworks d)
    · exact absurd ha (hworks d)
  · rw [hviews] at ha
    rcases List.mem_append.1 ha with ha | ha
    · obtain ⟨d, hd⟩ := h.expects a ha x hx
      exact ⟨d, by rwa [Board.Has, hscans]⟩
    · rw [List.mem_singleton.1 ha] at hx
      exact absurd hx (hexpects x)

/-- Where a worker passes the guard, no other one works on its domain. -/
theorem Apart.passes {w : World} (h : w.Apart) {i : ℕ} {e : Env} (hok : w.Guarded (.perform i e))
    {x d : Id} {r : ℕ} {st : ScanStatus} (hi : w.views[i]? = some (.loaded x r d st))
    (hasks : w.asks i = some (.query (.runningScan d)))
    (hpass : st = .running ∨ ∀ y, ¬ w.shared.board.Has y d .running) :
    ∀ v ∈ w.views, ¬ v.Works d := by
  intro v hv hworks
  obtain ⟨-, hclaims, hrunning⟩ := hok.loaded hi hasks hpass
  have hgrounds := h.sound.grounded v hv
  rcases hworks.claims_or hgrounds with hc | ⟨y, st', hexp, hy⟩
  · exact hclaims v hv hc
  · -- a worker that discovers the domain has a RUNNING scan, which the guard would find
    obtain ⟨d', hy'⟩ := h.expects v hv y hexp
    obtain ⟨rfl, -⟩ := hy.unique hy'
    rcases hpass with rfl | hnone
    · refine (hrunning rfl).2 v hv ?_
      cases v with
      | running => exact congrArg some hworks
      | claiming => exact absurd hworks (hclaims _ hv)
      | _ => exact absurd hexp id
    · exact hnone y hy'

/-- A guarded step keeps the workers apart. -/
theorem Apart.act {w w' : World} {a : Action} (h : w.Apart) (hkeeps : Keeps a)
    (hok : w.Guarded a) (ha : w.act cfg u a = some w') : w'.Apart := by
  obtain ⟨hsound, htrans⟩ := h.sound.act hkeeps ha
  cases htrans with
  | @start r _ hshared hviews =>
    exact h.append hsound (by rw [hshared]) hviews (fun d ↦ by cases r <;> exact id)
      fun x ↦ by cases r <;> exact id
  | take hm hshared hviews =>
    exact h.append hsound (by rw [hshared]; rfl) hviews (fun d ↦ id) fun x ↦ id
  | duplicate hm hshared hviews =>
    refine ⟨hsound, ?_, ?_⟩
    · rw [hviews]
      exact h.apart
    · rw [hviews, hshared]
      exact h.expects
  | @perform i e v o r _ hi hasks hallowed hserve hviews =>
    have hmem := List.mem_of_getElem? hi
    have hv := h.sound.grounded v hmem
    rcases serve_move hallowed hserve with ⟨-, hboard, hfault⟩ | ⟨-, hmove⟩
    -- a process whose operation failed works on no domain any more
    · refine ⟨hsound, fun j k a b d hj hk ha hb ↦ ?_, fun a ha x hx ↦ ?_⟩
      · rw [hviews] at hj hk
        rcases getElem?_set_view hj with ⟨-, rfl⟩ | ⟨-, hj⟩
        · exact absurd ha hfault.not_works
        · rcases getElem?_set_view hk with ⟨-, rfl⟩ | ⟨-, hk⟩
          · exact absurd hb hfault.not_works
          · exact h.apart j k a b d hj hk ha hb
      · rw [hviews] at ha
        rw [hboard]
        rcases List.mem_or_eq_of_mem_set ha with ha | rfl
        · exact h.expects a ha x hx
        · exact absurd hx hfault.not_expects
    -- whoever comes to work on a domain has just passed the guard, which found it free
    · have hnew : ∀ {j : ℕ} {a : Phase} {d : Id}, j ≠ i → w.views[j]? = some a → a.Works d →
          ¬ (v.observe o r).Works d := by
        intro j a d hji hj ha hd
        rcases hmove.works hv hd with hd | ⟨x, r', st, rfl, -, rfl, hpass⟩
        · exact hji (h.apart j i a v d hj hi ha hd)
        · exact h.passes hok hi hasks hpass a (List.mem_of_getElem? hj) ha
      refine ⟨hsound, fun j k a b d hj hk ha hb ↦ ?_, fun a ha x hx ↦ ?_⟩
      · rw [hviews] at hj hk
        rcases getElem?_set_view hj with ⟨hji, rfl⟩ | ⟨hji, hj'⟩
        · rcases getElem?_set_view hk with ⟨hki, -⟩ | ⟨hki, hk'⟩
          · rw [hji, hki]
          · exact absurd ha (hnew hki hk' hb)
        · rcases getElem?_set_view hk with ⟨-, rfl⟩ | ⟨hki, hk'⟩
          · exact absurd hb (hnew hji hj' ha)
          · exact h.apart j k a b d hj' hk' ha hb
      · obtain ⟨j, hj⟩ := List.mem_iff_getElem?.1 ha
        rw [hviews] at hj
        rcases getElem?_set_view hj with ⟨-, rfl⟩ | ⟨hji, hj'⟩
        · rcases hmove.expects hv hx with ⟨hvx, hkeep⟩ | hrun | ⟨r', d, rfl, rfl, hsame⟩
          · obtain ⟨d, hd⟩ := h.expects v hmem x hvx
            exact ⟨d, hkeep d hd⟩
          · exact hrun
          · obtain ⟨row, hrow, hst⟩ := ((hok.loaded hi hasks (Or.inl rfl)).2.2 rfl).1
            refine ⟨row.domainId, ?_⟩
            rw [hsame, ← hst]
            exact Database.has_board_of_get hrow
        · -- no other worker takes RUNNING away from the scan
          have hmema := List.mem_of_getElem? hj'
          obtain ⟨d, hd⟩ := h.expects a hmema x hx
          refine ⟨d, hmove.running_kept hv (fun hvx ↦ ?_) ?_ ?_ hd⟩
          · have hworks := hx.works (h.sound.grounded a hmema) hd
            exact absurd (h.apart j i a v d hj' hi hworks (hvx.works hv hd)) hji
          · rintro xs site ws rfl rfl hxs
            exact hok.resetting hi hasks x hxs a hmema hx
          · rintro y d' snap site ws rfl rfl rfl
            exact hok.faulted hi hasks a hmema hx

/-- The domains that workers discover at this moment are pairwise distinct. -/
def Exclusive (w : World) : Prop :=
  (w.views.filterMap Phase.discovered).Nodup

instance (w : World) : Decidable w.Exclusive :=
  inferInstanceAs (Decidable (List.Nodup _))

/-! ### Who stores assets -/

/-- A step that deletes no domain keeps the assets. -/
theorem Sound.mem_assets {w w' : World} {a : Action} (h : w.Sound) (hkeeps : Keeps a)
    (ha : w.act cfg u a = some w') {row : Asset} (hrow : row ∈ w.shared.db.assets) :
    row ∈ w'.shared.db.assets := by
  cases (h.act hkeeps ha).2 with
  | start hshared | take _ hshared | duplicate _ hshared => rwa [hshared]
  | @perform i e v o r _ hi _ hallowed hserve =>
    rcases serve_db hserve with hsame | ⟨site, ws, now, rfl, hws⟩
    · rwa [hsame]
    · cases hallowed with
      | commit hcommits =>
        refine Database.mem_assets_of_writeAll hws (fun st hst d hd ↦ ?_) hrow
        rcases hcommits.kinds with ⟨d', rfl, -⟩ | ⟨x, r, d', snap, -, hall⟩ | hnone
        · exact absurd (h.grounded _ (List.mem_of_getElem? hi)) id
        · obtain ⟨id, type, value, rfl⟩ := hall st hst
          exact absurd hd (by simp)
        · exact (hnone st hst).1 d hd

/-- The assets that a step adds are those of the scan that its worker is running. -/
theorem Sound.new_asset {w w' : World} {a : Action} (h : w.Sound) (hkeeps : Keeps a)
    (ha : w.act cfg u a = some w') {row : Asset} (hrow : row ∈ w'.shared.db.assets)
    (hnew : row ∉ w.shared.db.assets) :
    ∃ i e r d snap, a = .perform i e ∧ w.views[i]? = some (.running row.scanId r d snap) := by
  cases (h.act hkeeps ha).2 with
  | start hshared | take _ hshared | duplicate _ hshared =>
    rw [hshared] at hrow
    exact absurd hrow hnew
  | @perform i e v o r _ hi _ hallowed hserve =>
    rcases serve_db hserve with hsame | ⟨site, ws, now, rfl, hws⟩
    · rw [hsame] at hrow
      exact absurd hrow hnew
    · cases hallowed with
      | commit hcommits =>
        have hmem := (Database.new_asset_of_writeAll hws hrow).resolve_left hnew
        rcases hcommits.kinds with ⟨d, -, rfl⟩ | ⟨x, r, d, snap, rfl, hall⟩ | hnone
        · exact absurd hmem (by simp)
        · obtain ⟨id, type, value, heq⟩ := hall _ hmem
          obtain rfl : row.scanId = x := (Write.insertAsset.inj heq).2.1
          exact ⟨i, e, r, d, snap, rfl, hi⟩
        · exact absurd rfl ((hnone _ hmem).2 _ _ _ _ _)

/-- Process `i` stores an asset of scan `x` in the step from `w` to `w'`. -/
def Inserts (w : World) (a : Action) (w' : World) (i : ℕ) (x : Id) : Prop :=
  (∃ e, a = .perform i e) ∧
    ∃ row ∈ w'.shared.db.assets, row.scanId = x ∧ row ∉ w.shared.db.assets

/-- Whoever stores an asset of a scan handles the scan. -/
theorem Sound.handles_of_inserts {w w' : World} {a : Action} (h : w.Sound) (hkeeps : Keeps a)
    (ha : w.act cfg u a = some w') {i : ℕ} {x : Id} (hx : w.Inserts a w' i x) :
    ∃ v, w.views[i]? = some v ∧ v.Handles x := by
  obtain ⟨⟨e, rfl⟩, row, hrow, rfl, hnew⟩ := hx
  obtain ⟨j, e', r, d, snap, hperform, hj⟩ := h.new_asset hkeeps ha hrow hnew
  obtain ⟨rfl, -⟩ := Action.perform.inj hperform
  exact ⟨_, hj, rfl⟩

/-- No two workers handle one scan. -/
theorem Apart.handles {w : World} (h : w.Apart) {i j : ℕ} {v v' : Phase} {x : Id}
    (hi : w.views[i]? = some v) (hj : w.views[j]? = some v') (hv : v.Handles x)
    (hv' : v'.Handles x) : i = j := by
  obtain ⟨d, st, hworks, hx⟩ := hv.works (h.sound.grounded v (List.mem_of_getElem? hi))
  obtain ⟨d', st', hworks', hx'⟩ := hv'.works (h.sound.grounded v' (List.mem_of_getElem? hj))
  obtain ⟨rfl, -⟩ := hx.unique hx'
  exact h.apart i j v v' d hi hj hworks hworks'

/-- After a guarded step a worker handles a scan that it handled before, or it has just passed the
guard and no asset of the scan was stored. -/
theorem Sound.handles_act {w w' : World} {a : Action} (h : w.Sound) (hkeeps : Keeps a)
    (hok : w.Guarded a) (ha : w.act cfg u a = some w') {j : ℕ} {v' : Phase} {x : Id}
    (hj : w'.views[j]? = some v') (hx : v'.Handles x) :
    (∃ v, w.views[j]? = some v ∧ v.Handles x) ∨
      (∃ e, a = .perform j e) ∧ w.shared.db.assetsOf x = [] := by
  cases (h.act hkeeps ha).2 with
  | @start r _ _ hviews =>
    rw [hviews] at hj
    rcases getElem?_append_view hj with hj | rfl
    · exact Or.inl ⟨v', hj, hx⟩
    · cases r <;> exact absurd hx id
  -- a worker that has only taken a message has no scan in hand
  | take _ _ hviews =>
    rw [hviews] at hj
    rcases getElem?_append_view hj with hj | rfl
    · exact Or.inl ⟨v', hj, hx⟩
    · exact absurd hx id
  | duplicate _ _ hviews => exact Or.inl ⟨v', by rwa [← hviews], hx⟩
  | @perform i e v o r _ hi hasks hallowed hserve hviews =>
    rw [hviews] at hj
    rcases getElem?_set_view hj with ⟨rfl, rfl⟩ | ⟨-, hj⟩
    · rcases serve_move hallowed hserve with ⟨-, -, hfault⟩ | ⟨-, hmove⟩
      · exact absurd hx hfault.not_handles
      · rcases hmove.handles (h.grounded v (List.mem_of_getElem? hi)) hx with
          hv | ⟨r', d, st, rfl, rfl, hpass⟩
        · exact Or.inl ⟨v, hi, hv⟩
        · exact Or.inr ⟨⟨e, rfl⟩, (hok.loaded hi hasks hpass).1⟩
    · exact Or.inl ⟨v', hj, hx⟩

/-- Where some processes have stored assets of scans (`W i x`), the assets are still stored, and of
one scan no other process has stored any or can store any without passing the guard. -/
structure Owned (w : World) (W : ℕ → Id → Prop) : Prop where
  stored : ∀ i x, W i x → w.shared.db.assetsOf x ≠ []
  sole : ∀ i j x, W i x → (W j x ∨ ∃ v, w.views[j]? = some v ∧ v.Handles x) → i = j

/-- The same of fewer insertions. -/
theorem Owned.mono {w : World} {W W' : ℕ → Id → Prop} (h : w.Owned W)
    (hW : ∀ i x, W' i x → W i x) : w.Owned W' where
  stored i x hi := h.stored i x (hW i x hi)
  sole i j x hi hj := h.sole i j x (hW i x hi) (hj.imp_left (hW j x))

/-- A guarded step keeps this, with what it stores itself. -/
theorem Owned.act {w w' : World} {a : Action} {W : ℕ → Id → Prop} (h : w.Owned W)
    (hapart : w.Apart) (hkeeps : Keeps a) (hok : w.Guarded a) (ha : w.act cfg u a = some w') :
    w'.Owned fun i x ↦ W i x ∨ w.Inserts a w' i x := by
  have hhandles : ∀ {i x}, w.Inserts a w' i x → ∃ v, w.views[i]? = some v ∧ v.Handles x :=
    fun hx ↦ hapart.sound.handles_of_inserts hkeeps ha hx
  constructor
  · rintro i x (hi | ⟨-, row, hrow, hx, -⟩)
    · obtain ⟨row, hrow, hx⟩ := Database.assetsOf_ne_nil.1 (h.stored i x hi)
      exact Database.assetsOf_ne_nil.2 ⟨row, hapart.sound.mem_assets hkeeps ha hrow, hx⟩
    · exact Database.assetsOf_ne_nil.2 ⟨row, hrow, hx⟩
  · rintro i j x (hi | hi) hj
    · -- the assets of `i` are stored, so no other process has passed the guard with the scan
      rcases hj with (hj | hj) | ⟨v', hj, hx⟩
      · exact h.sole i j x hi (Or.inl hj)
      · exact h.sole i j x hi (Or.inr (hhandles hj))
      · rcases hapart.sound.handles_act hkeeps hok ha hj hx with hbefore | ⟨-, hnone⟩
        · exact h.sole i j x hi (Or.inr hbefore)
        · exact absurd hnone (h.stored i x hi)
    · -- `i` stores them now, and handles the scan, which no other process does
      obtain ⟨v, hv, hvx⟩ := hhandles hi
      rcases hj with (hj | hj) | ⟨v', hj, hx⟩
      · exact (h.sole j i x hj (Or.inr ⟨v, hv, hvx⟩)).symm
      · obtain ⟨v', hv', hvx'⟩ := hhandles hj
        exact hapart.handles hv hv' hvx hvx'
      · rcases hapart.sound.handles_act hkeeps hok ha hj hx with ⟨v₀, hj₀, hx₀⟩ | ⟨⟨e, rfl⟩, -⟩
        · exact hapart.handles hv hj₀ hvx hx₀
        · obtain ⟨⟨e', hperform⟩, -⟩ := hi
          exact (Action.perform.inj hperform).1.symm

/-- Workers that are apart discover distinct domains. -/
theorem Apart.exclusive {w : World} (h : w.Apart) : w.Exclusive := by
  rw [Exclusive, List.Nodup, List.pairwise_filterMap, List.pairwise_iff_getElem]
  intro i j hi hj hij d hd d' hd' hdd
  rw [← hdd] at hd'
  have hij' := h.apart i j _ _ d (List.getElem?_eq_getElem hi) (List.getElem?_eq_getElem hj)
    (Phase.works_of_discovered hd) (Phase.works_of_discovered hd')
  omega

/-- **Discovery is mutually exclusive per domain** in every run whose steps are guarded, from any
store: in each state the domains that are being discovered are pairwise distinct, and no two
processes store assets of one scan. -/
theorem exclusive_of_guarded (cfg : Settings) (u : Unicode) (s : Store) {w : ℕ → World}
    {a : ℕ → Action} {n : ℕ} (h : Runs.Trace (act cfg u) (boot s) w a n)
    (hok : ∀ k < n, Keeps (a k) ∧ (w k).Guarded (a k)) :
    (∀ k ≤ n, (w k).Exclusive) ∧
      ∀ k < n, ∀ l < n, ∀ i j x, (w k).Inserts (a k) (w (k + 1)) i x →
        (w l).Inserts (a l) (w (l + 1)) j x → i = j := by
  have hall := h.invariant
    (I := fun k ↦ (w k).Apart ∧
      (w k).Owned fun i x ↦ ∃ l < k, (w l).Inserts (a l) (w (l + 1)) i x)
    ⟨by rw [h.start]; exact apart_boot s,
      fun i x ⟨l, hl, _⟩ ↦ absurd hl (Nat.not_lt_zero l),
      fun i j x ⟨l, hl, _⟩ ↦ absurd hl (Nat.not_lt_zero l)⟩
    fun k hk ha ⟨hapart, howned⟩ ↦ by
      obtain ⟨hkeeps, hguarded⟩ := hok k hk
      refine ⟨hapart.act hkeeps hguarded ha,
        (howned.act hapart hkeeps hguarded ha).mono fun i x ⟨l, hl, hx⟩ ↦ ?_⟩
      rcases Nat.lt_succ_iff_lt_or_eq.1 hl with hl | rfl
      · exact Or.inl ⟨l, hl, hx⟩
      · exact Or.inr hx
  refine ⟨fun k hk ↦ (hall k hk).1.exclusive, fun k hk l hl i j x hi hj ↦ ?_⟩
  exact (hall n (Nat.le_refl n)).2.sole i j x ⟨k, hk, hi⟩ (Or.inl ⟨l, hl, hj⟩)

/-- Two domains are created, and each is discovered by a worker, which has stored what it found. -/
def twoDomains : List Action :=
  .start (.create "a.b" 7) :: performs 0 13 ++ .start (.create "c.d" 7) :: performs 1 13 ++
    .take 0 :: .take 0 :: List.replicate 16 (.perform 2 oneAddress) ++
      List.replicate 16 (.perform 3 oneAddress)

theorem exclusive_of_guarded_twoDomains :
    ∃ w a n, Runs.Trace (act {} .plain) (boot .empty) w a n ∧
      (∀ k < n, Keeps (a k) ∧ (w k).Guarded (a k)) ∧
      ((w n).views.filterMap Phase.discovered).length = 2 ∧ (w n).shared.db.assets.rows.length = 2 ∧
      (w n).Exclusive ∧ ∀ k < n, ∀ l < n, ∀ i j x, (w k).Inserts (a k) (w (k + 1)) i x →
        (w l).Inserts (a l) (w (l + 1)) j x → i = j := by
  obtain ⟨w', hreach, htwo, hassets⟩ := Runs.exists_reach (act {} .plain)
    (fun w a ↦ Keeps a ∧ w.Guarded a)
    (fun w ↦ (w.views.filterMap Phase.discovered).length = 2 ∧ w.shared.db.assets.rows.length = 2)
    (s := boot .empty) twoDomains (by decide +kernel)
  have : Nonempty Action := ⟨.take 0⟩
  obtain ⟨w, a, n, hrun, hok, rfl⟩ := hreach.exists_trace
  obtain ⟨hexclusive, hsole⟩ := exclusive_of_guarded {} .plain .empty hrun hok
  exact ⟨w, a, n, hrun, hok, htwo, hassets, hexclusive n (Nat.le_refl n), hsole⟩

/-- A domain is created, and an API process that starts publishes its scan once more; both messages
are taken, and both workers look for a RUNNING scan before either marks its own. -/
def recoveryBeforeScan : List Action :=
  .start (.create "a.b" 7) :: performs 0 13 ++ .start .recover :: performs 1 4 ++
    .take 0 :: .take 0 :: performs 2 3 ++ performs 3 3 ++ performs 2 2 ++ performs 3 2

/-- Without the guard's conditions two workers can discover one domain, although nothing fails. -/
theorem not_exclusive :
    ¬ ∀ (s : Store) (w : World), Reach {} .plain (fun w a ↦ Keeps a ∧ w.Succeeds a) (boot s) w →
      w.Exclusive := by
  intro h
  obtain ⟨w, hreach, htwo⟩ := Runs.exists_reach (act {} .plain) (fun w a ↦ Keeps a ∧ w.Succeeds a)
    (fun w ↦ ¬ w.Exclusive) (s := boot .empty) recoveryBeforeScan (by decide +kernel)
  exact htwo (h .empty w hreach)

-- The other clause: of two workers that have loaded a PENDING scan one completes it, and then the
-- other one passes the guard and stores the record once more.
example : (Runs.replay (act {} .plain) (fun w a ↦ Keeps a ∧ w.Succeeds a)
    (.start (.create "a.b" 7) :: performs 0 13 ++ .duplicate 0 :: .take 0 :: .take 0 ::
      (performs 1 2 ++ List.replicate 25 (.perform 2 oneAddress) ++
        List.replicate 13 (.perform 1 oneAddress))) (boot .empty)).any fun w ↦
    (w.shared.db.assetsOf 1).map Asset.value = ["192.0.2.1", "192.0.2.1"] := by
  decide +kernel

end World

end AssetDiscovery
