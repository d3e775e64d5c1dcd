import AssetDiscovery.Locks

/-!
# Manual triggers of one domain are serialised

Any number of `trigger_manual_scan` calls for one domain run statement by statement, interleaved
with each other and with commits of workers that rewrite scans and domains but insert and delete
none. A call that is accepted was *admitted* (`Admitted`): at some instant it held the row lock, no
scan of the domain was active, and until its commit nobody inserted another scan of the domain.

What has happened to a call is read off its phase (`Traced`), which every step keeps because the row
lock has one owner. From it `triggers_serialised` draws the three consequences: an accepted call was
admitted, two admitted calls are separated by a worker's commit that finished the first one's scan,
and a call that is answered 404 or 409 changed nothing and holds no lock.
-/

set_option autoImplicit false

namespace AssetDiscovery

open Effect Phase

/-- A statement that rewrites a stored scan or domain, as workers do. -/
def Write.Rewrites : Write → Prop
  | .updateScan _ _ => True
  | .updateDomain _ _ => True
  | _ => False

instance : DecidablePred Write.Rewrites := fun w ↦ by
  unfold Write.Rewrites
  split <;> infer_instance

/-- The phases of a trigger of domain `d`. -/
def Phase.Calls (d : Id) : Phase → Prop
  | triggering d' => d' = d
  | locked d' => d' = d
  | cleared d' => d' = d
  | refused d' => d' = d
  | announcing d' _ => d' = d
  | announced d' _ => d' = d
  | idle => True
  | _ => False

/-- A trigger that has committed scan `x` of domain `d`. -/
def Phase.Committed (d x : Id) : Phase → Prop
  | announcing d' y => d' = d ∧ y = x
  | announced d' y => d' = d ∧ y = x
  | _ => False

/-- Scan `x` is a scan of domain `d`. -/
def Board.HasScan (b : Board) (x d : Id) : Prop :=
  ∃ st, b.Has x d st

/-! ### What a move of a trigger does -/

variable {o : Op} {b b' : Board} {v v' : Phase} {d x : Id}

/-- A move of a trigger inserts the scan it was cleared for, or leaves all scans as they are. -/
theorem Move.calls (h : Move o b v b' v') (hgrounds : b.Grounds v) (hv : v.Calls d) :
    v'.Calls d ∧ (b'.scans = b.scans ∨ ∃ x, v = Phase.cleared d ∧ v' = announcing d x ∧
      b.scans x = none ∧ b' = b.addScan x d) := by
  cases h with
  | gone hgone => exact absurd hgrounds hgone
  | stay => exact ⟨hv, Or.inl rfl⟩
  | leave => exact ⟨trivial, Or.inl rfl⟩
  | lock | occupied | clear | announce => exact ⟨hv, Or.inl rfl⟩
  | accept hfree =>
    obtain rfl := hv
    exact ⟨rfl, Or.inr ⟨_, rfl, rfl, hfree, rfl⟩⟩
  | _ => exact absurd hv id

/-- A call whose operation fails stays a call. -/
theorem Fault.calls (h : Fault v v') (hv : v.Calls d) : v'.Calls d := by
  cases h with
  | statement =>
    cases v with
    | announcing | announced | locked | cleared => exact hv
    | _ => trivial
  | publish hpub =>
    cases hpub with
    | announcing => exact hv
    | _ => exact absurd hv id

/-- A trigger that has committed its scan had done so before, or has just been accepted. -/
theorem Move.committed (h : Move o b v b' v') (hgrounds : b.Grounds v) (hv : v.Calls d)
    (hv' : v'.Committed d x) :
    v.Committed d x ∨ (v = Phase.cleared d ∧ b.scans x = none ∧ b' = b.addScan x d) := by
  cases h with
  | gone hgone => exact absurd hgrounds hgone
  | stay | announce => exact Or.inl hv'
  | accept hfree =>
    obtain ⟨rfl, rfl⟩ := hv'
    exact Or.inr ⟨rfl, hfree, rfl⟩
  | create => exact absurd hv id
  | _ => exact absurd hv' id

/-- A failure commits no scan. -/
theorem Fault.committed (h : Fault v v') (hv' : v'.Committed d x) : v.Committed d x := by
  cases h with
  | statement =>
    cases v with
    | announcing | announced => exact hv'
    | _ => exact absurd hv' id
  | publish hpub =>
    cases hpub with
    | announcing => exact hv'
    | @handing _ _ _ h _ => cases h <;> exact absurd hv' id
    | _ => exact absurd hv' id

/-- A scan that a trigger has committed stays committed. -/
theorem Move.keeps_committed (h : Move o b v b' v') (hgrounds : b.Grounds v)
    (hv : v.Committed d x) : v'.Committed d x := by
  cases h with
  | gone hgone => exact absurd hgrounds hgone
  | stay | announce => exact hv
  | leave hunbound => cases hunbound <;> exact absurd hv id
  | _ => exact absurd hv id

/-- A committed scan stays committed when an operation of its call fails. -/
theorem Fault.keeps_committed (h : Fault v v') (hv : v.Committed d x) : v'.Committed d x := by
  cases h with
  | statement =>
    cases v with
    | announcing | announced => exact hv
    | _ => exact absurd hv id
  | publish hpub =>
    cases hpub with
    | announcing => exact hv
    | _ => exact absurd hv id

/-- A trigger that has not committed its scan after an operation has changed no row with it, and had
not committed it before. -/
theorem db_of_serve {i : ℕ} {e : Env} {s s' : Store} {r : o.Res} (hallowed : v.Allowed o)
    (hgrounds : s.board.Grounds v) (hv : v.Calls d) (hserve : serve i o e s = some (r, s'))
    (hnot : ∀ x, ¬ (v.observe o r).Committed d x) :
    s'.db = s.db ∧ ∀ x, ¬ v.Committed d x := by
  have hbefore : ∀ x, ¬ v.Committed d x := by
    intro x hx
    rcases serve_move hallowed hserve with ⟨-, -, hfault⟩ | ⟨-, hmove⟩
    · exact hnot x (hfault.keeps_committed hx)
    · exact hnot x (hmove.keeps_committed hgrounds hx)
  refine ⟨?_, hbefore⟩
  cases hallowed with
  | query => exact (serve_query hserve).1
  | flush => exact (serve_flush hserve).1
  | commit hcommits =>
    obtain ⟨-, ⟨-, hdb⟩ | ⟨rfl, -⟩⟩ := serve_commit hserve
    · exact hdb
    · cases hcommits with
      | triggerManualScan => exact absurd ⟨hv, rfl⟩ (hnot _)
      | announcing => exact absurd ⟨hv, rfl⟩ (hbefore _)
      | _ => exact absurd hv id
  | publish => exact (serve_publish hserve).1
  | rollback | close | closeAnnounced | lookup | now | uuid4 =>
    obtain ⟨-, rfl⟩ := Prod.mk.inj (Option.some.inj hserve)
    rfl

/-! ### Commits of workers -/

theorem Board.hasScan_setScan (b : Board) (y : Id) (st : Option ScanStatus) :
    (b.setScan y st).HasScan x d ↔ b.HasScan x d := by
  cases st with
  | none => rfl
  | some st =>
    simp only [HasScan, has_setScan_some]
    constructor
    · rintro ⟨st', ⟨rfl, -, st₀, h⟩ | ⟨-, h⟩⟩
      · exact ⟨st₀, h⟩
      · exact ⟨st', h⟩
    · rintro ⟨st', h⟩
      by_cases hx : x = y
      · exact ⟨st, Or.inl ⟨hx, rfl, st', hx ▸ h⟩⟩
      · exact ⟨st', Or.inr ⟨hx, h⟩⟩

/-- Rewriting rows neither adds nor removes a scan. -/
theorem hasScan_writeAll {db db' : Database} {q : List Message} {now : Time} {ws : List Write}
    (hws : ∀ w ∈ ws, w.Rewrites) (h : db.writeAll now ws = .ok db') :
    (db'.board q).HasScan x d ↔ (db.board q).HasScan x d := by
  induction ws generalizing db with
  | nil => rw [Database.writeAll_nil h]
  | cons w ws ih =>
    obtain ⟨db₁, h₁, h₂⟩ := Database.writeAll_cons h
    rw [ih (fun w hw ↦ hws w (List.mem_cons_of_mem _ hw)) h₂]
    have hw := hws w List.mem_cons_self
    cases w with
    | updateScan y p => rw [Database.board_updateScan h₁, Board.hasScan_setScan]
    | updateDomain d' st => rw [Database.board_updateDomain h₁]
    | _ => exact absurd hw id

/-! ### Runs of calls -/

/-- What happens while the calls run. -/
inductive CallAction where
  /-- One more `trigger_manual_scan` of the domain is called. -/
  | call (user : Id)
  /-- Call `i` carries out its next operation. -/
  | perform (i : ℕ) (e : Env)
  /-- A worker commits these statements. -/
  | rewrite (ws : List Write)

namespace World

variable (cfg : Settings) (u : Unicode)

/-- Carry out one action. A worker's commit has to wait for no row lock here, which allows more runs
than the database does. -/
def callAct (d : Id) (w : World) : CallAction → Option World
  | .call user => w.act cfg u (.start (.trigger d user))
  | .perform i e => w.act cfg u (.perform i e)
  | .rewrite ws =>
    if ∀ w ∈ ws, w.Rewrites then
      match w.shared.db.writeAll w.shared.clock ws with
      | .ok db => some { w with shared := { w.shared with db := db } }
      | .error _ => none
    else none

/-- The worlds `w 0`, ..., `w n` are a run of calls for domain `d` from the store `s`, in which no
row is locked at first; `a k` leads from `w k` to `w (k + 1)`. -/
structure CallRun (d : Id) (s : Store) (w : ℕ → World) (a : ℕ → CallAction) (n : ℕ) : Prop where
  unlocked : ∀ d', s.locks d' = none
  start : w 0 = boot s
  step : ∀ k < n, (w k).callAct cfg u d (a k) = some (w (k + 1))

/-- From step `k` to step `m` call `i` holds the row lock of `d`, and the scans of `d` are the same;
at step `k` none of them is active. -/
structure ClearedSince (w : ℕ → World) (d : Id) (i k m : ℕ) : Prop where
  le : k ≤ m
  locked : ∀ l, k ≤ l → l ≤ m → (w l).shared.locks d = some i
  free : ∀ y, ¬ (w k).shared.board.HasActive y d
  same : ∀ l, k ≤ l → l ≤ m → ∀ y,
    (w l).shared.board.HasScan y d ↔ (w k).shared.board.HasScan y d

/-- Call `i` has found no active scan of `d` at step `k`, has kept the row lock since, and commits
the new scan `x` in step `m`, before which nobody has inserted another scan of `d`. -/
structure Admitted (w : ℕ → World) (a : ℕ → CallAction) (d : Id) (i : ℕ) (x : Id) (k m : ℕ) :
    Prop extends ClearedSince w d i k m where
  commits : ∃ e, a m = .perform i e
  absent : ∀ d', ¬ (w m).shared.board.HasScan x d'
  inserted : (w (m + 1)).shared.board.Has x d .pending

variable {cfg u} {w w' : World} {a : CallAction} {i k m : ℕ}

/-- A call begins or goes on as any process does. -/
theorem act_of_callAct (h : w.callAct cfg u d a = some w') (ha : ∀ ws, a ≠ .rewrite ws) :
    ∃ a', Keeps a' ∧ w.act cfg u a' = some w' := by
  cases a with
  | call user => exact ⟨.start (.trigger d user), trivial, h⟩
  | perform i e => exact ⟨.perform i e, trivial, h⟩
  | rewrite ws => exact absurd rfl (ha ws)

/-- A rewrite of statuses neither adds nor removes a scan, and touches no call and no lock. -/
theorem callAct_rewrite {ws : List Write} (h : w.callAct cfg u d (.rewrite ws) = some w') :
    w'.threads = w.threads ∧ w'.shared.locks = w.shared.locks ∧
      ∀ x d', w'.shared.board.HasScan x d' ↔ w.shared.board.HasScan x d' := by
  simp only [callAct] at h
  split at h
  · next hws =>
    split at h
    · next db hdb =>
      obtain rfl := Option.some.inj h
      exact ⟨rfl, rfl, fun x d' ↦ hasScan_writeAll hws hdb⟩
    · exact absurd h (by simp)
  · exact absurd h (by simp)

theorem Sound.callAct (hw : w.Sound) (h : w.callAct cfg u d a = some w') : w'.Sound := by
  by_cases ha : ∃ ws, a = .rewrite ws
  · obtain ⟨ws, rfl⟩ := ha
    obtain ⟨hthreads, -, hscans⟩ := callAct_rewrite h
    have hgrows : w.shared.board.Grows w'.shared.board :=
      fun x d' st hx ↦ (hscans x d').2 ⟨st, hx⟩
    refine ⟨fun t ht ↦ hw.disciplined t (hthreads ▸ ht), fun v hv ↦ ?_⟩
    rw [Pool.views, hthreads] at hv
    exact hgrows.grounds (hw.grounded v hv)
  · obtain ⟨a', hkeeps, ha'⟩ := act_of_callAct h (not_exists.1 ha)
    exact (hw.act hkeeps ha').1

theorem LockOwned.callAct (h : w.LockOwned) (hw : w.Sound)
    (ha : w.callAct cfg u d a = some w') : w'.LockOwned := by
  by_cases hrewrite : ∃ ws, a = .rewrite ws
  · obtain ⟨ws, rfl⟩ := hrewrite
    obtain ⟨hthreads, hlocks, -⟩ := callAct_rewrite ha
    refine ⟨fun i v hi d hd ↦ ?_, fun i d hd ↦ ?_⟩
    · rw [Pool.views, hthreads] at hi
      rw [hlocks]
      exact h.held i v hi d hd
    · rw [hlocks] at hd
      rw [Pool.views, hthreads]
      exact h.owner i d hd
  · obtain ⟨a', hkeeps, ha'⟩ := act_of_callAct ha (not_exists.1 hrewrite)
    exact h.act hw hkeeps ha'

/-- What a call's operation does: it leaves all scans as they are, or inserts the scan its call has
been cleared for. -/
theorem calls_perform {e : Env} (hw : w.Sound) (hcalls : ∀ v ∈ w.views, v.Calls d)
    (h : w.act cfg u (.perform i e) = some w') :
    ∃ v v', w.views[i]? = some v ∧ w'.views = w.views.set i v' ∧ v'.Calls d ∧
      (w'.shared.board.scans = w.shared.board.scans ∨ ∃ x, v = Phase.cleared d ∧
        v' = announcing d x ∧ w.shared.board.scans x = none ∧
        w'.shared.board = w.shared.board.addScan x d) := by
  obtain ⟨-, htrans⟩ := hw.act (a := .perform i e) trivial h
  cases htrans with
  | @perform _ _ v o r _ hi hasks hallowed hserve hviews =>
    have hv := hcalls v (List.mem_of_getElem? hi)
    have hgrounds := hw.grounded v (List.mem_of_getElem? hi)
    refine ⟨v, _, hi, hviews, ?_⟩
    rcases serve_move hallowed hserve with ⟨-, hboard, hfault⟩ | ⟨-, hmove⟩
    · exact ⟨hfault.calls hv, Or.inl (by rw [hboard])⟩
    · exact hmove.calls hgrounds hv

/-- While a call that has been cleared keeps the row lock, nobody inserts a scan of the domain. -/
theorem hasScan_callAct (hw : w.Sound) (howned : w.LockOwned) (hcalls : ∀ v ∈ w.views, v.Calls d)
    (h : w.callAct cfg u d a = some w') (hi : w.views[i]? = some (Phase.cleared d))
    (hi' : w'.views[i]? = some (Phase.cleared d)) (y : Id) :
    w'.shared.board.HasScan y d ↔ w.shared.board.HasScan y d := by
  cases a with
  | call user =>
    obtain rfl := Option.some.inj h
    rfl
  | rewrite ws => exact (callAct_rewrite h).2.2 y d
  | perform j e =>
    have hact : w.act cfg u (.perform j e) = some w' := h
    obtain ⟨v, v', hj, hviews, -, hsame | ⟨x, rfl, rfl, -⟩⟩ := calls_perform hw hcalls hact
    · simp only [Board.HasScan, Board.Has, hsame]
    · have hij : i = j := Option.some.inj
        ((howned.held i _ hi d rfl).symm.trans (howned.held j _ hj d rfl))
      rw [hviews] at hi'
      rcases getElem?_set_view hi' with ⟨-, hne⟩ | ⟨hne, -⟩
      · exact absurd hne (by simp)
      · exact absurd hij hne

/-- While the lock is held and no scan is inserted, the check stays good. -/
theorem ClearedSince.extend {w : ℕ → World} (h : ClearedSince w d i k m)
    (hlock : (w (m + 1)).shared.locks d = some i)
    (hsame : ∀ y, (w (m + 1)).shared.board.HasScan y d ↔ (w m).shared.board.HasScan y d) :
    ClearedSince w d i k (m + 1) := by
  refine ⟨h.le.trans m.le_succ, fun l hkl hlm ↦ ?_, h.free, fun l hkl hlm y ↦ ?_⟩
  · rcases Nat.le_succ_iff.1 hlm with hlm | rfl
    · exact h.locked l hkl hlm
    · exact hlock
  · rcases Nat.le_succ_iff.1 hlm with hlm | rfl
    · exact h.same l hkl hlm y
    · rw [hsame y]
      exact h.same m h.le le_rfl y

/-- What has happened in a run up to step `k`, as far as the phases of the calls tell. -/
structure Traced (w : ℕ → World) (a : ℕ → CallAction) (d : Id) (k : ℕ) : Prop where
  sound : (w k).Sound
  owned : (w k).LockOwned
  calls : ∀ v ∈ (w k).views, v.Calls d
  checked : ∀ i, (w k).views[i]? = some (Phase.cleared d) → ∃ k₀, ClearedSince w d i k₀ k
  admitted : ∀ i v x, (w k).views[i]? = some v → v.Committed d x →
    ∃ k₀ m, m < k ∧ Admitted w a d i x k₀ m
  unchanged : ∀ i, (∀ v x, (w k).views[i]? = some v → ¬ v.Committed d x) →
    ∀ l < k, ∀ e, a l = .perform i e → (w (l + 1)).shared.db = (w l).shared.db

variable {w : ℕ → World} {a : ℕ → CallAction}

/-- A step that leaves the phases of the calls as they are, but for one call that begins. -/
theorem Traced.idle_step (h : Traced w a d k) (hsound : (w (k + 1)).Sound)
    (howned : (w (k + 1)).LockOwned) (hstep : (w k).callAct cfg u d (a k) = some (w (k + 1)))
    (hnot : ∀ i e, a k ≠ .perform i e) {vs : List Phase} (hvs : ∀ v ∈ vs, v = triggering d)
    (hviews : (w (k + 1)).views = (w k).views ++ vs) : Traced w a d (k + 1) := by
  -- the calls that exist stay as they are; a new one is before its row lock
  have hold : ∀ {i : ℕ} {v : Phase}, (w (k + 1)).views[i]? = some v →
      (w k).views[i]? = some v ∨ v = triggering d := by
    intro i v hi
    rw [hviews, List.getElem?_append] at hi
    split at hi
    · exact Or.inl hi
    · exact Or.inr (hvs v (List.mem_of_getElem? hi))
  have hnew : ∀ {i : ℕ} {v : Phase}, (w k).views[i]? = some v → (w (k + 1)).views[i]? = some v := by
    intro i v hi
    rw [hviews, List.getElem?_append_left (List.getElem?_eq_some_iff.1 hi).1]
    exact hi
  -- in the order of the fields of `Traced`
  refine ⟨hsound, howned, fun v hv ↦ ?_, fun i hi ↦ ?_, fun i v x hi hx ↦ ?_,
    fun i hnone l hl e ha ↦ ?_⟩
  · rw [hviews] at hv
    rcases List.mem_append.1 hv with hv | hv
    · exact h.calls v hv
    · rw [hvs v hv]
      rfl
  · have hi₀ := (hold hi).resolve_right (by simp)
    obtain ⟨k₀, hchecked⟩ := h.checked i hi₀
    exact ⟨k₀, hchecked.extend (howned.held i _ hi d rfl)
      (hasScan_callAct h.sound h.owned h.calls hstep hi₀ hi)⟩
  · rcases hold hi with hi | rfl
    · obtain ⟨k₀, m, hm, hadm⟩ := h.admitted i v x hi hx
      exact ⟨k₀, m, hm.trans k.lt_succ_self, hadm⟩
    · exact absurd hx id
  · have hl : l < k := by
      rcases Nat.lt_succ_iff_lt_or_eq.1 hl with hl | rfl
      · exact hl
      · exact absurd ha (hnot i e)
    exact h.unchanged i (fun v x hi ↦ hnone v x (hnew hi)) l hl e ha

/-- A step of one of the calls. -/
theorem Traced.perform_step (h : Traced w a d k) (hsound : (w (k + 1)).Sound)
    (howned : (w (k + 1)).LockOwned) {i : ℕ} {e : Env} (ha : a k = .perform i e)
    (hstep : (w k).callAct cfg u d (a k) = some (w (k + 1))) : Traced w a d (k + 1) := by
  have hact : (w k).act cfg u (.perform i e) = some (w (k + 1)) := by
    rw [ha] at hstep
    exact hstep
  obtain ⟨-, htrans⟩ := h.sound.act (a := .perform i e) trivial hact
  cases htrans with
  | @perform _ _ v o r _ hi _ hallowed hserve hviews =>
  have hv := h.calls v (List.mem_of_getElem? hi)
  have hgrounds := h.sound.grounded v (List.mem_of_getElem? hi)
  have hself : (w (k + 1)).views[i]? = some (v.observe o r) := by
    rw [hviews, List.getElem?_set_self (List.getElem?_eq_some_iff.1 hi).1]
  have hother : ∀ {j : ℕ}, j ≠ i → (w (k + 1)).views[j]? = (w k).views[j]? := by
    intro j hj
    rw [hviews, List.getElem?_set_ne hj.symm]
  -- whoever has checked keeps the lock, and nobody else inserts a scan while it does
  have hextend : ∀ {j : ℕ}, (w k).views[j]? = some (Phase.cleared d) →
      (w (k + 1)).views[j]? = some (Phase.cleared d) → ∃ k₀, ClearedSince w d j k₀ (k + 1) := by
    intro j hj hj'
    obtain ⟨k₀, hchecked⟩ := h.checked j hj
    exact ⟨k₀, hchecked.extend (howned.held j _ hj' d rfl)
      (hasScan_callAct h.sound h.owned h.calls hstep hj hj')⟩
  refine ⟨hsound, howned, fun v' hv' ↦ ?_, fun j hj ↦ ?_, fun j v' x hj hx ↦ ?_,
    fun j hnone l hl e' hl' ↦ ?_⟩
  · obtain ⟨_, _, hi', hviews', hcalls', -⟩ := calls_perform h.sound h.calls hact
    rw [hviews'] at hv'
    rcases List.mem_or_eq_of_mem_set hv' with hv' | rfl
    · exact h.calls v' hv'
    · exact hcalls'
  · by_cases hji : j = i
    · subst hji
      have hcleared : v.observe o r = Phase.cleared d := Option.some.inj (hself.symm.trans hj)
      rcases serve_move hallowed hserve with ⟨-, -, hfault⟩ | ⟨-, hmove⟩
      · rw [hcleared] at hfault
        exact absurd rfl (hfault.cases_of (P := fun v ↦ v ≠ Phase.cleared d) nofun
          (fun _ _ ↦ nofun) (fun _ ↦ nofun) (fun _ _ ↦ nofun) fun _ _ _ ↦ nofun)
      · rw [hcleared] at hmove
        rcases hmove.cleared hgrounds with rfl | ⟨rfl, hfree⟩
        · exact hextend hi hj
        · -- the check has just passed: this is the instant
          have hscans := (hmove.calls hgrounds hv).2.resolve_right (by simp)
          refine ⟨k, ?_⟩
          have hnow : ClearedSince w d j k k := by
            refine ⟨le_rfl, fun l hkl hlk ↦ ?_, hfree, fun l hkl hlk y ↦ ?_⟩
            · rw [le_antisymm hlk hkl]
              exact h.owned.held j _ hi d rfl
            · rw [le_antisymm hlk hkl]
          refine hnow.extend (howned.held j _ hj d rfl) fun y ↦ ?_
          simp only [Board.HasScan, Board.Has, hscans]
    · exact hextend ((hother hji).symm.trans hj) hj
  · have hold : ∀ {j : ℕ} {v : Phase}, (w k).views[j]? = some v → v.Committed d x →
        ∃ k₀ m, m < k + 1 ∧ Admitted w a d j x k₀ m := by
      intro j v hj hx
      obtain ⟨k₀, m, hm, hadm⟩ := h.admitted j v x hj hx
      exact ⟨k₀, m, hm.trans k.lt_succ_self, hadm⟩
    by_cases hji : j = i
    · subst hji
      obtain rfl : v.observe o r = v' := Option.some.inj (hself.symm.trans hj)
      rcases serve_move hallowed hserve with ⟨-, -, hfault⟩ | ⟨-, hmove⟩
      · exact hold hi (hfault.committed hx)
      · rcases hmove.committed hgrounds hv hx with hx | ⟨rfl, hfree, hadd⟩
        · exact hold hi hx
        · -- the commit of the new scan
          obtain ⟨k₀, hchecked⟩ := h.checked j hi
          have habsent : ∀ d', ¬ (w k).shared.board.HasScan x d' := by
            rintro d' ⟨st, hst⟩
            rw [Board.Has, hfree] at hst
            exact absurd hst (by simp)
          refine ⟨k₀, k, k.lt_succ_self, hchecked, ⟨e, ha⟩, habsent, ?_⟩
          rw [hadd]
          exact (Board.has_addScan hfree).2 (Or.inl ⟨rfl, rfl, rfl⟩)
    · exact hold ((hother hji).symm.trans hj) hx
  -- a call that has no scan of its own at the end has changed no row in this step
  · have hnow := db_of_serve (d := d) hallowed hgrounds hv hserve
    by_cases hji : j = i
    · subst hji
      obtain ⟨hdb, hbefore⟩ := hnow fun x ↦ hnone _ x hself
      rcases Nat.lt_succ_iff_lt_or_eq.1 hl with hl | rfl
      · refine h.unchanged j (fun v' x hj ↦ ?_) l hl e' hl'
        rw [hi] at hj
        rw [← Option.some.inj hj]
        exact hbefore x
      · exact hdb
    · rcases Nat.lt_succ_iff_lt_or_eq.1 hl with hl | rfl
      · exact h.unchanged j (fun v' x hj ↦ hnone v' x ((hother hji).trans hj)) l hl e' hl'
      · rw [ha] at hl'
        injection hl' with hij
        exact absurd hij.symm hji

/-- Every step keeps the traces of the calls. -/
theorem Traced.step (h : Traced w a d k)
    (hstep : (w k).callAct cfg u d (a k) = some (w (k + 1))) : Traced w a d (k + 1) := by
  have hsound := h.sound.callAct hstep
  have howned := h.owned.callAct h.sound hstep
  cases ha : a k with
  | call user =>
    have hviews : (w (k + 1)).views = (w k).views ++ [triggering d] := by
      rw [ha] at hstep
      rw [← Option.some.inj hstep]
      exact List.map_append
    exact h.idle_step hsound howned hstep (by simp [ha]) (by simp) hviews
  | rewrite ws =>
    have hviews : (w (k + 1)).views = (w k).views ++ [] := by
      rw [ha] at hstep
      rw [Pool.views, (callAct_rewrite hstep).1, List.append_nil, Pool.views]
    exact h.idle_step hsound howned hstep (by simp [ha]) (by simp) hviews
  | perform i e => exact h.perform_step hsound howned ha hstep

/-- What the phases tell is so at every step of every run. -/
theorem CallRun.traced {s : Store} {n : ℕ} (h : CallRun cfg u d s w a n) (hk : k ≤ n) :
    Traced w a d k := by
  induction k with
  | zero =>
    have hviews : (w 0).views = [] := by
      rw [h.start]
      rfl
    have hsound := sound_boot s
    have howned := lockOwned_boot h.unlocked
    rw [← h.start] at hsound howned
    exact ⟨hsound, howned, by simp [hviews], by simp [hviews], by simp [hviews],
      fun i _ l hl ↦ absurd hl (Nat.not_lt_zero l)⟩
  | succ k ih => exact (ih (Nat.le_of_succ_le hk)).step (h.step k hk)

/-! ### The consequences -/

/-- Between a number that has a property and a later one that has not, the property is lost. -/
theorem exists_turn {P : ℕ → Prop} {m k : ℕ} (hmk : m ≤ k) (hm : P m) (hk : ¬ P k) :
    ∃ t, m ≤ t ∧ t < k ∧ P t ∧ ¬ P (t + 1) := by
  induction k, hmk using Nat.le_induction with
  | base => exact absurd hm hk
  | succ k hmk ih =>
    by_cases h : P k
    · exact ⟨k, hmk, k.lt_succ_self, h, hk⟩
    · obtain ⟨t, hmt, htk, ht⟩ := ih h
      exact ⟨t, hmt, htk.trans k.lt_succ_self, ht⟩

/-- The calls themselves finish no scan. -/
theorem Traced.hasActive_step (h : Traced w a d k)
    (hstep : (w k).callAct cfg u d (a k) = some (w (k + 1))) (ha : ∀ ws, a k ≠ .rewrite ws)
    {x d' : Id} (hx : (w k).shared.board.HasActive x d') :
    (w (k + 1)).shared.board.HasActive x d' := by
  cases hk : a k with
  | rewrite ws => exact absurd hk (ha ws)
  | call user =>
    rw [hk] at hstep
    rw [← Option.some.inj hstep]
    exact hx
  | perform i e =>
    have hact : (w k).act cfg u (.perform i e) = some (w (k + 1)) := by
      rw [hk] at hstep
      exact hstep
    obtain ⟨v, v', -, -, -, hsame | ⟨y, -, -, hfree, hadd⟩⟩ := calls_perform h.sound h.calls hact
    · simpa only [Board.HasActive, Board.Has, hsame] using hx
    · obtain ⟨st, hst, hactive⟩ := hx
      rw [hadd]
      exact ⟨st, (Board.has_addScan hfree).2 (Or.inr hst), hactive⟩

/-- The instant at which a later call was cleared comes after the commit of the earlier one. -/
theorem Admitted.lt_of_lt {i j : ℕ} {x y : Id} {k k' m m' : ℕ} (h : Admitted w a d i x k m)
    (h' : Admitted w a d j y k' m') (hm : m < m') : m < k' := by
  by_contra hle
  have hbefore := h'.same m (Nat.le_of_not_lt hle) hm.le x
  have hafter := h'.same (m + 1) ((Nat.le_of_not_lt hle).trans m.le_succ) hm x
  exact h.absent d (hbefore.2 (hafter.1 ⟨_, h.inserted⟩))

/-- **Manual triggers of one domain are serialised.** In every run of calls for domain `d`, whatever
the workers commit in between:

* a call that is answered 202 with scan `x` was admitted, that is, found the domain without an
  active scan while it held the row lock, and nobody inserted a scan of it before its commit;
* of two admitted calls, the scan of the earlier one was finished in between by a worker's commit;
* a call that is answered 404 or 409 has changed no row, and holds no lock. -/
theorem triggers_serialised {s : Store} {n : ℕ} (h : CallRun cfg u d s w a n) :
    (∀ i x st, (w n).result i = some (.ok (.trigger x st)) →
      ∃ k m, m < n ∧ Admitted w a d i x k m) ∧
    (∀ i j x y k k' m m', Admitted w a d i x k m → Admitted w a d j y k' m' → m < m' → m' < n →
      ∃ t ws, m < t ∧ t < k' ∧ a t = .rewrite ws ∧ (w t).shared.board.HasActive x d ∧
        ¬ (w (t + 1)).shared.board.HasActive x d) ∧
    (∀ i code detail, (w n).result i = some (.error (.http code detail)) →
      (∀ l < n, ∀ e, a l = .perform i e → (w (l + 1)).shared.db = (w l).shared.db) ∧
      ∀ d', (w n).shared.locks d' ≠ some i) := by
  have hn := h.traced le_rfl
  refine ⟨fun i x st hres ↦ ?_, fun i j x y k k' m m' hi hj hm hm' ↦ ?_,
    fun i code detail hres ↦ ?_⟩
  · obtain ⟨v, hv, hends⟩ := hn.sound.disciplined.final hres
    cases hends with
    | @accepted d' _ _ =>
      have hd : d' = d := hn.calls _ (List.mem_of_getElem? hv)
      exact hn.admitted i _ x hv ⟨hd, rfl⟩
    | announced hnot => exact absurd rfl (hnot x st)
    | idle hnot => exact absurd rfl (hnot x st)
  -- the first scan is active from its commit on, and gone when the second call checks
  · have hlt := hi.lt_of_lt hj hm
    have hactive : (w (m + 1)).shared.board.HasActive x d := ⟨_, hi.inserted, trivial⟩
    -- so some step in between ended it, and no step of a call does
    obtain ⟨t, hmt, htk, ht, ht'⟩ := exists_turn (P := fun l ↦ (w l).shared.board.HasActive x d)
      (Nat.succ_le_of_lt hlt) hactive (hj.free x)
    have htn : t < n := by
      have := hj.le
      omega
    have hturn := (h.traced htn.le).hasActive_step (h.step t htn)
    by_cases hrewrite : ∃ ws, a t = .rewrite ws
    · obtain ⟨ws, hws⟩ := hrewrite
      exact ⟨t, ws, hmt, htk, hws, ht, ht'⟩
    · exact absurd (hturn (not_exists.1 hrewrite) ht) ht'
  · obtain ⟨v, hv, hends⟩ := hn.sound.disciplined.final hres
    have hidle : v = Phase.idle := by
      cases hends with
      | announced _ hnot => exact absurd rfl (hnot code detail)
      | idle => rfl
    subst hidle
    refine ⟨hn.unchanged i fun v' x hv' hx ↦ ?_, fun d' hd' ↦ ?_⟩
    · rw [hv] at hv'
      rw [← Option.some.inj hv'] at hx
      exact hx
    · obtain ⟨v', hv', hmay⟩ := hn.owned.owner i d' hd'
      rw [hv] at hv'
      rw [← Option.some.inj hv'] at hmay
      exact hmay

/-! ### A run of three calls -/

/-- The worlds that a sequence of actions leads through; an action that is not possible is left
out. -/
def callWorlds (cfg : Settings) (u : Unicode) (d : Id) (w₀ : World) (a : ℕ → CallAction) :
    ℕ → World
  | 0 => w₀
  | k + 1 =>
    let w := callWorlds cfg u d w₀ a k
    (w.callAct cfg u d (a k)).getD w

/-- Actions that are all possible are a run. -/
theorem callRun_of_isSome {s : Store} {n : ℕ} (hs : ∀ d', s.locks d' = none)
    (h : ∀ k < n, ((callWorlds cfg u d (boot s) a k).callAct cfg u d (a k)).isSome) :
    CallRun cfg u d s (callWorlds cfg u d (boot s) a) a n := by
  refine ⟨hs, rfl, fun k hk ↦ ?_⟩
  obtain ⟨w', hw'⟩ := Option.isSome_iff_exists.1 (h k hk)
  rw [callWorlds, hw', Option.getD_some]

/-- A call is accepted, a second one refused; a worker completes the scan of the first, and a third
call is accepted. -/
def threeCalls (k : ℕ) : CallAction :=
  let performs (i n : ℕ) : List CallAction := List.replicate n (.perform i {})
  let as : List CallAction := .call 7 :: .call 7 :: performs 0 8 ++ performs 1 4 ++
    .rewrite [.updateScan 1 { status := some .completed }] :: .call 7 :: performs 2 8
  as.getD k (.call 7)

/-- `triggers_serialised` for a run with two accepted calls and a refused one. -/
theorem triggers_serialised_threeCalls :
    let w := callWorlds {} .plain 0 (boot Store.oneDomain) threeCalls
    (∃ k m, m < 24 ∧ Admitted w threeCalls 0 2 2 k m) ∧ ∀ d', (w 24).shared.locks d' ≠ some 1 := by
  have hrun : CallRun {} .plain 0 Store.oneDomain _ threeCalls 24 :=
    callRun_of_isSome (fun _ ↦ rfl) (by decide +kernel)
  have h := triggers_serialised hrun
  exact ⟨h.1 2 2 .pending (by decide +kernel),
    (h.2.2 1 409 "A scan is already running for this domain" (by decide +kernel)).2⟩

end World

end AssetDiscovery
