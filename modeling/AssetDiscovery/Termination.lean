import AssetDiscovery.Errands
import AssetDiscovery.Library.Descent
import AssetDiscovery.Rows
import AssetDiscovery.World
import Mathlib.Data.Finset.Card

/-!
# The service comes to rest

Without new requests, restarts and repeated deliveries, the workers finish what there is to do: from
no state, and whatever fails, can messages be taken and operations carried out forever. A worker can
publish a message, so a message can lead to others; but a retry uses up one of the retries of its
message, and the next scan of a domain is published for a scan that is PENDING by a worker whose own
scan is not.

`Errand.weight` and `Message.weight` count what a worker or a message can still lead to, by the
number of PENDING scans and, for equal numbers, by the retries left. Their sum is the budget
(`World.budget`) out of which every delivery is paid. Processes that run already may do anything,
reset scans to PENDING in particular: each of their operations uses up something of theirs.
-/

set_option autoImplicit false

namespace AssetDiscovery

open Effect

/-! ### PENDING scans -/

namespace Database

/-- The ids of the PENDING scans. -/
def pendingIds (db : Database) : Finset Id :=
  ((db.scans.rows.filter fun s ↦ s.status = .pending).map Scan.id).toFinset

variable {db db' : Database} {now : Time} {w : Write} {ws : List Write}

theorem mem_pendingIds {x : Id} :
    x ∈ db.pendingIds ↔ ∃ row, db.scans.get x = some row ∧ row.status = .pending := by
  simp only [pendingIds, List.mem_toFinset, List.mem_map, List.mem_filter, decide_eq_true_eq]
  constructor
  · rintro ⟨row, ⟨hrow, hst⟩, rfl⟩
    exact ⟨row, Table.get_key hrow, hst⟩
  · rintro ⟨row, hrow, hst⟩
    exact ⟨row, ⟨Table.mem_of_get hrow, hst⟩, Table.key_of_get hrow⟩

/-- The next scan is PENDING. -/
theorem mem_pendingIds_of_nextPending {d y : Id} {pick : ℕ} (h : db.nextPending d pick = some y) :
    y ∈ db.pendingIds := by
  obtain ⟨row, hrow, -, hst⟩ := has_board.1 (has_of_nextPending (q := []) h)
  exact mem_pendingIds.2 ⟨row, hrow, hst⟩

/-- A harmless statement makes no scan PENDING. -/
theorem pendingIds_subset_of_wrote (h : db.Wrote now w db') (hw : w.Harmless) :
    db'.pendingIds ⊆ db.pendingIds := by
  intro y hy
  obtain ⟨row, hrow, hst⟩ := mem_pendingIds.1 hy
  refine mem_pendingIds.2 ?_
  cases h with
  | insertDomain | insertAsset | updateDomain => exact ⟨row, hrow, hst⟩
  | insertScan =>
    rw [scans_get_insertScan] at hrow
    split at hrow
    · obtain rfl := Option.some.inj hrow
      exact absurd hst hw
    · exact ⟨row, hrow, hst⟩
  | @updateScan x p =>
    rw [scans_get_updateScan] at hrow
    split at hrow
    · obtain ⟨row₀, hrow₀, rfl⟩ := Option.map_eq_some_iff.1 hrow
      refine ⟨row₀, hrow₀, ?_⟩
      rw [ScanPatch.apply_status] at hst
      have hne : p.status ≠ some .pending := hw
      cases hp : p.status with
      | none => rwa [hp] at hst
      | some st =>
        rw [hp] at hst hne
        exact absurd (congrArg some hst) hne
    · exact ⟨row, hrow, hst⟩
  | deleteDomain =>
    rw [scans_get_deleteDomain] at hrow
    exact ⟨row, (Option.filter_eq_some_iff.1 hrow).1, hst⟩

/-- Harmless statements make no scan PENDING. -/
theorem pendingIds_subset_of_writeAll (h : db.writeAll now ws = .ok db')
    (hws : ∀ w ∈ ws, w.Harmless) : db'.pendingIds ⊆ db.pendingIds := by
  induction ws generalizing db with
  | nil =>
    obtain rfl := Except.ok.inj h
    exact Finset.Subset.refl _
  | cons w ws ih =>
    rw [writeAll] at h
    split at h
    · next db₁ h₁ =>
      exact (ih h fun w hw ↦ hws w (List.mem_cons_of_mem _ hw)).trans
        (pendingIds_subset_of_wrote (wrote_of_write h₁) (hws w List.mem_cons_self))
    · exact absurd h (by simp)

/-- The scan whose status a commit has set is not PENDING after it. -/
theorem not_mem_pendingIds_of_updateScan {x : Id} {p : ScanPatch} {st : ScanStatus}
    (h : db.writeAll now [.updateScan x p] = .ok db') (hp : p.status = some st)
    (hst : st ≠ .pending) : x ∉ db'.pendingIds := by
  intro hx
  obtain ⟨row, hrow, hrow'⟩ := mem_pendingIds.1 hx
  rw [writeAll] at h
  split at h
  · next db₁ h₁ =>
    obtain rfl := Except.ok.inj h
    cases wrote_of_write h₁ with
    | updateScan =>
      rw [scans_get_updateScan, if_pos rfl] at hrow
      obtain ⟨row₀, -, rfl⟩ := Option.map_eq_some_iff.1 hrow
      rw [ScanPatch.apply_status, hp] at hrow'
      exact hst hrow'
  · exact absurd h (by simp)

end Database

/-! ### What messages and workers can still lead to -/

/-- The weight of a scan that waits to become the next one of its domain: more than that of
anything that does not, with as many PENDING scans. -/
def scanWeight (n : ℕ) : ℕ := 2 * n + 4

/-- What a message can lead to, under a limit of `n` retries: it may set its own scan RUNNING before
it makes others follow, so its own scan does not count. -/
def Message.weight (n : ℕ) (pending : Finset Id) (m : Message) : ℕ :=
  (pending.erase m.scan).card * scanWeight n + (2 * (n - m.retries) + 1)

/-- What a worker can lead to. -/
def Errand.weight (n : ℕ) (pending : Finset Id) : Errand → ℕ
  | fresh x r => (pending.erase x).card * scanWeight n + 2 * (n - r)
  | claimed _ r => pending.card * scanWeight n + 2 * (n - r)
  | holding y => (pending.erase y).card * scanWeight n + (2 * n + 2)
  | done => 0

section Weight

variable {n : ℕ} {pending pending' : Finset Id}

/-- A message weighs less when fewer scans are PENDING. -/
theorem Message.weight_mono (h : pending' ⊆ pending) (m : Message) :
    m.weight n pending' ≤ m.weight n pending :=
  Nat.add_le_add_right
    (Nat.mul_le_mul_right _ (Finset.card_le_card (Finset.erase_subset_erase _ h))) _

/-- An errand weighs less when fewer scans are PENDING. -/
theorem Errand.weight_mono (h : pending' ⊆ pending) (v : Errand) :
    v.weight n pending' ≤ v.weight n pending := by
  have herase : ∀ x,
      (pending'.erase x).card * scanWeight n ≤ (pending.erase x).card * scanWeight n := fun x ↦
    Nat.mul_le_mul_right _ (Finset.card_le_card (Finset.erase_subset_erase _ h))
  cases v with
  | fresh x r => exact Nat.add_le_add_right (herase x) _
  | claimed x r => exact Nat.add_le_add_right (Nat.mul_le_mul_right _ (Finset.card_le_card h)) _
  | holding y => exact Nat.add_le_add_right (herase y) _
  | done => exact Nat.le_refl 0

/-- An operation that publishes nothing leaves the queue as it is. -/
theorem queue_of_serve {i : ℕ} {o : Op} {e : Env} {s s' : Store} {r : o.Res}
    (ho : ∀ m, o ≠ .publish m) (h : serve i o e s = some (r, s')) : s'.queue = s.queue := by
  cases o with
  | query q => exact (serve_query h).2.1
  | flush ws => exact (serve_flush h).2.1
  | commit site ws => exact (serve_commit h).1
  | publish m => exact absurd rfl (ho m)
  | rollback | close | lookup | now | uuid4 =>
    obtain ⟨-, rfl⟩ := Prod.mk.inj (Option.some.inj h)
    rfl

/-- What the worker and the messages it has published since can lead to, before and after one of
its operations. -/
structure Store.Spends (n : ℕ) (v : Errand) (s : Store) (v' : Errand) (s' : Store) : Prop where
  pending : s'.db.pendingIds ⊆ s.db.pendingIds
  queue : ∃ ms, s'.queue = s.queue ++ ms ∧
    (ms.map (Message.weight n s'.db.pendingIds)).sum + v'.weight n s'.db.pendingIds ≤
      v.weight n s.db.pendingIds

namespace Errand

variable {i : ℕ} {v : Errand} {o : Op} {e : Env} {s s' : Store} {r : o.Res}

/-- An operation that publishes nothing. -/
theorem spends_of_queue (hpending : s'.db.pendingIds ⊆ s.db.pendingIds)
    (hqueue : s'.queue = s.queue) {v' : Errand}
    (hle : v'.weight n s'.db.pendingIds ≤ v.weight n s'.db.pendingIds) : s.Spends n v v' s' :=
  ⟨hpending, [], by rw [hqueue, List.append_nil], by
    rw [List.map_nil, List.sum_nil, Nat.zero_add]
    exact hle.trans (v.weight_mono hpending)⟩

/-- A plain operation. -/
theorem spends_of_plain (hv : v.Active) (ho : o.Plain Write.Harmless)
    (h : serve i o e s = some (r, s')) : s.Spends n v (v.observe o r) s' := by
  have hview : v.observe o r = v := ((conduct n).plain hv ho).2 r
  have hpub : ∀ m, o ≠ .publish m := by
    rintro m rfl
    exact absurd ho id
  have hpending : s'.db.pendingIds ⊆ s.db.pendingIds := by
    rcases serve_db h with hdb | ⟨site, ws, now, rfl, hdb⟩
    · rw [hdb]
    · exact Database.pendingIds_subset_of_writeAll hdb ho
  exact spends_of_queue hpending (queue_of_serve hpub h) (by rw [hview])

/-- A query before the status commit: a scan that is found past PENDING does not count anyway. -/
theorem spends_of_read {x retries : ℕ} {q : Query} {r : Except DbError q.Row}
    (hq : ∀ d, q ≠ .nextPending d) (h : serve i (.query q) e s = some (r, s')) :
    s.Spends n (fresh x retries) ((fresh x retries).observe (.query q) r) s' := by
  obtain ⟨hdb, hqueue, hr⟩ := serve_query h
  refine spends_of_queue (by rw [hdb]) hqueue ?_
  rw [hdb]
  rcases hr with ⟨err, rfl⟩ | rfl
  · cases q <;> exact Nat.le_refl _
  · cases q with
    | nextPending d => exact absurd rfl (hq d)
    | scan y =>
      show ((fresh x retries).sawScan y (s.db.scans.get y)).weight n _ ≤ _
      cases hrow : s.db.scans.get y with
      | none => exact Nat.le_refl _
      | some row =>
        show (if y = x ∧ row.status ≠ .pending
          then claimed x retries else fresh x retries).weight n _ ≤ _
        split
        · next hne =>
          obtain ⟨rfl, hst⟩ := hne
          have hnot : y ∉ s.db.pendingIds := by
            intro hy
            obtain ⟨row', hrow', hst'⟩ := Database.mem_pendingIds.1 hy
            rw [hrow] at hrow'
            exact hst (Option.some.inj hrow' ▸ hst')
          rw [weight, weight, Finset.erase_eq_of_notMem hnot]
        · exact Nat.le_refl _
    | _ => exact Nat.le_refl _

/-- The status commit. -/
theorem spends_of_start {x retries : ℕ} {site : Site} {p : ScanPatch} {st : ScanStatus}
    {r : Except DbError Unit} (hp : p.status = some st) (hst : st ≠ .pending)
    (h : serve i (.commit site [.updateScan x p]) e s = some (r, s')) :
    s.Spends n (fresh x retries) ((fresh x retries).observe (.commit site [.updateScan x p]) r)
      s' := by
  obtain ⟨hqueue, ⟨⟨err, rfl⟩, hdb⟩ | ⟨rfl, -, now, hdb⟩⟩ := serve_commit h
  · exact spends_of_queue (by rw [hdb]) hqueue (Nat.le_refl _)
  · have hpending : s'.db.pendingIds ⊆ s.db.pendingIds :=
      Database.pendingIds_subset_of_writeAll hdb fun w hw ↦
        List.mem_singleton.1 hw ▸ harmless_updateScan hp hst x
    have hnot := Database.not_mem_pendingIds_of_updateScan hdb hp hst
    refine spends_of_queue hpending hqueue ?_
    show (claimed x retries).weight n _ ≤ (fresh x retries).weight n _
    rw [weight, weight, Finset.erase_eq_of_notMem hnot]

/-- Looking for the next scan: the one that is found stops counting. -/
theorem spends_of_next {d : Id} {r : Except DbError (Option Id)} (hv : v.Active)
    (h : serve i (.query (.nextPending d)) e s = some (r, s')) :
    s.Spends n v (v.observe (.query (.nextPending d)) r) s' := by
  obtain ⟨hdb, hqueue, hr⟩ := serve_query h
  refine spends_of_queue (by rw [hdb]) hqueue ?_
  rw [hdb]
  rcases hr with ⟨err, rfl⟩ | rfl
  · exact Nat.le_refl _
  · show (v.found (s.db.nextPending d e.pick)).weight n _ ≤ v.weight n _
    cases hnext : s.db.nextPending d e.pick with
    | none => cases v <;> exact Nat.le_refl _
    | some y =>
      have hy := Database.mem_pendingIds_of_nextPending hnext
      have hcard := Finset.card_erase_add_one hy
      cases v with
      | fresh | done => exact absurd hv id
      | claimed x retries =>
        show (holding y).weight n _ ≤ (claimed x retries).weight n _
        rw [weight, weight, ← hcard, Nat.add_mul, scanWeight]
        omega
      | holding z =>
        show (holding y).weight n _ ≤ (holding z).weight n _
        rw [weight, weight]
        refine Nat.add_le_add_right (Nat.mul_le_mul_right _ ?_) _
        exact (Nat.le_of_eq (Nat.eq_sub_of_add_eq hcard)).trans Finset.pred_card_le_card_erase

/-- The publish of a retry. -/
theorem spends_of_retry {x retries : ℕ} {r : Except String Unit} (hlt : retries < n)
    (h : serve i (.publish ⟨x, retries + 1⟩) e s = some (r, s')) :
    s.Spends n (claimed x retries) ((claimed x retries).observe (.publish ⟨x, retries + 1⟩) r)
      s' := by
  obtain ⟨hdb, ⟨⟨text, rfl⟩, hqueue⟩ | ⟨rfl, hqueue⟩⟩ := serve_publish h
  · exact spends_of_queue (by rw [hdb]) hqueue (Nat.zero_le _)
  · refine ⟨by rw [hdb], [⟨x, retries + 1⟩], hqueue, ?_⟩
    have hcard : (s.db.pendingIds.erase x).card * scanWeight n ≤
        s.db.pendingIds.card * scanWeight n := Nat.mul_le_mul_right _ Finset.card_erase_le
    show (([⟨x, retries + 1⟩] : List Message).map _).sum + done.weight n _ ≤ _
    rw [hdb, List.map_singleton, List.sum_singleton, Message.weight, weight, weight]
    dsimp only
    omega

/-- The publish of the next scan. -/
theorem spends_of_hand {y : ℕ} {r : Except String Unit}
    (h : serve i (.publish ⟨y, 0⟩) e s = some (r, s')) :
    s.Spends n (holding y) ((holding y).observe (.publish ⟨y, 0⟩) r) s' := by
  obtain ⟨hdb, ⟨⟨text, rfl⟩, hqueue⟩ | ⟨rfl, hqueue⟩⟩ := serve_publish h
  · exact spends_of_queue (by rw [hdb]) hqueue (Nat.le_refl _)
  · refine ⟨by rw [hdb], [⟨y, 0⟩], hqueue, ?_⟩
    show (([⟨y, 0⟩] : List Message).map _).sum + done.weight n _ ≤ _
    rw [hdb, List.map_singleton, List.sum_singleton, Message.weight, weight, weight]
    dsimp only
    omega

/-- No operation of a worker raises what it and its messages can lead to. -/
theorem spends_of_allowed (hallowed : v.Allowed n o) (h : serve i o e s = some (r, s')) :
    s.Spends n v (v.observe o r) s' := by
  cases hallowed with
  | plain hv ho => exact spends_of_plain hv ho h
  | read hq => exact spends_of_read hq h
  | start hp hst => exact spends_of_start hp hst h
  | next hv => exact spends_of_next hv h
  | retry hlt => exact spends_of_retry hlt h
  | hand => exact spends_of_hand h
  | now | lookup | close =>
    have hdb : s'.db = s.db := (serve_db h).resolve_right (by simp)
    exact spends_of_queue (by rw [hdb]) (queue_of_serve (by simp) h) (Nat.le_refl _)

end Errand

end Weight

/-! ### Runs without new work -/

/-- A worker takes a message, or a process carries out an operation. -/
def Action.Drains : Action → Prop
  | .take _ => True
  | .perform _ _ => True
  | .start _ => False
  | .duplicate _ => False

namespace World

variable {cfg : Settings} {u : Unicode} {n old : ℕ}

/-- What the queued messages and the workers can still lead to. -/
def budget (n : ℕ) (w : World) (errands : List Errand) : ℕ :=
  (w.shared.queue.map (Message.weight n w.shared.db.pendingIds)).sum +
    (errands.map (Errand.weight n w.shared.db.pendingIds)).sum

/-- The processes after the first `old` ones are workers, and each keeps to its errand. -/
structure OnErrands (n old : ℕ) (w : World) (errands : List Errand) : Prop where
  length : w.programs.length = old + errands.length
  follows : ∀ i v, errands[i]? = some v → ∃ p, w.programs[old + i]? = some p ∧
    p.Follows (Errand.discipline n) (fun _ _ ↦ True) v

theorem sum_map_eraseIdx {β : Type} {l : List β} {k : ℕ} {a : β} (f : β → ℕ) (hk : l[k]? = some a) :
    (l.map f).sum = f a + ((l.eraseIdx k).map f).sum := by
  obtain ⟨hlt, rfl⟩ := List.getElem?_eq_some_iff.1 hk
  have hperm := ((List.getElem_cons_eraseIdx_perm hlt).map f).sum_nat
  rw [← hperm, List.map_cons, List.sum_cons]

theorem sum_map_set {β : Type} {l : List β} {k : ℕ} {a b : β} (f : β → ℕ) (hk : l[k]? = some a) :
    ((l.set k b).map f).sum = f b + ((l.eraseIdx k).map f).sum := by
  obtain ⟨hlt, -⟩ := List.getElem?_eq_some_iff.1 hk
  have hperm := ((List.set_perm_cons_eraseIdx hlt b).map f).sum_nat
  rw [hperm, List.map_cons, List.sum_cons]

/-- A delivery is paid out of the budget. -/
theorem OnErrands.take {w w' : World} {errands : List Errand} {k : ℕ}
    (h : w.OnErrands cfg.scanMaxRetries old errands) (ha : w.act cfg u (.take k) = some w') :
    ∃ errands', w'.OnErrands cfg.scanMaxRetries old errands' ∧
      Pool.Paid old (budget cfg.scanMaxRetries) w errands w' errands' := by
  simp only [World.act] at ha
  split at ha
  · next m hm =>
    obtain rfl := Option.some.inj ha
    have hprograms : (Pool.spawn (Py.start (runDiscoveryScan cfg m)) m.phase
        { w with shared := { w.shared with queue := w.shared.queue.eraseIdx k } }).programs =
          w.programs ++ [Py.start (runDiscoveryScan cfg m)] := List.map_append ..
    refine ⟨errands ++ [.fresh m.scan m.retries], ⟨?_, ?_⟩, .start ?_ ?_⟩
    · rw [hprograms, List.length_append, List.length_append, h.length, Nat.add_assoc]
      rfl
    · intro i v hi
      rw [hprograms]
      rw [List.getElem?_append] at hi
      split at hi
      · obtain ⟨p, hp, hfollows⟩ := h.follows i v hi
        exact ⟨p, (List.getElem?_append_left (List.getElem?_eq_some_iff.1 hp).1).trans hp, hfollows⟩
      · obtain ⟨hlt, hv⟩ := List.getElem?_eq_some_iff.1 hi
        have hi : i = errands.length := by
          simp only [List.length_singleton] at hlt
          omega
        subst hi
        obtain rfl : Errand.fresh m.scan m.retries = v := by simpa using hv
        refine ⟨_, ?_, Errand.follows_start cfg m⟩
        rw [List.getElem?_append_right (Nat.le_of_eq h.length), h.length, Nat.sub_self]
        rfl
    · rw [hprograms, List.take_append_of_le_length (h.length ▸ Nat.le_add_right old _)]
    -- the message weighs one more than the errand it becomes
    · have hqueue := sum_map_eraseIdx (Message.weight cfg.scanMaxRetries w.shared.db.pendingIds) hm
      have hlt : (Errand.fresh m.scan m.retries).weight cfg.scanMaxRetries w.shared.db.pendingIds <
          m.weight cfg.scanMaxRetries w.shared.db.pendingIds := Nat.lt_succ_self _
      show ((w.shared.queue.eraseIdx k).map (Message.weight cfg.scanMaxRetries
          w.shared.db.pendingIds)).sum + ((errands ++ [Errand.fresh m.scan m.retries]).map
          (Errand.weight cfg.scanMaxRetries w.shared.db.pendingIds)).sum <
        (w.shared.queue.map _).sum + (errands.map _).sum
      rw [hqueue, List.map_append, List.sum_append, List.map_singleton, List.sum_singleton]
      omega
  · exact absurd ha (by simp)

/-- An operation of a process uses up something of it, and costs the budget nothing unless the
process was there before. -/
theorem OnErrands.perform {w w' : World} {errands : List Errand} {i : ℕ} {e : Env}
    (h : w.OnErrands n old errands) (ha : w.act cfg u (.perform i e) = some w') :
    ∃ errands', w'.OnErrands n old errands' ∧ Pool.Paid old (budget n) w errands w' errands' := by
  have hmoves := Pool.moves_of_step ha
  obtain ⟨o, next, v, r, s, ht, hserve, rfl⟩ := Pool.step_eq_some ha
  have hprogram : w.programs[i]? = some (.perform o next) := by
    rw [Pool.programs, List.getElem?_map, ht]
    rfl
  have hprograms : (⟨s, w.threads.set i ⟨next r, Phase.discipline.observe v o r⟩⟩ :
      World).programs = w.programs.set i (next r) := List.map_set
  rcases Nat.lt_or_ge i old with hi | hi
  · -- the processes that were there before owe nothing
    refine ⟨errands, ⟨?_, fun k v hk ↦ ?_⟩, .old hi hmoves⟩
    · rw [hprograms, List.length_set, h.length]
    · obtain ⟨p, hp, hfollows⟩ := h.follows k v hk
      refine ⟨p, ?_, hfollows⟩
      rw [hprograms, List.getElem?_set_ne (by omega), hp]
  · obtain ⟨k, rfl⟩ := Nat.exists_eq_add_of_le hi
    have hlt : k < errands.length := by
      have hlen := (List.getElem?_eq_some_iff.1 hprogram).1
      rw [h.length] at hlen
      omega
    have hk : errands[k]? = some errands[k] := List.getElem?_eq_getElem hlt
    generalize errands[k] = v' at hk
    obtain ⟨p, hp, hfollows⟩ := h.follows k v' hk
    obtain rfl := Option.some.inj (hp.symm.trans hprogram)
    obtain ⟨hallowed, hnext⟩ := hfollows
    have hspends := Errand.spends_of_allowed (n := n) hallowed hserve
    refine ⟨errands.set k (v'.observe o r), ⟨?_, fun j v hj ↦ ?_⟩, .other hi hmoves ?_⟩
    · rw [hprograms, List.length_set, List.length_set, h.length]
    · rw [hprograms]
      rcases getElem?_set_view hj with ⟨rfl, rfl⟩ | ⟨hjk, hj⟩
      · refine ⟨next r, ?_, hnext r (possible_of_serve hserve)⟩
        rw [List.getElem?_set_self (List.getElem?_eq_some_iff.1 hprogram).1]
      · obtain ⟨p, hp, hfollows⟩ := h.follows j v hj
        refine ⟨p, ?_, hfollows⟩
        rw [List.getElem?_set_ne (by omega), hp]
    · obtain ⟨hpending, ms, hqueue, hle⟩ := hspends
      -- no scan becomes PENDING by a worker's operation, so what is left untouched grows no heavier
      have hqueued : (w.shared.queue.map (Message.weight n s.db.pendingIds)).sum ≤
          (w.shared.queue.map (Message.weight n w.shared.db.pendingIds)).sum :=
        List.sum_le_sum fun m _ ↦ m.weight_mono hpending
      have hothers : ((errands.eraseIdx k).map (Errand.weight n s.db.pendingIds)).sum ≤
          ((errands.eraseIdx k).map (Errand.weight n w.shared.db.pendingIds)).sum :=
        List.sum_le_sum fun v _ ↦ v.weight_mono hpending
      show (s.queue.map (Message.weight n s.db.pendingIds)).sum +
          ((errands.set k (v'.observe o r)).map (Errand.weight n s.db.pendingIds)).sum ≤
        (w.shared.queue.map (Message.weight n w.shared.db.pendingIds)).sum +
          (errands.map (Errand.weight n w.shared.db.pendingIds)).sum
      rw [hqueue, List.map_append, List.sum_append, sum_map_set _ hk,
        sum_map_eraseIdx (Errand.weight n w.shared.db.pendingIds) hk]
      omega

/-- From every state of the service, runs without new work end. -/
theorem acc_drains (cfg : Settings) (u : Unicode) (w : World) :
    Acc (fun w' w : World ↦ ∃ a : Action, a.Drains ∧ w.act cfg u a = some w') w := by
  have hpaid : ∀ (w₁ : World) (errands : List Errand) (w₂ : World),
      w₁.OnErrands cfg.scanMaxRetries w.programs.length errands →
      (∃ a : Action, a.Drains ∧ w₁.act cfg u a = some w₂) →
      ∃ errands', w₂.OnErrands cfg.scanMaxRetries w.programs.length errands' ∧
        Pool.Paid w.programs.length (budget cfg.scanMaxRetries) w₁ errands w₂ errands' := by
    rintro w₁ errands w₂ h ⟨a, hdrains, ha⟩
    cases a with
    | take k => exact h.take ha
    | perform i e => exact h.perform ha
    | start | duplicate => exact absurd hdrains id
  exact Pool.acc_of_budget hpaid (g := []) ⟨rfl, nofun⟩

/-- **The service comes to rest.** Without new requests, restarts and repeated deliveries, messages
are taken and operations carried out only finitely often: from every state, in every order, whatever
the operations are answered and whichever of them fail. -/
theorem no_endless_work (cfg : Settings) (u : Unicode) :
    ¬ ∃ run : ℕ → World,
      ∀ k, ∃ a : Action, a.Drains ∧ (run k).act cfg u a = some (run (k + 1)) := by
  rintro ⟨run, hrun⟩
  have hacc := acc_drains cfg u (run 0)
  exact not_acc_iff_exists_descending_chain.2 ⟨run, rfl, hrun⟩ hacc

end World

end AssetDiscovery
