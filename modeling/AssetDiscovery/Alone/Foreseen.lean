import AssetDiscovery.Alone.Runs
import AssetDiscovery.DomainEffect

/-!
# Runs whose outlook is fixed

`Py.Alone` leaves open with what text a publish fails and which of several equally old rows an
ordered query returns. `Py.Foreseen w` fixes both by an `Outlook`: then a delivery, a trigger and a
deletion end exactly as their `DomainEffect` says.

What holds whatever the environment decides holds in every outlook (`Alone.foreseen`), so only the
statements whose answer an outlook fixes need rules of their own.
-/

set_option autoImplicit false

namespace AssetDiscovery

open Effect

/-- The conditions of a process that runs alone in this outlook. -/
def Outlook.conditions (w : Outlook) : Conditions where
  up := w.up
  lookups := some w.lookups

/-- Carry out an operation of a process that runs alone in this outlook. -/
def serveForeseen (w : Outlook) : Handler Op Op.Res Env Store :=
  fun o e ↦ serveUnharmed 0 w.up (some w.lookups) o { e with text := w.text, pick := w.pick }

namespace Py

variable {α β : Type}

/-- In this outlook the code ends in `Q`, from this session, this database and this trail on. -/
def Foreseen (w : Outlook) (Q : Except Exn α → Session → Database → Trail → Prop)
    (m : Py α) (σ : Session) (db : Database) (q : Trail) : Prop :=
  (m σ).Secures (serveForeseen w) w.conditions.Known
    (fun k o k' ↦ k'.2.resolutions = k.2.resolutions + o.resolutions)
    (fun p k ↦ Q p.1 p.2 k.1 k.2) (db, q)

variable {w : Outlook} {Q : Except Exn α → Session → Database → Trail → Prop}
  {σ : Session} {db : Database} {q : Trail}

/-- What holds whatever the environment decides holds in every outlook. -/
theorem Alone.foreseen {m : Py α} (h : Alone w.conditions Q m σ db q) : Foreseen w Q m σ db q :=
  Program.Secures.restrict h fun e ↦ { e with text := w.text, pick := w.pick }

/-- A weaker end is reached as well. -/
theorem Foreseen.mono {Q' : Except Exn α → Session → Database → Trail → Prop} {m : Py α}
    (h : Foreseen w Q m σ db q) (hQ : ∀ a σ db q, Q a σ db q → Q' a σ db q) :
    Foreseen w Q' m σ db q :=
  Program.Secures.mono h fun p k _ _ ↦ hQ p.1 p.2 k.1 k.2

theorem foreseen_pure {a : α} (h : Q (.ok a) σ db q) : Foreseen w Q (pure a) σ db q :=
  fun _ _ ↦ h

theorem foreseen_raise {e : Exn} (h : Q (.error e) σ db q) : Foreseen w Q (raise e) σ db q :=
  fun _ _ ↦ h

/-- How code goes on after `m`: an exception skips the rest. -/
abbrev goesOnForeseen (w : Outlook) (Q : Except Exn β → Session → Database → Trail → Prop)
    (f : α → Py β) : Except Exn α → Session → Database → Trail → Prop
  | .ok a, σ, db, q => Foreseen w Q (f a) σ db q
  | .error e, σ, db, q => Q (.error e) σ db q

/-- The rule of sequential composition. -/
theorem foreseen_bind {Q : Except Exn β → Session → Database → Trail → Prop} {m : Py α}
    {f : α → Py β} (h : Foreseen w (goesOnForeseen w Q f) m σ db q) :
    Foreseen w Q (m >>= f) σ db q := by
  refine Program.secures_bind.2 (Program.Secures.mono h ?_)
  rintro ⟨e | a, σ'⟩ k s - h'
  · exact fun _ _ ↦ h'
  · exact h'

/-- Code that starts with something whose end does not depend on the outlook. -/
theorem foreseen_bind_alone {Q : Except Exn β → Session → Database → Trail → Prop} {m : Py α}
    {f : α → Py β} (h : Alone w.conditions (goesOnForeseen w Q f) m σ db q) :
    Foreseen w Q (m >>= f) σ db q :=
  foreseen_bind h.foreseen

/-- The handler begins where the exception has left off. -/
theorem foreseen_tryExcept {m : Py α} {handler : Exn → Py α}
    (h : Foreseen w (fun a σ db q ↦ match a with
      | .ok a => Q (.ok a) σ db q
      | .error e => Foreseen w Q (handler e) σ db q) m σ db q) :
    Foreseen w Q (tryExcept m handler) σ db q := by
  refine Program.secures_bind.2 (Program.Secures.mono h ?_)
  rintro ⟨e | a, σ'⟩ k s - h'
  · exact h'
  · exact fun _ _ ↦ h'

/-- Closing the session changes nothing that is foreseen. -/
theorem foreseen_tryFinally_close {m : Py α} (h : Foreseen w Q m σ db q) :
    Foreseen w Q (tryFinally m close) σ db q := by
  refine Program.secures_bind.2 (Program.Secures.mono h ?_)
  rintro ⟨a, σ'⟩ k s - h' s' e hs
  refine ⟨(), _, k, rfl, { hs with
    free := hs.free.release.of_locks rfl
    since := hs.since.trans (Nat.le_add_right _ _) }, rfl, fun _ _ ↦ h'⟩

/-! ### What an outlook fixes -/

/-- A query, with the choice that the outlook makes among equally old rows. -/
theorem foreseen_select {k : Query} {Q : Except Exn k.Row → Session → Database → Trail → Prop}
    (hσ : σ.failed = false) (h : Q (.ok (db.answer w.pick k)) σ db q) :
    Foreseen w Q (select k) σ db q := by
  unfold Foreseen
  rw [select, hσ, if_neg (by decide)]
  rintro s e hs
  obtain ⟨locks, hfree, hserve⟩ := hs.free.answer k
    { e with fails := false, text := w.text, pick := w.pick, lookups := w.lookups } rfl
  refine ⟨_, _, (db, q), hserve, { hs with
    free := hfree
    since := hs.since.trans (Nat.le_add_right _ _) }, rfl, fun _ _ ↦ ?_⟩
  show Q (.ok (s.db.answer w.pick k)) σ db q
  rw [hs.db]
  exact h

/-- Hand a message to the broker. -/
theorem foreseen_call_publish {m : Message}
    {Q : Except Exn (Except String Unit) → Session → Database → Trail → Prop}
    (hup : w.up = true → Q (.ok (.ok ())) σ db (q.push m))
    (hdown : w.up = false → Q (.ok (.error w.text)) σ db q) :
    Foreseen w Q (call (.publish m)) σ db q := by
  intro s e hs
  have hq := hs.queue
  simp only at hq
  cases hw : w.up with
  | true =>
    refine ⟨.ok (), { s with clock := s.clock + e.tick, queue := s.queue ++ [m] },
      (db, q.push m), ?_, { hs with
        free := hs.free.of_locks rfl
        queue := by simp [Trail.push, hq]
        since := hs.since.trans (Nat.le_add_right _ _) }, rfl, fun _ _ ↦ hup hw⟩
    simp [serveForeseen, serveUnharmed, serve, Op.isPublish, hw]
  | false =>
    refine ⟨.error w.text, { s with clock := s.clock + e.tick }, (db, q), ?_, { hs with
      free := hs.free.of_locks rfl
      since := hs.since.trans (Nat.le_add_right _ _) }, rfl, fun _ _ ↦ hdown hw⟩
    simp [serveForeseen, serveUnharmed, serve, Op.isPublish, hw]

/-- `enqueue_scan`. -/
theorem foreseen_enqueueScan {x : Id} {Q : Except Exn Unit → Session → Database → Trail → Prop}
    (h : ∀ q' : Trail, q'.queue = q.queue ++ (w.announce (some x)).2 →
      Q (w.announce (some x)).1 σ db q') : Foreseen w Q (enqueueScan x) σ db q := by
  unfold Outlook.announce at h
  refine foreseen_bind (foreseen_call_publish (fun hup ↦ ?_) fun hdown ↦ ?_)
  · simp only [hup, if_true] at h
    exact foreseen_pure (h (q.push ⟨x, 0⟩) rfl)
  · simp only [hdown, Bool.false_eq_true, if_false] at h
    exact foreseen_raise (h q (List.append_nil _).symm)

/-- `_enqueue_next_pending_for_domain`. -/
theorem foreseen_enqueueNext {d : Id} {Q : Except Exn Unit → Session → Database → Trail → Prop}
    (hσ : σ.failed = false)
    (h : ∀ q' : Trail, q'.queue = q.queue ++ (w.announce (db.nextPending d w.pick)).2 →
      Q (w.announce (db.nextPending d w.pick)).1 σ db q') :
    Foreseen w Q (enqueueNextPendingForDomain d) σ db q := by
  refine foreseen_bind (foreseen_select (k := .nextPending d) hσ ?_)
  simp only [goesOnForeseen, Database.answer]
  cases hnext : db.nextPending d w.pick with
  | none =>
    rw [hnext] at h
    exact foreseen_pure (h q (List.append_nil _).symm)
  | some y =>
    rw [hnext] at h
    exact foreseen_enqueueScan h

/-! ### A delivery -/

section Delivery

variable {db₀ : Database} {x d : Id} {row : Scan} {ps : List ScanPatch}
  {st : Option DomainStatus} {as : List Asset} {cfg : Settings} {task : Option ℕ}

/-- The end of a job: a `mark_scan_*` that gives the scan its final status, and the tail after
it. -/
theorem foreseen_finish {Q : Except Exn Unit → Session → Database → Trail → Prop} {site : Site}
    {patch : Time → ScanPatch} {xst : ScanStatus} {dst : DomainStatus} (hσ : σ.InStep db)
    (hworked : Worked db₀ x d ps st as db) (hx : db.scans.get x = some row)
    (hd : row.domainId = d) (hpatch : ∀ t, (patch t).status = some xst) (hxst : xst ≠ .pending)
    (h : ∀ t σ' q', σ'.InStep (db.settle x d (patch t) dst) →
      Worked db₀ x d (ps ++ [patch t]) (some dst) as (db.settle x d (patch t) dst) →
      (db.settle x d (patch t) dst).scans.get x = some ((patch t).apply row) →
      q'.queue = q.queue ++ (w.announce ((db₀.view d).next x w.pick)).2 →
      Q (w.announce ((db₀.view d).next x w.pick)).1 σ' (db.settle x d (patch t) dst) q') :
    Foreseen w Q (do let _ ← ScanRepo.markScan site x patch; settleDomain x dst) σ db q := by
  subst hd
  refine foreseen_bind_alone (alone_markScan hσ hx (fun _ ↦ trivial) fun t σ₁ _ hσ₁ ↦ ?_)
  have hx₁ : (db.updateScan x (patch t)).scans.get x = some ((patch t).apply row) := by
    rw [Database.scans_get_updateScan, if_pos rfl, hx]
    rfl
  -- the tail: the domain's status, and the publish of the next pending scan
  obtain ⟨domain, hdom⟩ := Database.exists_domain hx₁
  have hid : domain.id = row.domainId := Table.key_of_get hdom
  have hsettled := hworked.settle (patch t) dst
  refine foreseen_bind_alone (alone_readScan hσ₁ hx₁ fun σ₂ hσ₂ ↦ ?_)
  refine foreseen_bind_alone (alone_getDomain hσ₂ fun σ₃ hσ₃ ↦ ?_)
  simp only [goesOnForeseen, hdom, hid]
  refine foreseen_bind_alone (alone_setDomainStatus hσ₃ hdom trivial fun σ₄ hσ₄ ↦ ?_)
  refine foreseen_bind_alone (alone_readScan hσ₄ hx₁ fun σ₅ hσ₅ ↦ ?_)
  refine foreseen_enqueueNext hσ₅.failed fun q' hq' ↦ ?_
  rw [ScanPatch.apply_domainId] at hq' ⊢
  -- the choice of the next scan does not see what this job has written
  have hnext : ((db.updateScan x (patch t)).updateDomain row.domainId dst).nextPending row.domainId
      w.pick = (db₀.view row.domainId).next x w.pick := hsettled.nextPending (hpatch t) hxst w.pick
  rw [hnext] at hq' ⊢
  exact h t σ₅ q' hσ₅ hsettled hx₁ hq'

/-- The two handlers: another attempt is published, or the scan fails. -/
theorem foreseen_handleDiscoveryError {Q : Except Exn Unit → Session → Database → Trail → Prop}
    {e : Exn} (hσ : σ.InStep db) (hworked : Worked db₀ x d ps st as db)
    (hx : db.scans.get x = some row) (hd : row.domainId = d)
    (hretry : ∀ r σ' q', (if e.IsRetryable then nextAttempt cfg task else none) = some r →
      q'.queue = q.queue ++ (if w.up then [⟨x, r⟩] else []) →
      Q (.error (if w.up then .retry else .reject w.text)) σ' db q')
    (hfail : (if e.IsRetryable then nextAttempt cfg task else none) = none → ∀ t σ' q',
      Worked db₀ x d (ps ++ [.failed t e.message]) (some .failed) as
        (db.settle x d (.failed t e.message) .failed) →
      q'.queue = q.queue ++ (w.announce ((db₀.view d).next x w.pick)).2 →
      Q (w.announce ((db₀.view d).next x w.pick)).1 σ'
        (db.settle x d (.failed t e.message) .failed) q') :
    Foreseen w Q (handleDiscoveryError cfg x task e) σ db q := by
  -- `_fail_scan`, where both handlers end when there is no other attempt
  have hfinal : (if e.IsRetryable then nextAttempt cfg task else none) = none → ∀ σ',
      σ'.InStep db → Foreseen w Q (failScan x e.message) σ' db q := by
    intro hnone σ' hσ'
    exact foreseen_finish hσ' hworked hx hd (fun _ ↦ rfl) (by simp)
      fun t σ'' q' _ hworked' _ hq' ↦ hfail hnone t σ'' q' hworked' hq'
  unfold handleDiscoveryError
  -- the errors of `_RETRYABLE` are retried, everything else is `except Exception`
  by_cases hretryable : e.IsRetryable
  swap
  · rw [if_neg hretryable] at hfinal ⊢
    exact foreseen_bind_alone (alone_readScan hσ hx fun σ₁ hσ₁ ↦ hfinal rfl σ₁ hσ₁)
  rw [if_pos hretryable] at hretry hfinal ⊢
  refine foreseen_bind_alone (alone_readScan hσ hx fun σ₁ hσ₁ ↦ ?_)
  cases task with
  | none => exact foreseen_bind_alone (alone_readScan hσ₁ hx fun σ₂ hσ₂ ↦ hfinal rfl σ₂ hσ₂)
  | some r =>
    simp only [goesOnForeseen]
    by_cases hr : r < cfg.scanMaxRetries
    · have hnext : nextAttempt cfg (some r) = some (r + 1) := by simp [nextAttempt, hr]
      rw [if_pos hr]
      refine foreseen_bind (foreseen_call_publish (fun hup ↦ ?_) fun hdown ↦ ?_)
      · simp only [hup, if_true] at hretry
        exact foreseen_raise (hretry (r + 1) σ₁ (q.push ⟨x, r + 1⟩) hnext rfl)
      · simp only [hdown, Bool.false_eq_true, if_false] at hretry
        exact foreseen_raise (hretry (r + 1) σ₁ q hnext (List.append_nil _).symm)
    -- the attempts are used up
    · have hnext : nextAttempt cfg (some r) = none := by
        simp [nextAttempt, Nat.le_of_not_lt hr]
      rw [if_neg hr]
      exact foreseen_bind_alone (alone_readScan hσ₁ hx fun σ₂ hσ₂ ↦ hfinal hnext σ₂ hσ₂)

/-- `_process_scan` from the `mark_scan_running` call on. -/
theorem foreseen_runDiscovery (hσ : σ.InStep db) (hx : db.scans.get x = some row)
    (hd : row.domainId = d) :
    Foreseen w
      (fun a _ db' q' ↦ (discoveryEffect cfg w x task ((db.view d).next x w.pick)).Describes d db q
        (jobAnswer a) db' q')
      (runDiscovery cfg x d task) σ db q := by
  obtain ⟨domain, hdom⟩ := Database.exists_domain hx
  rw [hd] at hdom
  have hid : domain.id = d := Table.key_of_get hdom
  refine foreseen_bind_alone (alone_markScan hσ hx (fun _ ↦ trivial) fun t σ₁ _ hσ₁ ↦ ?_)
  refine foreseen_bind_alone (alone_setDomainStatus hσ₁ hdom trivial fun σ₂ hσ₂ ↦ ?_)
  change σ₂.InStep (db.settle x d (.running t) .running) at hσ₂
  show Foreseen w _ _ σ₂ (db.settle x d (.running t) .running) (q.seen t)
  -- `mark_scan_running` and the domain's status are committed; the rest may raise
  have hworked : Worked db x d [.running t] (some .running) [] _ :=
    (Worked.refl db x d).settle (.running t) .running
  have hx₂ : (db.settle x d (.running t) .running).scans.get x =
      some ((ScanPatch.running t).apply row) := Database.scans_get_settle_self hx
  have hd₂ : (db.settle x d (.running t) .running).domains.get d =
      some { domain with status := .running } := Database.domains_get_settle_self hdom
  generalize db.settle x d (.running t) .running = db₂ at *
  refine foreseen_bind_alone (alone_readScan hσ₂ hx₂ fun σ₃ hσ₃ ↦ ?_)
  refine foreseen_tryExcept (foreseen_bind_alone (alone_readDomain hσ₃ hd₂ fun σ₄ hσ₄ ↦ ?_))
  simp only [goesOnForeseen]
  refine foreseen_bind_alone (alone_resolveTypes rfl recordTypes [] fun q₁ n hq₁ _ _ _ ↦ ?_)
  have hq₁' : q₁.queue = q.queue := hq₁.queue.trans (List.append_nil _)
  have hanswers : answers w.lookups = answersFrom w.lookups recordTypes [] := rfl
  cases hrs : answersFrom w.lookups recordTypes [] with
  -- a lookup has raised: a retry, or the scan fails
  | error e =>
    rw [hrs] at hanswers
    refine foreseen_handleDiscoveryError hσ₄ hworked hx₂ hd (fun r σ' q' hr hq' ↦ ?_)
      fun hnone t' σ' q' hworked' hq' ↦ ?_
    · simp only [discoveryEffect, hanswers, hr]
      exact hworked.describes hx hd rfl rfl (hq'.trans (by rw [hq₁']))
    · simp only [discoveryEffect, hanswers, hnone]
      exact hworked'.describes hx hd rfl rfl (hq'.trans (by rw [hq₁']))
  -- the records are stored in one commit, or one of them is too wide for its column
  | ok rs =>
    rw [hrs] at hanswers
    have hxid : ((ScanPatch.running t).apply row).id = x := Table.key_of_get hx₂
    refine foreseen_bind_alone (alone_readScan hσ₄ hx₂ fun σ₅ hσ₅ ↦ ?_)
    simp only [goesOnForeseen, hid, hxid]
    refine foreseen_bind_alone (alone_createAssets hσ₅ (by simp [hx₂]) (by simp [hd₂])
      (fun _ _ _ ↦ trivial) (fun hfits db₃ drawn hstored ↦ ?_) fun hfits drawn ↦ ?_)
    · obtain ⟨as, hrecords, hworked₃⟩ := hworked.store hstored
      have hx₃ : db₃.scans.get x = some ((ScanPatch.running t).apply row) := by
        rw [hstored.scans, hx₂]
      -- stored: COMPLETED, and the publish of the next scan may still raise
      refine foreseen_finish (Session.inStep_new db₃) hworked₃ hx₃ hd (fun _ ↦ rfl) (by simp)
        fun t' σ₆ q₂ hσ₆ hworked₄ hx₄ hq₂ ↦ ?_
      have hq₂' : q₂.queue = q.queue ++ (w.announce ((db.view d).next x w.pick)).2 := by
        rw [← hq₁']
        exact hq₂
      cases hend : (w.announce ((db.view d).next x w.pick)).1 with
      | ok =>
        simp only [discoveryEffect, hanswers, hfits, hend, not_true, if_false]
        exact hworked₄.describes hx hd rfl hrecords hq₂'
      | error e =>
        -- the publish failed after COMPLETED, and the handler writes FAILED
        obtain ⟨hnone, hfinal⟩ := Outlook.announce_error hend
        rw [hnone, List.append_nil] at hq₂'
        refine foreseen_handleDiscoveryError hσ₆ hworked₄ hx₄ hd (fun r σ' q' hr hq' ↦ ?_)
          fun _ t'' σ' q' hworked' hq' ↦ ?_
        · rw [if_neg hfinal] at hr
          exact absurd hr (by simp)
        · simp only [discoveryEffect, hanswers, hfits, hend, not_true, if_false]
          exact hworked'.describes hx hd rfl hrecords (hq'.trans (by rw [hq₂']))
    -- too wide: the session has failed, and the handler cannot write either
    · simp only [goesOnForeseen]
      refine (alone_handleDiscoveryError_refused rfl rfl ?_).foreseen
      simp only [discoveryEffect, hanswers, hfits, not_false_eq_true, if_true]
      exact hworked.describes hx hd rfl rfl (hq₁'.trans (List.append_nil _).symm)

/-- **A delivery** of a stored scan does what its effect says. -/
theorem foreseen_processScan (hx : db.scans.get x = some row) (hd : row.domainId = d) :
    Foreseen w (fun a _ db' q' ↦ (deliveryEffect cfg w x task (db.view d)).Describes d db q
      (jobAnswer a) db' q') (processScan cfg x task) .new db q := by
  subst hd
  have hscan := DomainView.scan_view hx rfl
  refine foreseen_tryFinally_close (foreseen_bind_alone
    (alone_getScan (Session.inStep_new db) fun σ₁ hσ₁ ↦ ?_))
  simp only [goesOnForeseen, hx]
  split
  -- the scan is finished already: a duplicate delivery ends here
  · next hnot =>
    simp only [deliveryEffect, hscan, if_pos hnot]
    exact foreseen_pure (DomainEffect.describes_self _)
  next hactive =>
  refine foreseen_bind_alone (alone_getDomain hσ₁ fun σ₂ hσ₂ ↦ ?_)
  obtain ⟨domain, hdom⟩ := Database.exists_domain hx
  have hid : domain.id = row.domainId := Table.key_of_get hdom
  simp only [goesOnForeseen, hdom, hid]
  refine foreseen_bind_alone (alone_bind (alone_select hσ₂.failed fun pick ↦ ?_))
  simp only [goesOn, Database.answer]
  refine alone_pure ?_
  simp only [goesOnForeseen]
  split
  -- another scan of the domain is RUNNING, and the message is dropped
  · next hguard =>
    rw [← DomainView.running_view] at hguard
    simp only [deliveryEffect, hscan, if_neg hactive, if_pos hguard]
    exact foreseen_pure (DomainEffect.describes_self _)
  · next hguard =>
    rw [← DomainView.running_view] at hguard
    simp only [deliveryEffect, hscan, if_neg hactive, if_neg hguard]
    exact foreseen_runDiscovery hσ₂ hx rfl

end Delivery

/-! ### Requests -/

/-- **A trigger** does what its effect says, for the id that it draws if it draws one. -/
theorem foreseen_triggerManualScan {d user : Id} :
    Foreseen w (fun a _ db' q' ↦ ∃ x, (triggerEffect w d user x (db.view d)).Describes d db q a
      db' q') (ScanService.triggerManualScan d user) .new db q := by
  refine foreseen_bind_alone (alone_bind (alone_select rfl fun pick ↦ ?_))
  simp only [goesOn, Database.answer]
  cases hd : db.domains.get d with
  | none =>
    have heffect : triggerEffect w d user 0 (db.view d) =
        { answer := .error (.http 404 "Domain not found") } := by
      have hdomain : (db.view d).domain = none := hd
      simp only [triggerEffect, hdomain]
    -- no such domain: 404, and any id does for the scan that is not created
    refine alone_pure (foreseen_raise ⟨0, ?_⟩)
    rw [heffect]
    exact DomainEffect.describes_self _
  | some row =>
    have hid : row.id = d := Table.key_of_get hd
    have hsome : (db.domains.get d).isSome := by rw [hd]; rfl
    have hdomain : (db.view d).domain = some row := hd
    refine alone_bind (alone_modify (alone_pure ?_))
    simp only [goesOnForeseen]
    refine foreseen_bind_alone (alone_bind (alone_select rfl fun pick ↦ ?_))
    simp only [goesOn, Database.answer]
    refine alone_pure ?_
    simp only [goesOnForeseen]
    split
    -- an active scan: rolled back and answered 409
    · next hactive =>
      rw [← DomainView.active_view] at hactive
      refine foreseen_bind_alone (alone_rollback (foreseen_raise ⟨0, ?_⟩))
      simp only [triggerEffect, hdomain, if_pos hactive]
      exact DomainEffect.describes_self _
    · next hfree =>
      rw [← DomainView.active_view] at hfree
      have hload : (Session.new.loadDomain row).domains d = some row := by
        rw [← hid]
        exact Session.loadDomain_domains_self row
      refine foreseen_bind_alone (alone_bind (alone_uuid4 fun x hbound _ ↦ ?_))
      have hx := Database.scans_get_of_idBound_le hbound
      have hflush := fun now ↦ (Database.writeAll_singleton now).trans
        (Database.write_insertScan now (some user) hx hsome)
      refine alone_bind (alone_modify (alone_bind (alone_flush rfl (fun now ↦ ⟨_, hflush now⟩)
        (alone_pure ?_))))
      simp only [goesOnForeseen]
      refine foreseen_bind_alone (alone_readDomain_loaded hload ?_)
      simp only [goesOnForeseen]
      refine foreseen_bind_alone (alone_assignPending hload rfl
        fun σ hfailed hflushed hwork ↦ ?_)
      simp only [goesOnForeseen]
      refine foreseen_bind_alone (alone_commit_ok (R := fun db' ↦ ∃ now,
        db'.scans.get x = some ⟨x, d, .pending, some user, none, none, none, now⟩ ∧
        (triggerEffect w d user x (db.view d)).CarriedOut d db []
          [⟨x, d, .pending, some user, none, none, none, now⟩] [] db') hfailed (fun now ↦ ?_)
        (fun _ _ ↦ trivial) fun db' hdb' ↦ ?_)
      · have hws : σ.flushed ++ σ.work = .insertScan x d .pending (some user) :: σ.work := by
          rw [hflushed]
          rfl
        rw [hws]
        -- the new scan and the domain's status are written in one commit
        obtain ⟨db', hdb', hcarried⟩ :=
          DomainEffect.carriedOut_trigger (w := w) now hx hd hfree hwork
        exact ⟨db', hdb', now, hcarried⟩
      · obtain ⟨now, hx', hcarried⟩ := hdb'
        refine foreseen_bind_alone (alone_refreshScan (Session.inStep_new db') hx' fun σ' _ ↦ ?_)
        simp only [goesOnForeseen]
        refine foreseen_bind (foreseen_enqueueScan fun q' hq' ↦ ?_)
        rw [Outlook.announce_some] at hq' ⊢
        have hdone : ∀ a : Except Exn Response,
            a = (if w.up then .ok (.trigger x .pending) else .error (.broker w.text)) →
            ∃ x, (triggerEffect w d user x (db.view d)).Describes d db q a db' q' := by
          intro a ha
          refine ⟨x, ?_, ?_, [], _, [], hcarried⟩
          · rw [DomainEffect.triggerEffect_eq hdomain hfree]
            exact ha
          · rw [DomainEffect.triggerEffect_eq hdomain hfree]
            exact hq'
        -- the rows stay even if the broker is down
        by_cases hup : w.up = true
        · rw [if_pos hup]
          exact foreseen_pure (hdone _ (if_pos hup).symm)
        · rw [if_neg hup]
          exact hdone _ (if_neg hup).symm

/-- **A deletion** does what its effect says. -/
theorem foreseen_deleteDomain {d : Id} :
    Foreseen w (fun a _ db' q' ↦ (deleteEffect (db.view d)).Describes d db q a db' q')
      (DomainService.deleteDomain d) .new db q := by
  cases hd : db.domains.get d with
  | none =>
    have hdomain : (db.view d).domain = none := hd
    refine foreseen_bind_alone (alone_getDomain (Session.inStep_new db) fun σ₁ hσ₁ ↦ ?_)
    simp only [goesOnForeseen, hd, deleteEffect, hdomain]
    exact foreseen_raise (DomainEffect.describes_self _)
  | some row =>
    have hdomain : (db.view d).domain = some row := hd
    refine (alone_deleteDomain (c := w.conditions) trivial).foreseen.mono ?_
    rintro a σ db' q' ⟨hdeleted, rfl⟩
    simp only [deleteEffect, hdomain]
    cases hdeleted with
    | missing h => exact absurd (h.symm.trans hd) (by simp)
    | deleted =>
      exact ⟨rfl, (List.append_nil _).symm, [], [], [], DomainEffect.carriedOut_deleteDomain d db _⟩

/-! ### Whole runs -/

/-- A process that starts in this outlook runs to its end, and ends as the code does. -/
theorem Foreseen.run {Q : Except Exn Response → Session → Database → Trail → Prop}
    {m : Py Response} {s : Store} (h : Foreseen w Q m .new s.db s.trail) (hs : s.Free)
    (ω : ℕ → Env) :
    ∃ a ω' s' σ q, (Py.start m).run (serveForeseen w) ω s = some (a, ω', s') ∧ s'.Free ∧
      q.queue = s'.queue ∧ Q a σ s'.db q := by
  have hstart : (Py.start m).Secures (serveForeseen w) w.conditions.Known
      (fun k o k' ↦ k'.2.resolutions = k.2.resolutions + o.resolutions)
      (fun a k ↦ ∃ σ, Q a σ k.1 k.2) (s.db, s.trail) :=
    Program.secures_bind.2 (Program.Secures.mono h fun p _ _ _ hQ ↦ fun _ _ ↦ ⟨p.2, hQ⟩)
  obtain ⟨a, ω', s', ⟨db', q'⟩, hrun, hknown, ⟨σ, hQ⟩, -⟩ := hstart.run Op.resolutions
    (fun k ↦ k.2.resolutions) (fun hR ↦ hR) (Store.known_trail hs trivial) ω
  obtain rfl : s'.db = db' := hknown.db
  exact ⟨a, ω', s', σ, q', hrun, hknown.free, hknown.queue.symm, hQ⟩

end Py

end AssetDiscovery
