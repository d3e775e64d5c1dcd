import AssetDiscovery.Phase

/-!
# Rules for following the discipline

Every process of the service asks, in every phase, only for the operations that the phase allows.
The proofs go through the code function by function, with one lemma for each. `Py.Follows P E` is
what they prove: `P` is what holds of the session and the phase when the code returns, `E` when it
raises. This module has its rules, one for each way of composing code and one for each statement.
-/

namespace AssetDiscovery

open Effect

namespace Py

variable {α β : Type}

/-- What holds after code that has returned, or has raised. -/
def outcome (P : α → Session → Phase → Prop) (E : Exn → Session → Phase → Prop) :
    Except Exn α × Session → Phase → Prop
  | (.ok a, σ), v => P a σ v
  | (.error e, σ), v => E e σ v

/-- From a session and a phase on, the code keeps to the discipline, whatever it is answered; it
returns in `P` or raises in `E`. -/
def Follows (P : α → Session → Phase → Prop) (E : Exn → Session → Phase → Prop) (m : Py α)
    (σ : Session) (v : Phase) : Prop :=
  (m σ).Follows Phase.discipline (outcome P E) v

variable {P : α → Session → Phase → Prop} {E : Exn → Session → Phase → Prop} {σ : Session}
  {v : Phase}

/-- Weaker ends are reached as well. -/
theorem Follows.mono {P' : α → Session → Phase → Prop} {E' : Exn → Session → Phase → Prop}
    {m : Py α} (h : Follows P E m σ v) (hP : ∀ a σ v, P a σ v → P' a σ v)
    (hE : ∀ e σ v, E e σ v → E' e σ v) : Follows P' E' m σ v := by
  refine Program.Follows.mono h ?_
  rintro ⟨e | a, σ'⟩ v' h'
  · exact hE e σ' v' h'
  · exact hP a σ' v' h'

@[simp]
theorem follows_pure {a : α} : Follows P E (pure a) σ v ↔ P a σ v :=
  Iff.rfl

@[simp]
theorem follows_raise {e : Exn} : Follows P E (raise e) σ v ↔ E e σ v :=
  Iff.rfl

@[simp]
theorem follows_session {P : Session → Session → Phase → Prop} :
    Follows P E session σ v ↔ P σ σ v :=
  Iff.rfl

@[simp]
theorem follows_modify {P : Unit → Session → Phase → Prop} {f : Session → Session} :
    Follows P E (modify f) σ v ↔ P () (f σ) v :=
  Iff.rfl

/-- The rule of sequential composition; an exception skips the second part. -/
@[simp]
theorem follows_bind {P : β → Session → Phase → Prop} {m : Py α} {f : α → Py β} :
    Follows P E (m >>= f) σ v ↔ Follows (fun a σ v ↦ Follows P E (f a) σ v) E m σ v := by
  refine Program.follows_bind.trans (Program.follows_congr ?_)
  rintro ⟨e | a, σ'⟩ v' <;> rfl

/-- The handler begins in the session and in the phase that the exception has left. -/
@[simp]
theorem follows_tryExcept {m : Py α} {handler : Exn → Py α} :
    Follows P E (tryExcept m handler) σ v ↔
      Follows P (fun e σ v ↦ Follows P E (handler e) σ v) m σ v := by
  refine Program.follows_bind.trans (Program.follows_congr ?_)
  rintro ⟨e | a, σ'⟩ v' <;> rfl

/-- An operation is allowed, and whatever it answers the observer sees. -/
@[simp]
theorem follows_call {o : Op} {P : o.Res → Session → Phase → Prop} :
    Follows P E (call o) σ v ↔
      v.Allowed o ∧ ∀ r, Phase.Possible o r → P r σ (v.observe o r) :=
  Iff.rfl

/-- A loop: `I` relates the session and the phase to the elements that are left. -/
theorem follows_forM {f : α → Py Unit} (I : List α → Session → Phase → Prop)
    (hstep : ∀ a as σ v, I (a :: as) σ v → Follows (fun _ ↦ I as) E (f a) σ v) (as : List α)
    (h : I as σ v) : Follows (fun _ ↦ I []) E (as.forM f) σ v := by
  induction as generalizing σ v with
  | nil => exact h
  | cons a as ih =>
    show Follows _ _ (f a >>= fun _ ↦ as.forM f) σ v
    rw [follows_bind]
    exact (hstep a as σ v h).mono (fun _ _ _ h' ↦ ih h') fun _ _ _ h' ↦ h'

/-- `finally: db.close()`. -/
theorem follows_tryFinally_close {P : α → Session → Phase → Prop} {m : Py α} :
    Follows P E (tryFinally m close) σ v ↔
      Follows (fun a σ v ↦ v.Allowed .close ∧ P a σ v.closed)
        (fun e σ v ↦ v.Allowed .close ∧ E e σ v.closed) m σ v := by
  refine Program.follows_bind.trans (Program.follows_congr ?_)
  rintro ⟨e | a, σ'⟩ v'
  · exact and_congr_right fun _ ↦ ⟨fun h ↦ h () trivial, fun h _ _ ↦ h⟩
  · exact and_congr_right fun _ ↦ ⟨fun h ↦ h () trivial, fun h _ _ ↦ h⟩

/-! ### Statements -/

/-- A session that has failed refuses the query; otherwise it is answered, or the session fails. -/
theorem follows_select {q : Query} {P : q.Row → Session → Phase → Prop} :
    Follows P E (select q) σ v ↔
      if σ.failed then E .pendingRollback σ v
      else v.Allowed (.query q) ∧
        (∀ row, Phase.Possible (.query q) (.ok row) → P row σ (v.read q row)) ∧
        ∀ err, E (.database err) { σ with failed := true } v.fault := by
  unfold Follows select
  split
  · rfl
  · refine and_congr_right fun _ ↦ ⟨fun h ↦ ⟨fun row hrow ↦ h (.ok row) hrow, fun err ↦
      h (.error err) ?_⟩, fun h r hr ↦ ?_⟩
    · cases q <;> trivial
    · cases r with
      | ok row => exact h.1 row hr
      | error err => exact h.2 err

/-- A session that has failed refuses the commit; otherwise it carries out what has been flushed and
what is to be, and forgets all loaded values. -/
theorem follows_commit {site : Site} {P : Unit → Session → Phase → Prop} :
    Follows P E (commit site) σ v ↔
      if σ.failed then E .pendingRollback σ v
      else v.Allowed (.commit site (σ.flushed ++ σ.work)) ∧
        P () σ.expire (v.committed site) ∧
        ∀ err, E (.database err) { σ.expire with failed := true } v.fault := by
  unfold Follows commit
  split
  · rfl
  · refine and_congr_right fun _ ↦ ⟨fun h ↦ ⟨h (.ok ()) trivial, fun err ↦
      h (.error err) trivial⟩, fun h r _ ↦ ?_⟩
    cases r with
    | ok _ => exact h.1
    | error err => exact h.2 err

/-- As for a commit, but the transaction stays open. -/
theorem follows_flush {P : Unit → Session → Phase → Prop} :
    Follows P E flush σ v ↔
      if σ.failed then E .pendingRollback σ v
      else v.Allowed (.flush (σ.flushed ++ σ.work)) ∧
        P () { σ with flushed := σ.flushed ++ σ.work, work := [] } v ∧
        ∀ err, E (.database err) { σ.expire with failed := true } v.fault := by
  unfold Follows flush
  split
  · rfl
  · refine and_congr_right fun _ ↦ ⟨fun h ↦ ⟨h (.ok ()) trivial, fun err ↦
      h (.error err) trivial⟩, fun h r _ ↦ ?_⟩
    cases r with
    | ok _ => exact h.1
    | error err => exact h.2 err

@[simp]
theorem follows_rollback {P : Unit → Session → Phase → Prop} :
    Follows P E rollback σ v ↔
      v.Allowed .rollback ∧ P () { σ.expire with failed := false } (v.observe .rollback ()) :=
  and_congr_right fun _ ↦ ⟨fun h ↦ h () trivial, fun h _ _ ↦ h⟩

/-! ### Instances -/

/-- Reading the row of a scan loads it. -/
theorem follows_fetchScan {x : Id} {P : Option Scan → Session → Phase → Prop}
    (hσ : σ.failed = false) :
    Follows P E (fetchScan x) σ v ↔
      v.Allowed (.query (.scan x)) ∧ P none σ (v.readScan none) ∧
        (∀ row, row.id = x → P (some row) (σ.loadScan row) (v.readScan (some row))) ∧
        ∀ err, E (.database err) { σ with failed := true } v.fault := by
  rw [fetchScan, follows_bind, follows_select, hσ, if_neg (by decide)]
  refine and_congr_right fun _ ↦ ⟨fun h ↦ ⟨h.1 none trivial, fun row hrow ↦ h.1 (some row) hrow,
    h.2⟩, fun h ↦ ⟨fun row hrow ↦ ?_, h.2.2⟩⟩
  cases row with
  | none => exact h.1
  | some row => exact h.2.1 row hrow

/-- A loaded scan needs no statement. -/
theorem follows_getScan_loaded {x : Id} {P : Option Scan → Session → Phase → Prop} {row : Scan}
    (h : σ.scans x = some row) : Follows P E (getScan x) σ v ↔ P (some row) σ v := by
  simp [getScan, h]

/-- An expired scan is read from its row. -/
theorem follows_getScan_expired {x : Id} {P : Option Scan → Session → Phase → Prop}
    (h : σ.scans x = none) : Follows P E (getScan x) σ v ↔ Follows P E (fetchScan x) σ v := by
  simp [getScan, h]

theorem follows_readScan_loaded {x : Id} {P : Scan → Session → Phase → Prop} {row : Scan}
    (h : σ.scans x = some row) : Follows P E (readScan x) σ v ↔ P row σ v := by
  rw [readScan, follows_bind, follows_getScan_loaded h, follows_pure]

/-- Reading an expired scan raises if its row is gone. -/
theorem follows_readScan_expired {x : Id} {P : Scan → Session → Phase → Prop}
    (hσ : σ.failed = false) (h : σ.scans x = none) :
    Follows P E (readScan x) σ v ↔
      v.Allowed (.query (.scan x)) ∧ E .objectDeleted σ (v.readScan none) ∧
        (∀ row, row.id = x → P row (σ.loadScan row) (v.readScan (some row))) ∧
        ∀ err, E (.database err) { σ with failed := true } v.fault := by
  rw [readScan, follows_bind, follows_getScan_expired h, follows_fetchScan hσ]
  rfl

/-- A refresh reads the row in any case. -/
theorem follows_refreshScan {x : Id} {P : Scan → Session → Phase → Prop}
    (hσ : σ.failed = false) :
    Follows P E (refreshScan x) σ v ↔
      v.Allowed (.query (.scan x)) ∧ E .invalidRequest σ (v.readScan none) ∧
        (∀ row, row.id = x → P row (σ.loadScan row) (v.readScan (some row))) ∧
        ∀ err, E (.database err) { σ with failed := true } v.fault := by
  rw [refreshScan, follows_bind, follows_fetchScan hσ]
  rfl

/-- Reading the row of a domain loads it. -/
theorem follows_fetchDomain {d : Id} {P : Option Domain → Session → Phase → Prop}
    (hσ : σ.failed = false) :
    Follows P E (fetchDomain d) σ v ↔
      v.Allowed (.query (.domain d)) ∧ P none σ (v.readDomain none) ∧
        (∀ row, row.id = d → P (some row) (σ.loadDomain row) (v.readDomain (some row))) ∧
        ∀ err, E (.database err) { σ with failed := true } v.fault := by
  rw [fetchDomain, follows_bind, follows_select, hσ, if_neg (by decide)]
  refine and_congr_right fun _ ↦ ⟨fun h ↦ ⟨h.1 none trivial, fun row hrow ↦ h.1 (some row) hrow,
    h.2⟩, fun h ↦ ⟨fun row hrow ↦ ?_, h.2.2⟩⟩
  cases row with
  | none => exact h.1
  | some row => exact h.2.1 row hrow

theorem follows_getDomain_loaded {d : Id} {P : Option Domain → Session → Phase → Prop}
    {row : Domain} (h : σ.domains d = some row) :
    Follows P E (getDomain d) σ v ↔ P (some row) σ v := by
  simp [getDomain, h]

theorem follows_getDomain_expired {d : Id} {P : Option Domain → Session → Phase → Prop}
    (h : σ.domains d = none) :
    Follows P E (getDomain d) σ v ↔ Follows P E (fetchDomain d) σ v := by
  simp [getDomain, h]

theorem follows_readDomain_loaded {d : Id} {P : Domain → Session → Phase → Prop} {row : Domain}
    (h : σ.domains d = some row) : Follows P E (readDomain d) σ v ↔ P row σ v := by
  rw [readDomain, follows_bind, follows_getDomain_loaded h, follows_pure]

/-- A refresh reads the row in any case. -/
theorem follows_refreshDomain {d : Id} {P : Domain → Session → Phase → Prop}
    (hσ : σ.failed = false) :
    Follows P E (refreshDomain d) σ v ↔
      v.Allowed (.query (.domain d)) ∧ E .invalidRequest σ (v.readDomain none) ∧
        (∀ row, row.id = d → P row (σ.loadDomain row) (v.readDomain (some row))) ∧
        ∀ err, E (.database err) { σ with failed := true } v.fault := by
  rw [refreshDomain, follows_bind, follows_fetchDomain hσ]
  rfl

end Py

end AssetDiscovery
