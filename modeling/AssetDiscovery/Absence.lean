import AssetDiscovery.Retries

/-!
# Failures and absence

A lookup that fails says nothing about the records of the domain. `resolve_domain_records` passes
over three exceptions: two of them say that there is no such record, and the third, `NoNameservers`,
that no nameserver gave an answer. `failuresKept_iff` says when a chain of attempts nevertheless
tells a failure from absence.
-/

set_option autoImplicit false

namespace AssetDiscovery

namespace Lookup

/-- The lookup returned an answer, or was told that there is no such record. -/
def IsTold : Lookup → Prop
  | .answer _ | .nxdomain | .noAnswer => True
  | .noNameservers | .timeout .. | .dnsError .. | .otherError .. => False

/-- `resolve_domain_records` lets the exception through. -/
def Raises : Lookup → Prop
  | .timeout .. | .dnsError .. | .otherError .. => True
  | .answer _ | .nxdomain | .noAnswer | .noNameservers => False

/-- A lookup tells that records are missing unless it raises or no nameserver answers. -/
theorem isTold_iff {l : Lookup} : l.IsTold ↔ ¬ l.Raises ∧ l ≠ .noNameservers := by
  cases l <;> simp [IsTold, Raises]

end Lookup

section Answers

variable {lookups : AssetType → Lookup} {types : List AssetType}
  {results rs : List (AssetType × String)}

/-- Records are returned only if no lookup raises. -/
theorem not_raises_of_answersFrom (h : answersFrom lookups types results = .ok rs) :
    ∀ type ∈ types, ¬ (lookups type).Raises := by
  induction types generalizing results with
  | nil => exact fun _ h ↦ absurd h List.not_mem_nil
  | cons type types ih =>
    unfold answersFrom at h
    cases hanswer : lookups type with
    | answer | nxdomain | noAnswer | noNameservers =>
      rw [hanswer] at h
      exact List.forall_mem_cons.2 ⟨by rw [hanswer]; exact id, ih h⟩
    | timeout | dnsError | otherError =>
      rw [hanswer] at h
      exact absurd h (by simp)

/-- If no lookup raises, the loop returns. -/
theorem exists_answersFrom (h : ∀ type ∈ types, ¬ (lookups type).Raises)
    (results : List (AssetType × String)) :
    ∃ rs, answersFrom lookups types results = .ok rs := by
  induction types generalizing results with
  | nil => exact ⟨results, rfl⟩
  | cons type types ih =>
    obtain ⟨hnot, h⟩ := List.forall_mem_cons.1 h
    unfold answersFrom
    cases hanswer : lookups type with
    | answer | nxdomain | noAnswer | noNameservers => exact ih h _
    | timeout | dnsError | otherError =>
      rw [hanswer] at hnot
      exact absurd trivial hnot

/-- Every type is looked up. -/
theorem mem_recordTypes (type : AssetType) : type ∈ recordTypes := by
  cases type <;> simp [recordTypes]

/-- The discovery gets an answer exactly if no lookup raises. -/
theorem answers_eq_ok_iff : (∃ rs, answers lookups = .ok rs) ↔ ∀ type, ¬ (lookups type).Raises := by
  constructor
  · rintro ⟨rs, hrs⟩ type
    exact not_raises_of_answersFrom hrs type (mem_recordTypes type)
  · exact fun h ↦ exists_answersFrom (fun type _ ↦ h type) []

end Answers

namespace RetryChain

/-- No failed lookup of the chain is taken for the absence of records. -/
structure FailuresKept (c : RetryChain) (cfg : Settings) (x d : Id) (s : Store) : Prop where
  /-- In the attempt that completes the scan, every lookup told whether there are records. -/
  completed : ∀ k t', c.after cfg x s k = some t' → t'.board.Has x d .completed →
    ∀ type, (c.lookups k type).IsTold
  /-- An attempt with a lookup that did not is tried again, or the scan fails. -/
  failed : ∀ k t t', c.before cfg x s k = some t → c.after cfg x s k = some t' →
    (∃ type, ¬ (c.lookups k type).IsTold) →
    t'.queue = t.queue ++ [⟨x, k + 1⟩] ∨ t'.board.Has x d .failed

variable {c : RetryChain} {cfg : Settings} {x d : Id} {s : Store}

/-- A scan that has ended is on the board with its last status. -/
theorem has_of_ended {r : Resolution} {rs : List (AssetType × String)} {t' : Store}
    (h : Ended x d r rs t'.db) : t'.board.Has x d r.scanStatus := by
  obtain ⟨row, hx, hd, hst, -⟩ := h.scan
  exact Database.has_board.2 ⟨row, hx, hd, hst⟩

/-- **A failed lookup is never taken for absence** if and only if in the last attempt a lookup
raises, or none ends with `NoNameservers`. -/
theorem failuresKept_iff {row : Scan} (hs : s.Free) (hx : s.db.scans.get x = some row)
    (hactive : row.status.IsActive)
    (hguard : row.status = .running ∨ s.db.runningScan row.domainId = none)
    (helsewhere : ∀ k t, Untouched row.domainId t (c.elsewhere k t)) :
    c.FailuresKept cfg x row.domainId s ↔ (∃ type, (c.lookups (c.last cfg) type).Raises) ∨
      ∀ type, c.lookups (c.last cfg) type ≠ .noNameservers := by
  have hawaits : Awaits s x row.domainId s :=
    ⟨hs, ⟨row, hx, rfl, hactive, hguard⟩, rfl, fun _ _ _ ↦ Iff.rfl⟩
  constructor
  · intro h
    by_contra hnot
    obtain ⟨hraises, hnone⟩ := not_or.1 hnot
    obtain ⟨type, htype⟩ := not_forall.1 hnone
    have hfailed : ∃ type, ¬ (c.lookups (c.last cfg) type).IsTold :=
      ⟨type, fun htold ↦ htype (Lookup.isTold_iff.1 htold).2⟩
    obtain ⟨rs, hrs⟩ := answers_eq_ok_iff.2 (not_exists.1 hraises)
    obtain ⟨t, hbefore, hawaits'⟩ := exists_before hawaits helsewhere (le_refl (c.last cfg))
    obtain ⟨t', hrun, -, houtcome⟩ := exists_attempt c cfg hawaits' (c.last cfg)
    have hafter := (after_eq hbefore).trans hrun
    cases houtcome with
    | retried hretry hlt => exact absurd hretry (not_retryable_last hlt)
    | unfit _ _ hrunning hq =>
      rcases h.failed _ t t' hbefore hafter hfailed with hq' | hfinal
      · exact absurd (hq.symm.trans hq') (by simp)
      · exact absurd (hfinal.unique hrunning).2 (by simp)
    | ended _ hended =>
      have hcompleted := has_of_ended hended
      rw [hrs] at hcompleted
      exact htype (Lookup.isTold_iff.1 (h.completed _ t' hafter hcompleted type)).2
  · intro hlast
    -- what each attempt of the chain comes to
    have houtcome : ∀ k t', c.after cfg x s k = some t' → ∃ t, c.before cfg x s k = some t ∧
        k ≤ c.last cfg ∧ Outcome cfg (c.lookups k) s x row.domainId k t t' := by
      intro k t' hafter
      have hk : k ≤ c.last cfg := by
        by_contra hlt
        rw [after, before_eq_none hawaits helsewhere (Nat.lt_of_not_le hlt)] at hafter
        exact absurd hafter (by simp)
      obtain ⟨t, hbefore, hawaits'⟩ := exists_before hawaits helsewhere hk
      obtain ⟨t₁, hrun, -, houtcome⟩ := exists_attempt c cfg hawaits' k
      obtain rfl : t₁ = t' :=
        Option.some.inj ((after_eq hbefore).trans hrun ▸ hafter)
      exact ⟨t, hbefore, hk, houtcome⟩
    -- an attempt that raises nothing is the last one, and told all
    have htold : ∀ k, k ≤ c.last cfg → ∀ rs, answers (c.lookups k) = .ok rs →
        ∀ type, (c.lookups k type).IsTold := by
      intro k hk rs hrs type
      have hnot := answers_eq_ok_iff.1 ⟨rs, hrs⟩
      obtain rfl : k = c.last cfg := by
        refine hk.lt_or_eq.resolve_left fun hlt ↦ ?_
        have hretryable := retryable_of_lt hlt
        rw [hrs] at hretryable
        exact hretryable
      refine Lookup.isTold_iff.2 ⟨hnot type, hlast.resolve_left ?_ type⟩
      exact not_exists.2 hnot
    refine ⟨fun k t' hafter hcompleted ↦ ?_, fun k t t' hbefore hafter hfailed ↦ ?_⟩
    · obtain ⟨t, -, hk, houtcome⟩ := houtcome k t' hafter
      cases houtcome with
      | retried _ _ hrunning => exact absurd (hcompleted.unique hrunning).2 (by simp)
      | unfit _ _ hrunning => exact absurd (hcompleted.unique hrunning).2 (by simp)
      | ended _ hended =>
        have hfinal := (hcompleted.unique (has_of_ended hended)).2
        cases hrs : answers (c.lookups k) with
        | ok rs => exact htold k hk rs hrs
        | error e =>
          rw [hrs] at hfinal
          exact absurd hfinal (by simp [Resolution.scanStatus])
    · obtain ⟨t₁, hbefore₁, hk, houtcome⟩ := houtcome k t' hafter
      obtain rfl : t = t₁ := Option.some.inj (hbefore.symm.trans hbefore₁)
      obtain ⟨type, htype⟩ := hfailed
      cases houtcome with
      | retried _ _ _ _ hq => exact Or.inl hq
      | unfit hrs => exact absurd (htold k hk _ hrs type) htype
      | ended _ hended =>
        cases hrs : answers (c.lookups k) with
        | ok rs => exact absurd (htold k hk rs hrs type) htype
        | error e =>
          have hfinal := has_of_ended hended
          rw [hrs] at hfinal
          exact Or.inr hfinal

/-- `failuresKept_iff` for a chain that meets a timeout and then finds an address. -/
theorem failuresKept_timeoutFirst : timeoutFirst.FailuresKept {} 1 0 .awaiting := by
  have hx : Store.awaiting.db.scans.get 1 =
      some ⟨1, 0, .pending, some 7, none, none, none, 0⟩ := rfl
  refine (failuresKept_iff Store.free_awaiting hx trivial (Or.inr rfl)
    fun _ _ ↦ untouched_self 0 _).2 (Or.inr fun type ↦ ?_)
  have hlast : timeoutFirst.last {} = 1 := by decide +kernel
  rw [hlast]
  cases type <;> decide

/-- No nameserver ever answers. -/
def serversDown : RetryChain where
  lookups _ _ := .noNameservers
  env _ _ := {}
  elsewhere _ t := t

/-- While no nameserver answers, the scan completes without an asset at its first attempt. -/
theorem not_failuresKept :
    ¬ ∀ (c : RetryChain) (cfg : Settings) (x : Id) (s : Store) (row : Scan), s.Free →
      s.db.scans.get x = some row → row.status.IsActive →
      (row.status = .running ∨ s.db.runningScan row.domainId = none) →
      (∀ k t, Untouched row.domainId t (c.elsewhere k t)) →
      c.FailuresKept cfg x row.domainId s := by
  intro h
  have hkept := h serversDown {} 1 .awaiting _ Store.free_awaiting rfl trivial (Or.inr rfl)
    fun _ _ ↦ untouched_self 0 _
  have hcompleted : (serversDown.after {} 1 .awaiting 0).any
      (fun t ↦ t.board.scans 1 = some (0, .completed) ∧ t.db.assetsOf 1 = []) = true := by
    decide +kernel
  obtain ⟨t', hafter, hfinal⟩ := (Option.any_eq_true _ _).1 hcompleted
  exact hkept.completed 0 t' hafter (of_decide_eq_true hfinal).1 .a

end RetryChain

end AssetDiscovery
