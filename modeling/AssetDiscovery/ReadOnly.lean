import AssetDiscovery.Listing
import AssetDiscovery.Provenance

/-!
# Requests that only read

`list_assets`, `list_domains` and `list_scans`, statement by statement. Each statement sees the
tables as they are when it is carried out (`READ COMMITTED`), so that rows change and disappear
while one request is being answered: between the check that the domain exists, the count, the page,
and the look-ups of the domains of the assets on it.

A request that only reads changes nothing, so what others do to the tables meanwhile is given
beforehand: `history m` is the database that the statement of moment `m` sees. On a database that
does not change, the requests answer what the functions of one database do
(`listings_of_unchanged`).
-/

set_option autoImplicit false

namespace AssetDiscovery

open Effect

/-- The rows that a listing selects: its `WHERE` clause. -/
inductive Clause where
  | assets (domainId : Option Id) (assetType : Option AssetType)
  | domains (status : Option DomainStatus) (pattern : Option String)
  | scans (domainId : Id)

namespace Clause

/-- The rows of the table that the clause is about. -/
abbrev Row : Clause → Type
  | assets _ _ => Asset
  | domains _ _ => Domain
  | scans _ => Scan

/-- The column of `ORDER BY created_at DESC`. -/
def createdAt : (c : Clause) → c.Row → Time
  | assets _ _ => Asset.createdAt
  | domains _ _ => Domain.createdAt
  | scans _ => Scan.createdAt

/-- The selected rows of a database. -/
def rows (ilike : String → String → Bool) (db : Database) : (c : Clause) → List c.Row
  | assets domainId assetType => db.assets.rows.filter fun a ↦
      domainId.all (a.domainId == ·) && assetType.all (a.type == ·)
  | domains status pattern => db.domains.rows.filter fun d ↦
      status.all (d.status == ·) && pattern.all fun pattern ↦ ilike d.name pattern
  | scans domainId => db.scans.rows.filter (·.domainId == domainId)

end Clause

/-- The statements of the requests that only read. -/
inductive Select where
  /-- `db.get(Domain, id)`, where the session has no such instance. -/
  | domain (d : Id)
  /-- `SELECT count(*)`. -/
  | count (c : Clause)
  /-- `ORDER BY created_at DESC OFFSET ... LIMIT ...`. -/
  | page (c : Clause) (offset limit : ℤ)

/-- What a statement answers. -/
abbrev Select.Res : Select → Type
  | .domain _ => Except DbError (Option Domain)
  | .count _ => Except DbError ℕ
  | .page c _ _ => Except DbError (List c.Row)

/-- What the environment decides about one statement. -/
structure SelectEnv where
  /-- The order among rows that have been created at the same time. -/
  order : (c : Clause) → OrderBy c.createdAt
  /-- The statement does not get through. -/
  fails : Bool := false

/-- Rows of the same time stay as they are stored. -/
def SelectEnv.asStored : SelectEnv where
  order c := .stable c.createdAt id fun _ ↦ .refl _

/-- The answer, unless the statement does not get through. -/
def SelectEnv.result {α : Type} (e : SelectEnv) (r : Except DbError α) : Except DbError α :=
  if e.fails then .error .operational else r

/-- What a statement answers on a database. PostgreSQL refuses a negative `OFFSET` or `LIMIT`. -/
def Select.answer (ilike : String → String → Bool) (db : Database) (e : SelectEnv) :
    (q : Select) → q.Res
  | .domain d => e.result (.ok (db.domains.get d))
  | .count c => e.result (.ok (c.rows ilike db).length)
  | .page c offset limit => e.result (
      if offset < 0 ∨ limit < 0 then .error .data
      else .ok ((((e.order c).order (c.rows ilike db)).drop offset.toNat).take limit.toNat))

/-- Carry out the statement of a moment. -/
def serveSelect (ilike : String → String → Bool) (history : ℕ → Database) :
    Handler Select Select.Res SelectEnv ℕ :=
  fun q e m ↦ some (q.answer ilike (history m) e, m + 1)

/-- Code that only reads: it returns an `α` or raises. No failed statement is followed by another
one. -/
def ReadOnly (α : Type) : Type :=
  Program Select Select.Res (Except Exn α)

namespace ReadOnly

variable {α β : Type}

/-- `return`. -/
protected def pure (a : α) : ReadOnly α := Program.pure (.ok a)

/-- Sequencing; an exception skips the rest. -/
protected def bind (p : ReadOnly α) (f : α → ReadOnly β) : ReadOnly β :=
  Program.bind p fun r ↦
    match r with
    | .ok a => f a
    | .error e => Program.pure (.error e)

instance : Monad ReadOnly where
  pure := ReadOnly.pure
  bind := ReadOnly.bind

/-- `raise`. -/
def raise (e : Exn) : ReadOnly α := Program.pure (.error e)

/-- The result of a statement; a failure is raised. -/
def orRaise (r : Except DbError α) : ReadOnly α := Program.pure (r.mapError Exn.database)

/-- The code, begun at moment `m`. -/
def answers (ilike : String → String → Bool) (history : ℕ → Database) (p : ReadOnly α)
    (ω : ℕ → SelectEnv) (m : ℕ) : Option (Except Exn α × (ℕ → SelectEnv) × ℕ) :=
  Program.run (serveSelect ilike history) p ω m

/-! ### Repositories -/

/-- `get_domain_by_id`, where the session has no instance of the domain. -/
def DomainRepo.getDomainById (d : Id) : ReadOnly (Option Domain) :=
  Program.perform (.domain d) orRaise

/-- What the three listings of the repositories do: count, then fetch the page. -/
def listRows (c : Clause) (page limit : ℤ) : ReadOnly (List c.Row × ℕ) :=
  Program.perform (.count c) fun total ↦ ReadOnly.bind (orRaise total) fun total ↦
    Program.perform (.page c ((page - 1) * limit) limit) fun items ↦
      ReadOnly.bind (orRaise items) fun items ↦ ReadOnly.pure (items, total)

/-- `list_assets` of the repository. -/
def AssetRepo.listAssets (page limit : ℤ) (domainId : Option Id) (assetType : Option AssetType) :
    ReadOnly (List Asset × ℕ) :=
  listRows (.assets domainId assetType) page limit

/-- The pattern of `list_domains`; an empty text is not searched for. -/
def DomainRepo.pattern (u : Unicode) (search : Option String) : Option String :=
  (search.filter (· ≠ "")).map fun search ↦
    "%" ++ String.ofList (u.strip (u.lower search.toList)) ++ "%"

/-- `list_domains` of the repository. -/
def DomainRepo.listDomains (u : Unicode) (page limit : ℤ) (status : Option DomainStatus)
    (search : Option String) : ReadOnly (List Domain × ℕ) :=
  listRows (.domains status (pattern u search)) page limit

/-- `list_scans_for_domain`. -/
def ScanRepo.listScansForDomain (domainId : Id) (page limit : ℤ) : ReadOnly (List Scan × ℕ) :=
  listRows (.scans domainId) page limit

/-! ### Services -/

/-- `get_domain_by_id` while the variable `domain` holds an instance. Nothing else keeps an instance
in the session, which refers to its instances weakly. -/
def getDomainHolding (held : Option Domain) (d : Id) : ReadOnly (Option Domain) :=
  if held.any (·.id == d) then return held else DomainRepo.getDomainById d

/-- The loop of `list_assets`; `held` is what `domain` holds. -/
def AssetService.responses : Option Domain → List Asset → ReadOnly (List AssetResponse)
  | _, [] => return []
  | held, item :: items => do
    let domain ← getDomainHolding held item.domainId
    let rest ← responses domain items
    return ⟨item.id, (domain.map (.inl ·.name)).getD (.inr item.domainId), item.type,
      item.value⟩ :: rest

/-- `domain_id is not None and get_domain_by_id(...) is None`. -/
def AssetService.namesNoDomain : Option Id → ReadOnly Bool
  | none => return false
  | some d => do
    let domain ← DomainRepo.getDomainById d
    return domain.isNone

/-- `list_assets` of the service. -/
def AssetService.listAssets (maxPageSize page limit : ℤ) (domainId : Option Id)
    (assetType : Option AssetType) : ReadOnly (ListResponse AssetResponse) := do
  if ← namesNoDomain domainId then raise (.http 404 "Domain not found")
  else
    let page := max page 1
    let limit := min (max limit 1) maxPageSize
    let listed ← AssetRepo.listAssets page limit domainId assetType
    let responses ← responses none listed.1
    return ⟨responses, page, limit, listed.2⟩

/-- `list_domains` of the service. -/
def DomainService.listDomains (maxPageSize : ℤ) (u : Unicode) (page limit : ℤ)
    (statusFilter : Option DomainStatus) (search : Option String) :
    ReadOnly (ListResponse DomainResponse) := do
  let page := max page 1
  let limit := min (max limit 1) maxPageSize
  let listed ← DomainRepo.listDomains u page limit statusFilter search
  return ⟨listed.1.map fun d ↦ ⟨d.id, d.name, d.status⟩, page, limit, listed.2⟩

/-- `list_scans` of the service. -/
def ScanService.listScans (maxPageSize : ℤ) (domainId : Id) (page limit : ℤ) :
    ReadOnly (ListResponse ScanHistoryItem) := do
  match ← DomainRepo.getDomainById domainId with
  | none => raise (.http 404 "Domain not found")
  | some _ => do
    let page := max page 1
    let limit := min (max limit 1) maxPageSize
    let listed ← ScanRepo.listScansForDomain domainId page limit
    return ⟨listed.1.map fun s ↦ ⟨s.id, s.status, s.startedAt, s.completedAt, s.errorMessage⟩,
      page, limit, listed.2⟩

/-! ### Rows in turn -/

/-- Rows are shown one after another, from a moment on: `R m a b` says that `a` may be shown as `b`
at moment `m`. Each row takes one statement, or none. -/
inductive InTurn (R : ℕ → α → β → Prop) : ℕ → List α → List β → Prop
  | nil {m} : InTurn R m [] []
  | cons {m m' a b as bs} (h : R m a b) (hnext : m' = m ∨ m' = m + 1) (hrest : InTurn R m' as bs) :
    InTurn R m (a :: as) (b :: bs)

/-- Both lists have the same length. -/
theorem InTurn.length_eq {R : ℕ → α → β → Prop} {m : ℕ} {as : List α} {bs : List β}
    (h : InTurn R m as bs) : as.length = bs.length := by
  induction h with
  | nil => rfl
  | cons _ _ _ ih => rw [List.length_cons, List.length_cons, ih]

/-- What is shown of the rows, whatever the moments are. -/
theorem InTurn.forall₂ {R : ℕ → α → β → Prop} {S : α → β → Prop} {m : ℕ} {as : List α}
    {bs : List β} (h : InTurn R m as bs) (hR : ∀ m a b, R m a b → S a b) :
    List.Forall₂ S as bs := by
  induction h with
  | nil => exact .nil
  | cons h _ _ ih => exact .cons (hR _ _ _ h) ih

/-! ### Rules -/

section Rules

variable {ilike : String → String → Bool} {history : ℕ → Database} {ok : SelectEnv → Prop}
  {m : ℕ}

variable (ilike history ok) in
/-- Begun at moment `m`, under inputs that satisfy `ok`, the code ends in `Q`. -/
def Answers (p : ReadOnly α) (m : ℕ) (Q : Except Exn α → ℕ → Prop) : Prop :=
  Program.Ensures (serveSelect ilike history) ok (fun _ ↦ True) Q p m

theorem answers_pure {a : α} {Q : Except Exn α → ℕ → Prop} (h : Q (.ok a) m) :
    Answers ilike history ok (pure a) m Q :=
  ⟨trivial, h⟩

theorem answers_raise {e : Exn} {Q : Except Exn α → ℕ → Prop} (h : Q (.error e) m) :
    Answers ilike history ok (raise e) m Q :=
  ⟨trivial, h⟩

theorem Answers.mono {p : ReadOnly α} {Q Q' : Except Exn α → ℕ → Prop}
    (h : Answers ilike history ok p m Q) (hQ : ∀ r m', Q r m' → Q' r m') :
    Answers ilike history ok p m Q' :=
  Program.Ensures.mono h fun r m' _ ↦ hQ r m'

/-- The code ends in `Q`, whatever allowed inputs it is given. -/
theorem Answers.run {p : ReadOnly α} {Q : Except Exn α → ℕ → Prop}
    (h : Answers ilike history ok p m Q) {ω : ℕ → SelectEnv} (hω : ∀ k, ok (ω k)) :
    ∃ r ω' m', p.answers ilike history ω m = some (r, ω', m') ∧ Q r m' := by
  obtain ⟨r, ω', m', hrun, -, hr⟩ := Program.Ensures.run h hω
  exact ⟨r, ω', m', hrun, hr⟩

/-- The rule of sequential composition, after code that does not raise. -/
theorem Answers.bind {p : ReadOnly α} {f : α → ReadOnly β} {Q : Except Exn β → ℕ → Prop}
    (h : Answers ilike history ok p m fun r m' ↦
      ∃ a, r = .ok a ∧ Answers ilike history ok (f a) m' Q) :
    Answers ilike history ok (p >>= f) m Q := by
  refine Program.ensures_bind.2 (Program.Ensures.mono h ?_)
  rintro _ m' - ⟨a, rfl, ha⟩
  exact ha

/-- How an asset that has been fetched at moment `k` may be shown at moment `m`: by the name of a
row that was `Known` when it was fetched, and by its id only if its domain is gone. -/
structure Reports (history : ℕ → Database) (Known : ℕ → Domain → Prop)
    (R : ℕ → ℕ → Asset → AssetResponse → Prop) : Prop where
  known : ∀ {k a m row}, a ∈ (history k).assets → k ≤ m →
    (history m).domains.get a.domainId = some row → Known k row
  found : ∀ {k a m row}, a ∈ (history k).assets → Known k row → row.id = a.domainId →
    R k m a ⟨a.id, .inl row.name, a.type, a.value⟩
  gone : ∀ {k a m}, a ∈ (history k).assets → k ≤ m → (history m).domains.get a.domainId = none →
    R k m a ⟨a.id, .inr a.domainId, a.type, a.value⟩

variable (hok : ∀ e, ok e → e.fails = false)

include hok

theorem result_eq {e : SelectEnv} (he : ok e) (r : Except DbError α) : e.result r = r := by
  rw [SelectEnv.result, hok e he, if_neg (by decide)]

/-- A look-up answers what is stored when it is made, and takes one statement. -/
theorem answers_getDomainById (d : Id) :
    Answers ilike history ok (DomainRepo.getDomainById d) m fun r m' ↦
      r = .ok ((history m).domains.get d) ∧ m' = m + 1 := by
  refine ⟨trivial, fun e he ↦ ⟨_, _, rfl, trivial, ?_, rfl⟩⟩
  rw [Select.answer, result_eq hok he]
  rfl

/-- The rows are counted at one moment and fetched at the next. -/
theorem answers_listRows (c : Clause) {page limit : ℤ} (hpage : 1 ≤ page) (hlimit : 0 ≤ limit) :
    Answers ilike history ok (listRows c page limit) m fun r m' ↦ m' = m + 2 ∧
      ∃ e, ok e ∧ r = .ok ((e.order c).page (c.rows ilike (history (m + 1))) limit.toNat
        (page - 1).toNat, (c.rows ilike (history m)).length) := by
  refine ⟨trivial, fun e₁ he₁ ↦ ⟨_, _, rfl, ?_⟩⟩
  rw [Select.answer, result_eq hok he₁]
  refine ⟨trivial, fun e he ↦ ⟨_, _, rfl, ?_⟩⟩
  have hoffset : 0 ≤ (page - 1) * limit := Int.mul_nonneg (by omega) hlimit
  rw [Select.answer, result_eq hok he, if_neg (by omega)]
  refine ⟨trivial, rfl, e, he, ?_⟩
  rw [OrderBy.page, Int.toNat_mul (by omega) hlimit]

/-- The loop of `list_assets`, for assets that have been fetched at moment `k`. -/
theorem answers_responses {Known : ℕ → Domain → Prop} {R : ℕ → ℕ → Asset → AssetResponse → Prop}
    (h : Reports history Known R) {k : ℕ} (hk : k ≤ m) {items : List Asset} {held : Option Domain}
    (hitems : ∀ a ∈ items, a ∈ (history k).assets) (hheld : ∀ row ∈ held, Known k row) :
    Answers ilike history ok (AssetService.responses held items) m fun r _ ↦
      ∃ responses, r = .ok responses ∧ InTurn (R k) m items responses := by
  induction items generalizing m held with
  | nil => exact answers_pure ⟨[], rfl, .nil⟩
  | cons a items ih =>
    obtain ⟨ha, hitems⟩ := List.forall_mem_cons.1 hitems
    -- the domain of the first asset, and what is shown for it
    have hfirst : Answers ilike history ok (getDomainHolding held a.domainId) m fun r m' ↦
        (m' = m ∨ m' = m + 1) ∧ ∃ domain, r = .ok domain ∧ (∀ row ∈ domain, Known k row) ∧
          R k m a ⟨a.id, (domain.map (.inl ·.name)).getD (.inr a.domainId), a.type, a.value⟩ := by
      unfold getDomainHolding
      split
      · next hsame =>
        obtain ⟨row, rfl, hid⟩ := (Option.any_eq_true _ _).1 hsame
        exact answers_pure
          ⟨Or.inl rfl, _, rfl, hheld, h.found ha (hheld row rfl) (beq_iff_eq.1 hid)⟩
      · refine (answers_getDomainById hok a.domainId).mono ?_
        rintro _ _ ⟨rfl, rfl⟩
        refine ⟨Or.inr rfl, _, rfl, fun row hrow ↦ h.known ha hk hrow, ?_⟩
        cases hrow : (history m).domains.get a.domainId with
        | none => exact h.gone ha hk hrow
        | some row => exact h.found ha (h.known ha hk hrow) (Table.key_of_get hrow)
    refine Answers.bind (hfirst.mono ?_)
    rintro _ m' ⟨hnext, domain, rfl, hdomain, hshown⟩
    have hk' : k ≤ m' := by omega
    refine ⟨domain, rfl, Answers.bind ((ih hk' hitems hdomain).mono ?_)⟩
    rintro _ _ ⟨rest, rfl, hrest⟩
    exact ⟨rest, rfl, answers_pure ⟨_, rfl, .cons hshown hnext hrest⟩⟩

variable (ilike m) in
/-- `list_assets`: the rows are counted at one moment, fetched at the next, and their domains are
looked up from then on. -/
theorem answers_listAssets {Known : ℕ → Domain → Prop} {R : ℕ → ℕ → Asset → AssetResponse → Prop}
    (h : Reports history Known R) {maxPageSize : ℤ} (hmax : 0 ≤ maxPageSize) (page limit : ℤ)
    (domainId : Option Id) (assetType : Option AssetType) :
    Answers ilike history ok (AssetService.listAssets maxPageSize page limit domainId assetType) m
      fun r _ ↦
        (∃ d, domainId = some d ∧ (history m).domains.get d = none ∧
          r = .error (.http 404 "Domain not found")) ∨
        (∀ d ∈ domainId, ((history m).domains.get d).isSome) ∧
          ∃ counted, (counted = if domainId.isSome then m + 1 else m) ∧ ∃ e, ok e ∧ ∃ items,
            r = .ok ⟨items, max page 1, min (max limit 1) maxPageSize,
              ((Clause.assets domainId assetType).rows ilike (history counted)).length⟩ ∧
            InTurn (R (counted + 1)) (counted + 2) ((e.order (.assets domainId assetType)).page
              ((Clause.assets domainId assetType).rows ilike (history (counted + 1)))
              (min (max limit 1) maxPageSize).toNat (max page 1 - 1).toNat) items := by
  have hnames : Answers ilike history ok (AssetService.namesNoDomain domainId) m fun r m' ↦
      (m' = if domainId.isSome then m + 1 else m) ∧ ∃ b, r = .ok b ∧
        (b = true → ∃ d, domainId = some d ∧ (history m).domains.get d = none) ∧
        (b = false → ∀ d ∈ domainId, ((history m).domains.get d).isSome) := by
    cases domainId with
    | none => exact answers_pure ⟨rfl, false, rfl, by simp, by simp⟩
    | some d =>
      refine Answers.bind ((answers_getDomainById hok d).mono ?_)
      rintro _ _ ⟨rfl, rfl⟩
      refine ⟨_, rfl, answers_pure ⟨rfl, _, rfl, fun hnone ↦ ?_, fun hsome ↦ ?_⟩⟩
      · exact ⟨d, rfl, Option.isNone_iff_eq_none.1 hnone⟩
      · rintro _ ⟨⟩
        simpa using hsome
  refine Answers.bind (hnames.mono ?_)
  rintro _ m' ⟨hm', b, rfl, htrue, hfalse⟩
  refine ⟨b, rfl, ?_⟩
  cases b with
  | true =>
    obtain ⟨d, hd, hnone⟩ := htrue rfl
    exact answers_raise (Or.inl ⟨d, hd, hnone, rfl⟩)
  | false =>
    refine Answers.bind ((answers_listRows hok (.assets domainId assetType) (by omega)
      (by omega)).mono ?_)
    rintro _ _ ⟨rfl, e, he, rfl⟩
    refine ⟨_, rfl, Answers.bind ((answers_responses hok h (Nat.le_succ (m' + 1)) ?_
      (by simp)).mono ?_)⟩
    · exact fun a ha ↦ Table.mem_rows.1 (List.mem_of_mem_filter (OrderBy.mem_of_mem_page ha))
    · rintro _ _ ⟨items, rfl, hitems⟩
      exact ⟨items, rfl, answers_pure (Or.inr ⟨hfalse rfl, m', hm', e, he, items, rfl, hitems⟩)⟩

variable (ilike history m) in
/-- `list_domains`. -/
theorem answers_listDomains {maxPageSize : ℤ} (hmax : 0 ≤ maxPageSize) (u : Unicode)
    (page limit : ℤ) (status : Option DomainStatus) (search : Option String) :
    Answers ilike history ok (DomainService.listDomains maxPageSize u page limit status search) m
      fun r _ ↦ ∃ e, ok e ∧ r = .ok ⟨((e.order (.domains status (DomainRepo.pattern u search))).page
          ((Clause.domains status (DomainRepo.pattern u search)).rows ilike (history (m + 1)))
          (min (max limit 1) maxPageSize).toNat (max page 1 - 1).toNat).map
            fun d ↦ ⟨d.id, d.name, d.status⟩, max page 1, min (max limit 1) maxPageSize,
        ((Clause.domains status (DomainRepo.pattern u search)).rows ilike (history m)).length⟩ := by
  refine Answers.bind ((answers_listRows hok (.domains status (DomainRepo.pattern u search))
    (by omega) (by omega)).mono ?_)
  rintro _ _ ⟨rfl, e, he, rfl⟩
  exact ⟨_, rfl, answers_pure ⟨e, he, rfl⟩⟩

variable (ilike history m) in
/-- `list_scans`: the domain is looked for first. -/
theorem answers_listScans {maxPageSize : ℤ} (hmax : 0 ≤ maxPageSize) (d : Id) (page limit : ℤ) :
    Answers ilike history ok (ScanService.listScans maxPageSize d page limit) m fun r _ ↦
      (history m).domains.get d = none ∧ r = .error (.http 404 "Domain not found") ∨
      ((history m).domains.get d).isSome ∧ ∃ e, ok e ∧ r = .ok
        ⟨((e.order (.scans d)).page ((Clause.scans d).rows ilike (history (m + 2)))
          (min (max limit 1) maxPageSize).toNat (max page 1 - 1).toNat).map
            fun s ↦ ⟨s.id, s.status, s.startedAt, s.completedAt, s.errorMessage⟩, max page 1,
          min (max limit 1) maxPageSize,
          ((Clause.scans d).rows ilike (history (m + 1))).length⟩ := by
  refine Answers.bind ((answers_getDomainById hok d).mono ?_)
  rintro _ _ ⟨rfl, rfl⟩
  refine ⟨_, rfl, ?_⟩
  cases hrow : (history m).domains.get d with
  | none => exact answers_raise (Or.inl ⟨rfl, rfl⟩)
  | some row =>
    refine Answers.bind ((answers_listRows hok (.scans d) (by omega) (by omega)).mono ?_)
    rintro _ _ ⟨rfl, e, he, rfl⟩
    exact ⟨_, rfl, answers_pure (Or.inr ⟨rfl, e, he, rfl⟩)⟩

end Rules

/-! ### On a database that does not change -/

section Unchanged

variable {Row Item : Type} {createdAt : Row → Time} {maxPageSize : ℤ}

/-- The listings of one database, by the page of the rows that they select. -/
theorem listResponse_listRows (order : OrderBy createdAt) (rows : List Row) (stmt : Row → Bool)
    (item : Row → Item) (hmax : 0 ≤ maxPageSize) (page limit : ℤ) :
    listResponse maxPageSize (AssetDiscovery.listRows order rows stmt stmt) item page limit =
      .ok ⟨(order.page (rows.filter stmt) (min (max limit 1) maxPageSize).toNat
        (max page 1 - 1).toNat).map item, max page 1, min (max limit 1) maxPageSize,
        (rows.filter stmt).length⟩ := by
  have hlimit : 0 ≤ min (max limit 1) maxPageSize := by omega
  have hoffset : 0 ≤ (max page 1 - 1) * min (max limit 1) maxPageSize :=
    Int.mul_nonneg (by omega) hlimit
  have htoNat := Int.toNat_mul (show 0 ≤ max page 1 - 1 by omega) hlimit
  simp only [listResponse, AssetDiscovery.listRows,
    if_neg (not_or.2 ⟨hoffset.not_gt, hlimit.not_gt⟩), List.countP_eq_length_filter, htoNat]
  rfl

/-- On a database that does not change, the domain of an asset is shown by its name, or else its
id. -/
theorem reports_unchanged (db : Database) : Reports (fun _ ↦ db)
    (fun _ row ↦ db.domains.get row.id = some row) fun _ _ a r ↦ r = AssetResponse.of db a where
  known _ _ hrow := by rwa [Table.key_of_get hrow]
  found _ hrow hid := by
    rw [hid] at hrow
    rw [AssetResponse.of, hrow]
    rfl
  gone _ _ hnone := by
    rw [AssetResponse.of, hnone]
    rfl

theorem forall₂_eq_map {α β : Type} {f : α → β} {as : List α} {bs : List β}
    (h : List.Forall₂ (fun a b ↦ b = f a) as bs) : bs = as.map f := by
  induction h with
  | nil => rfl
  | cons hab _ ih => rw [hab, ih, List.map_cons]

/-- **On a database that does not change, the listings answer what the functions of one database
answer**, with the order among equally old rows that one of the statements happens to choose: it
makes no difference that the page, its count and the domains are read by different statements, nor
which of the domains are still in the session. -/
theorem listings_of_unchanged (db : Database) (ilike : String → String → Bool) (u : Unicode)
    (hmax : 0 ≤ maxPageSize) {ω : ℕ → SelectEnv} (hω : ∀ k, (ω k).fails = false)
    (page limit : ℤ) :
    (∀ domainId assetType, ∃ k ω' m',
      (AssetService.listAssets maxPageSize page limit domainId assetType).answers ilike
        (fun _ ↦ db) ω 0 = some (AssetDiscovery.AssetService.listAssets maxPageSize db
          ((ω k).order (.assets domainId assetType)) page limit domainId assetType, ω', m')) ∧
    (∀ status search, ∃ k ω' m',
      (DomainService.listDomains maxPageSize u page limit status search).answers ilike
        (fun _ ↦ db) ω 0 = some (AssetDiscovery.DomainService.listDomains maxPageSize u ilike db
          ((ω k).order (.domains status (DomainRepo.pattern u search))) page limit status search,
          ω', m')) ∧
    ∀ d, ∃ k ω' m', (ScanService.listScans maxPageSize d page limit).answers ilike
      (fun _ ↦ db) ω 0 = some (AssetDiscovery.ScanService.listScans maxPageSize db
        ((ω k).order (.scans d)) d page limit, ω', m') := by
  -- no statement fails, so each listing runs to its answer
  have hok : ∀ e, (∃ k, e = ω k) → e.fails = false := by
    rintro _ ⟨k, rfl⟩
    exact hω k
  refine ⟨fun domainId assetType ↦ ?_, fun status search ↦ ?_, fun d ↦ ?_⟩
  · obtain ⟨r, ω', m', hrun, hr⟩ := (answers_listAssets ilike 0 hok (reports_unchanged db) hmax
      page limit domainId assetType).run fun n ↦ ⟨n, rfl⟩
    rcases hr with ⟨d, rfl, hnone, rfl⟩ | ⟨hsome, _, -, _, ⟨k, rfl⟩, items, rfl, hitems⟩
    · refine ⟨0, ω', m', hrun.trans ?_⟩
      unfold AssetDiscovery.AssetService.listAssets
      rw [if_pos (by simp [hnone])]
    · refine ⟨k, ω', m', hrun.trans ?_⟩
      have hnone : ¬ (domainId.any fun d ↦ (db.domains.get d).isNone) = true := by
        rintro hany
        obtain ⟨d, rfl, hd⟩ := (Option.any_eq_true _ _).1 hany
        exact absurd (hsome d rfl) (by simpa using hd)
      unfold AssetDiscovery.AssetService.listAssets
      rw [if_neg hnone, forall₂_eq_map (hitems.forall₂ fun _ _ _ h ↦ h)]
      exact congrArg (fun r ↦ some (r, ω', m')) (listResponse_listRows _ _ _ _ hmax _ _).symm
  -- the search text is stripped and lowered before either listing sees it
  · obtain ⟨r, ω', m', hrun, _, ⟨k, rfl⟩, rfl⟩ := (answers_listDomains ilike (fun _ ↦ db) 0
      hok hmax u page limit status search).run fun n ↦ ⟨n, rfl⟩
    refine ⟨k, ω', m', hrun.trans (congrArg (fun r ↦ some (r, ω', m')) ?_)⟩
    have hstmt : ∀ d : Domain, ((search.filter (· ≠ "")).all fun text ↦
        ilike d.name ("%" ++ String.ofList (u.strip (u.lower text.toList)) ++ "%")) =
        (DomainRepo.pattern u search).all fun pattern ↦ ilike d.name pattern := by
      intro d
      rw [DomainRepo.pattern, Option.all_map]
    unfold AssetDiscovery.DomainService.listDomains AssetDiscovery.DomainRepo.listDomains
    simp only [hstmt]
    exact (listResponse_listRows _ _ _ _ hmax _ _).symm
  · obtain ⟨r, ω', m', hrun, hr⟩ := (answers_listScans ilike (fun _ ↦ db) 0 hok
      hmax d page limit).run fun n ↦ ⟨n, rfl⟩
    rcases hr with ⟨hnone, rfl⟩ | ⟨hsome, _, ⟨k, rfl⟩, rfl⟩
    · refine ⟨0, ω', m', hrun.trans ?_⟩
      unfold AssetDiscovery.ScanService.listScans
      rw [hnone]
    · refine ⟨k, ω', m', hrun.trans ?_⟩
      obtain ⟨row, hrow⟩ := Option.isSome_iff_exists.1 hsome
      unfold AssetDiscovery.ScanService.listScans
      rw [hrow]
      exact congrArg (fun r ↦ some (r, ω', m')) (listResponse_listRows _ _ _ _ hmax _ _).symm

/-- Both assets are on the page, and the second is shown under the instance that the first has
left. -/
theorem listings_of_unchanged_twoAssets : ∃ ω' m',
    (AssetService.listAssets 100 1 2 (some 0) none).answers (fun _ _ ↦ false) (fun _ ↦ twoAssets)
      (fun _ ↦ .asStored) 0 = some (AssetDiscovery.AssetService.listAssets 100 twoAssets
        (.stable _ id fun _ ↦ .refl _) 1 2 (some 0) none, ω', m') := by
  obtain ⟨_, ω', m', hanswers⟩ := (listings_of_unchanged twoAssets (fun _ _ ↦ false) .plain
    (show (0 : ℤ) ≤ 100 by decide) (ω := fun _ ↦ .asStored) (fun _ ↦ rfl) 1 2).1 (some 0) none
  exact ⟨ω', m', hanswers⟩

end Unchanged

end ReadOnly

end AssetDiscovery
