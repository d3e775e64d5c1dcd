import AssetDiscovery.Alone.Rules
import AssetDiscovery.Listing
import AssetDiscovery.Services

/-!
# Ids that name no domain

The id of a domain arrives as text, in the path or the query of a request, and goes into a statement
as it is. PostgreSQL reads it as a UUID; a text that it cannot read makes the statement fail, which
the code neither prevents nor catches. `allNotFound_iff` says for which texts the five operations
with an id answer that there is no such domain.

How PostgreSQL reads a text is a parameter, `uuid`.
-/

set_option autoImplicit false

namespace AssetDiscovery

open Py Effect

/-- `get_domain`. -/
def DomainService.getDomain (d : Id) : Py Response := do
  match ← DomainRepo.getDomainById d with
  | none => raise (.http 404 "Domain not found")
  | some domain => return .domain domain.id domain.name domain.status

/-- Code that begins with a statement in which the id is given as text. -/
def Py.withId {α : Type} (uuid : String → Option Id) (domainId : String) (m : Id → Py α) : Py α :=
  match uuid domainId with
  | some d => m d
  | none => do
    modify fun σ ↦ { σ with failed := true }
    raise (.database .data)

/-- A listing that begins with such a statement. -/
def listWithId {α : Type} (uuid : String → Option Id) (domainId : String)
    (list : Id → Except Exn α) : Except Exn α :=
  match uuid domainId with
  | some d => list d
  | none => .error (.database .data)

/-- What the operations raise for an id that names no domain. -/
def domainNotFound : Exn :=
  .http 404 "Domain not found"

/-- The code, run alone in a session of its own, raises the 404 and changes no row. -/
def Store.RaisesNotFound (s : Store) (m : Py Response) : Prop :=
  ∀ up lookups ω, ∃ ω' s', s.serveTo up lookups (tryFinally m close) ω =
    some (.error domainNotFound, ω', s') ∧ s'.db = s.db

/-- The five operations with an id raise the 404, and nothing else. -/
structure Store.AllNotFound (uuid : String → Option Id) (s : Store) (domainId : String) : Prop where
  getDomain : s.RaisesNotFound (withId uuid domainId DomainService.getDomain)
  deleteDomain : s.RaisesNotFound (withId uuid domainId DomainService.deleteDomain)
  triggerManualScan : ∀ currentUser,
    s.RaisesNotFound (withId uuid domainId (ScanService.triggerManualScan · currentUser))
  listScans : ∀ maxPageSize order page limit,
    listWithId uuid domainId (ScanService.listScans maxPageSize s.db order · page limit) =
      .error domainNotFound
  listAssets : ∀ maxPageSize order page limit assetType,
    listWithId uuid domainId (fun d ↦
      AssetService.listAssets maxPageSize s.db order page limit (some d) assetType) =
        .error domainNotFound

section Runs

variable {uuid : String → Option Id} {s : Store} {domainId : String} {d : Id}

/-- Code that raises after its first query. -/
theorem raisesNotFound_of_query {m : Py Response} {k : Query} {r : k.Row} {σ : Session}
    {next : Except DbError k.Row → Program Op Op.Res (Except Exn Response × Session)}
    (hm : m .new = .perform (.query k) next)
    (hnext : next (.ok r) = .pure (.error domainNotFound, σ))
    (hquery : ∀ e : Env, e.fails = false →
      serve 0 (.query k) e s = some (.ok r, { s with clock := s.clock + e.tick })) :
    s.RaisesNotFound m := by
  intro up lookups ω
  have hstart : Py.start (tryFinally m close) =
      .perform (.query k) fun a ↦ Py.start (tryFinally (fun _ ↦ next a) close) := by
    show Program.bind (Program.bind (m .new) _) _ = _
    rw [hm]
    rfl
  rw [Store.serveTo, hstart, Program.run_perform, serveAlone, hquery _ rfl, Option.bind_some]
  simp only [hnext]
  exact ⟨_, _, rfl, rfl⟩

/-- A query for a domain that is not stored finds nothing, also if it asks for the row lock. -/
theorem serve_query_absent (hd : s.db.domains.get d = none) (hlock : s.locks d = none) {e : Env}
    (he : e.fails = false) :
    serve 0 (.query (.domain d)) e s = some (.ok none, { s with clock := s.clock + e.tick }) ∧
      serve 0 (.query (.domainForUpdate d)) e s =
        some (.ok none, { s with clock := s.clock + e.tick }) := by
  have hfree : ¬ Store.LockedFor { s with clock := s.clock + e.tick } 0 d := by
    rintro ⟨t, ht, -⟩
    exact absurd (hlock ▸ ht) (by simp)
  constructor
  · simp [serve, he, Database.answer, hd]
  · simp [serve, he, hfree, hd]

theorem allNotFound_of_absent (hid : uuid domainId = some d) (hd : s.db.domains.get d = none)
    (hlock : s.locks d = none) : s.AllNotFound uuid domainId := by
  refine ⟨?_, ?_, fun currentUser ↦ ?_, fun _ _ _ _ ↦ ?_, fun _ _ _ _ _ ↦ ?_⟩
  · rw [withId, hid]
    exact raisesNotFound_of_query rfl rfl fun e he ↦ (serve_query_absent hd hlock he).1
  · rw [withId, hid]
    exact raisesNotFound_of_query rfl rfl fun e he ↦ (serve_query_absent hd hlock he).1
  · rw [withId, hid]
    exact raisesNotFound_of_query rfl rfl fun e he ↦ (serve_query_absent hd hlock he).2
  · rw [listWithId, hid]
    show ScanService.listScans _ s.db _ d _ _ = _
    unfold ScanService.listScans
    rw [hd]
    rfl
  · rw [listWithId, hid]
    exact if_pos (by simp [hd])

/-- **An id that names no domain is a 404 exactly if it is an id.** Of the rows it is known that
nobody has locked one that is not stored. -/
theorem allNotFound_iff (uuid : String → Option Id) (s : Store) (domainId : String)
    (hnone : ∀ d, uuid domainId = some d → s.db.domains.get d = none)
    (hlocks : ∀ d, s.db.domains.get d = none → s.locks d = none) :
    s.AllNotFound uuid domainId ↔ (uuid domainId).isSome := by
  constructor
  · intro h
    cases hid : uuid domainId with
    | some d => rfl
    | none =>
      have hlist := h.listScans 1 (.stable _ id fun _ ↦ .refl _) 1 1
      rw [listWithId, hid] at hlist
      exact absurd hlist (by simp [domainNotFound])
  · intro h
    obtain ⟨d, hid⟩ := Option.isSome_iff_exists.1 h
    exact allNotFound_of_absent hid (hnone d hid) (hlocks d (hnone d hid))

end Runs

/-! ### Canonical texts -/

/-- The value of a hexadecimal digit. -/
def hexDigit (ch : Char) : Option ℕ :=
  if '0' ≤ ch ∧ ch ≤ '9' then some (ch.toNat - '0'.toNat)
  else if 'a' ≤ ch ∧ ch ≤ 'f' then some (ch.toNat - 'a'.toNat + 10)
  else if 'A' ≤ ch ∧ ch ≤ 'F' then some (ch.toNat - 'A'.toNat + 10)
  else none

/-- The standard form of a UUID, which `str(uuid4())` has; PostgreSQL reads a few others as well. -/
def readUuid (text : String) : Option Id :=
  if (text.toList.splitOn '-').map List.length = [8, 4, 4, 4, 12] then
    (text.toList.filter (· ≠ '-')).foldlM (fun n ch ↦ (hexDigit ch).map (16 * n + ·)) 0
  else none

/-- `allNotFound_iff` for the id of the test. -/
theorem allNotFound_ninetyNine :
    Store.oneDomain.AllNotFound readUuid "00000000-0000-0000-0000-000000000099" := by
  refine (allNotFound_iff readUuid .oneDomain "00000000-0000-0000-0000-000000000099" ?_
    fun _ _ ↦ rfl).2 (by decide +kernel)
  intro d hd
  have h : readUuid "00000000-0000-0000-0000-000000000099" = some 153 := by decide +kernel
  obtain rfl := Option.some.inj (h.symm.trans hd)
  decide

/-- A text that is no id makes PostgreSQL raise an error. -/
theorem not_allNotFound : ¬ ∀ (uuid : String → Option Id) (s : Store) (domainId : String),
    (∀ d, uuid domainId = some d → s.db.domains.get d = none) →
    (∀ d, s.db.domains.get d = none → s.locks d = none) → s.AllNotFound uuid domainId := by
  intro h
  have hnone : readUuid "x" = none := by decide +kernel
  have hlist := (h readUuid .oneDomain "x" (by simp [hnone]) fun _ _ ↦ rfl).listScans 1
    (.stable _ id fun _ ↦ .refl _) 1 1
  rw [listWithId, hnone] at hlist
  exact absurd hlist (by simp [domainNotFound])

end AssetDiscovery
