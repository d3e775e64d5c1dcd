import AssetDiscovery.Alone.Runs

/-!
# What a refused request leaves behind

`create_domain` and `trigger_manual_scan` commit first and publish afterwards. A request that is
refused by a check has committed nothing, but one whose publish fails leaves the rows behind.
`Request.traceless_iff` says exactly when a request that raises has changed no table.
-/

set_option autoImplicit false

namespace AssetDiscovery

open Effect

section Ends

variable {u : Unicode} {up : Bool} {payload : String} {d : Id} {db db' : Database}
  {q q' : List Message} {a : Except Exn Response} {e : Exn} {text : String}

/-- An insertion of a scan shows in the database. -/
theorem Database.ne_of_addScan {x : Id} (hx : db.scans.get x = none)
    (h : db'.board q = (db.board q).addScan x d) : db' ≠ db := by
  rintro rfl
  have hnone : (db'.board q).scans x = none := Database.board_scans_eq_none.2 hx
  rw [h] at hnone
  simp [Board.addScan] at hnone

/-- A `create_domain` that raises has changed nothing, unless its publish failed. -/
theorem Created.unchanged (h : Created u up payload db q (.error e) db' q') (hup : up = true) :
    db' = db := by
  cases h with
  | invalid => rfl
  | taken => rfl
  | unannounced hdown => exact absurd (hup.symm.trans hdown) (by simp)

/-- A `create_domain` that passes its checks while the broker is down raises after its commits. -/
theorem Created.changed (h : Created u up payload db q a db' q') (hup : up = false)
    (hvalid : IsFqdn (normalized u payload))
    (hnew : db.domainByName (String.ofList (normalized u payload)) = none) :
    (∃ e, a = .error e) ∧ db' ≠ db := by
  cases h with
  | invalid hinvalid => exact absurd hvalid hinvalid
  | taken htaken =>
    rw [hnew] at htaken
    exact absurd htaken (by simp)
  | created hup' => exact absurd (hup.symm.trans hup') (by simp)
  | unannounced _ _ _ h => exact ⟨⟨_, rfl⟩, Database.ne_of_addScan h.free (h.board q)⟩

/-- A `create_domain` that is refused has changed nothing. -/
theorem Created.refused (h : Created u up payload db q a db' q')
    (hrefused : ¬ IsFqdn (normalized u payload) ∨
      (db.domainByName (String.ofList (normalized u payload))).isSome) : db' = db := by
  have hnone : IsFqdn (normalized u payload) →
      db.domainByName (String.ofList (normalized u payload)) ≠ none :=
    fun hvalid ↦ Option.isSome_iff_ne_none.1 (hrefused.resolve_left (not_not.2 hvalid))
  cases h with
  | invalid => rfl
  | taken => rfl
  | created _ hvalid hnew => exact absurd hnew (hnone hvalid)
  | unannounced _ hvalid hnew => exact absurd hnew (hnone hvalid)

/-- A `trigger_manual_scan` that raises has changed nothing, unless its publish failed. -/
theorem Triggered.unchanged (h : Triggered up d db q (.error e) db' q') (hup : up = true) :
    db' = db := by
  cases h with
  | missing => rfl
  | occupied => rfl
  | unannounced hdown => exact absurd (hup.symm.trans hdown) (by simp)

/-- A `trigger_manual_scan` that passes its checks while the broker is down raises after its
commit. -/
theorem Triggered.changed (h : Triggered up d db q a db' q') (hup : up = false)
    (hd : db.domains.get d ≠ none) (hfree : ∀ x, ¬ (db.board q).HasActive x d) :
    (∃ e, a = .error e) ∧ db' ≠ db := by
  cases h with
  | missing hnone => exact absurd hnone hd
  | occupied hx => exact absurd hx (hfree _)
  | accepted hup' => exact absurd (hup.symm.trans hup') (by simp)
  | unannounced _ _ _ h => exact ⟨⟨_, rfl⟩, Database.ne_of_addScan h.free (h.board q)⟩

/-- A `trigger_manual_scan` that is refused has changed nothing. -/
theorem Triggered.refused (h : Triggered up d db q a db' q')
    (hrefused : db.domains.get d = none ∨ ∃ x, (db.board q).HasActive x d) : db' = db := by
  have hactive : (db.domains.get d).isSome → ∃ x, (db.board q).HasActive x d :=
    fun hd ↦ hrefused.resolve_left (Option.isSome_iff_ne_none.1 hd)
  cases h with
  | missing => rfl
  | occupied => rfl
  | accepted _ hd hfree => exact absurd (hactive hd) (not_exists.2 hfree)
  | unannounced _ hd hfree => exact absurd (hactive hd) (not_exists.2 hfree)

/-- Once a trigger has raised because of its publish, the next one of the domain is refused. -/
theorem Triggered.blocked {up' : Bool} {b : Except Exn Response} {db'' : Database}
    {q₁ q₂ : List Message} (h : Triggered up d db q (.error (.broker text)) db' q')
    (h' : Triggered up' d db' q₁ b db'' q₂) :
    b = .error (.http 409 "A scan is already running for this domain") ∧ db'' = db' := by
  obtain ⟨x, hx⟩ : ∃ x, (db'.board q₁).HasActive x d := by
    cases h with
    | @unannounced x _ _ _ _ _ h =>
      refine ⟨x, .pending, ?_, trivial⟩
      rw [h.board]
      exact (Board.has_addScan (Database.board_scans_eq_none.2 h.free)).2 (Or.inl ⟨rfl, rfl, rfl⟩)
  cases h' with
  | missing hnone =>
    obtain ⟨st, hst, -⟩ := hx
    obtain ⟨row, hrow, hd, -⟩ := Database.has_board.1 hst
    obtain ⟨domain, hdomain⟩ := Database.exists_domain hrow
    rw [hd, hnone] at hdomain
    exact absurd hdomain (by simp)
  | occupied => exact ⟨rfl, rfl⟩
  | accepted _ _ hfree => exact absurd hx (hfree x)
  | unannounced _ _ hfree => exact absurd hx (hfree x)

end Ends

namespace Request

/-- Run alone in `s`, the request runs to its end, and if it ends by raising, the tables are as
before. -/
def Traceless (u : Unicode) (up : Bool) (lookups : AssetType → Lookup) (s : Store) (r : Request) :
    Prop :=
  ∀ ω, ∃ a ω' s', s.serveTo up lookups (r.code u) ω = some (a, ω', s') ∧
    ((∃ e, a = .error e) → s'.db = s.db)

variable {u : Unicode} {up : Bool} {lookups : AssetType → Lookup} {s : Store}

/-- A request that always changes a table and raises unless `ok` holds, and changes none if it
raises while `ok` holds. `E` is how it can end. -/
theorem traceless_iff_of {r : Request} {ok : Prop} {E : Except Exn Response → Database → Prop}
    (hrun : ∀ ω, ∃ a ω' s', s.serveTo up lookups (r.code u) ω = some (a, ω', s') ∧ E a s'.db)
    (hkept : ok → ∀ e db', E (.error e) db' → db' = s.db)
    (hleft : ¬ ok → ∀ a db', E a db' → (∃ e, a = .error e) ∧ db' ≠ s.db) :
    Traceless u up lookups s r ↔ ok := by
  refine ⟨fun h ↦ ?_, fun hok ω ↦ ?_⟩
  · by_contra hok
    obtain ⟨a, ω', s', h', hE⟩ := hrun fun _ ↦ {}
    obtain ⟨b, ω'', s'', h'', hsame⟩ := h fun _ ↦ {}
    obtain ⟨rfl, -, rfl⟩ : a = b ∧ ω' = ω'' ∧ s' = s'' := by simpa using h'.symm.trans h''
    obtain ⟨hraises, hne⟩ := hleft hok a s'.db hE
    exact hne (hsame hraises)
  · obtain ⟨a, ω', s', h', hE⟩ := hrun ω
    refine ⟨a, ω', s', h', ?_⟩
    rintro ⟨e, rfl⟩
    exact hkept hok e s'.db hE

theorem create_traceless_iff (hs : s.Free) (payload : String) (user : Id) :
    Traceless u up lookups s (.create payload user) ↔
      up = true ∨ ¬ IsFqdn (normalized u payload) ∨
        (s.db.domainByName (String.ofList (normalized u payload))).isSome := by
  let c : Conditions := { up := up, lookups := some lookups }
  have halone : Py.Alone c (fun a _ db' q' ↦ Created u up payload s.db s.trail a db' q')
      ((create payload user).code u) .new s.db s.trail := Py.alone_create fun _ ↦ trivial
  refine traceless_iff_of (E := fun a db' ↦ ∃ q', Created u up payload s.db s.queue a db' q')
    (fun ω ↦ ?_) ?_ ?_
  · obtain ⟨a, ω', s', σ, q, hrun, -, -, -, h⟩ := halone.serveTo hs trivial ω
    exact ⟨a, ω', s', hrun, q.queue, h⟩
  · rintro (hup | hrefused) e db' ⟨q', h⟩
    · exact h.unchanged hup
    · exact h.refused hrefused
  · rintro hok a db' ⟨q', h⟩
    simp only [not_or, Bool.not_eq_true, not_not, Option.isSome_eq_false_iff,
      Option.isNone_iff_eq_none] at hok
    exact h.changed hok.1 hok.2.1 hok.2.2

theorem trigger_traceless_iff (hs : s.Free) (d user : Id) :
    Traceless u up lookups s (.trigger d user) ↔
      up = true ∨ s.db.domains.get d = none ∨ (s.db.activeScan d).isSome := by
  let c : Conditions := { up := up, lookups := some lookups }
  have halone : Py.Alone c (fun a _ db' q' ↦ Triggered up d s.db s.trail a db' q')
      ((trigger d user).code u) .new s.db s.trail := Py.alone_trigger fun _ _ _ ↦ trivial
  rw [Database.activeScan_isSome (q := s.queue)]
  refine traceless_iff_of (E := fun a db' ↦ ∃ q', Triggered up d s.db s.queue a db' q')
    (fun ω ↦ ?_) ?_ ?_
  · obtain ⟨a, ω', s', σ, q, hrun, -, -, -, h⟩ := halone.serveTo hs trivial ω
    exact ⟨a, ω', s', hrun, q.queue, h⟩
  · rintro (hup | hrefused) e db' ⟨q', h⟩
    · exact h.unchanged hup
    · exact h.refused hrefused
  · rintro hok a db' ⟨q', h⟩
    simp only [not_or, Bool.not_eq_true] at hok
    exact h.changed hok.1 hok.2.1 (not_exists.1 hok.2.2)

/-- **A request that raises has changed no table** if and only if the broker takes messages or a
check refuses the request before its first commit. -/
theorem traceless_iff (hs : s.Free) :
    (∀ payload user, Traceless u up lookups s (.create payload user) ↔
      up = true ∨ ¬ IsFqdn (normalized u payload) ∨
        (s.db.domainByName (String.ofList (normalized u payload))).isSome) ∧
    (∀ d user, Traceless u up lookups s (.trigger d user) ↔
      up = true ∨ s.db.domains.get d = none ∨ (s.db.activeScan d).isSome) :=
  ⟨create_traceless_iff hs, trigger_traceless_iff hs⟩

/-- `traceless_iff` for a new deployment: it depends on the broker whether the creation of `a.b`
leaves something behind. -/
theorem traceless_iff_empty :
    let lookups : AssetType → Lookup := fun _ ↦ .answer []
    Traceless .plain true lookups .empty (.create "a.b" 7) ∧
      ¬ Traceless .plain false lookups .empty (.create "a.b" 7) ∧
      Traceless .plain false lookups .empty (.trigger 0 7) :=
  ⟨((traceless_iff Store.free_empty).1 "a.b" 7).2 (by decide),
    mt ((traceless_iff Store.free_empty).1 "a.b" 7).1 (by decide +kernel),
    ((traceless_iff Store.free_empty).2 0 7).2 (by decide)⟩

/-- While the broker is down, the creation of `a.b` in a new deployment raises and leaves the domain
and its scan behind. -/
theorem not_traceless :
    ¬ ∀ up lookups (s : Store), s.Free →
      (∀ payload user, Traceless .plain up lookups s (.create payload user)) ∧
        ∀ d user, Traceless .plain up lookups s (.trigger d user) := by
  intro h
  obtain ⟨a, ω', s', hrun, hsame⟩ :=
    (h false (fun _ ↦ .answer []) .empty Store.free_empty).1 "a.b" 7 fun _ ↦ {}
  have hleft : (Store.empty.serveTo false (fun _ ↦ .answer []) ((create "a.b" 7).code .plain)
      fun _ ↦ {}).any (fun p ↦ p.1.toOption.isNone ∧ p.2.2.db.domains.rows.length = 1 ∧
        p.2.2.db.scans.rows.length = 1) = true := by
    decide +kernel
  rw [hrun, Option.any_some, decide_eq_true_eq] at hleft
  obtain ⟨hraises, hlen, -⟩ := hleft
  cases a with
  | ok a => exact absurd hraises nofun
  | error e =>
    rw [hsame ⟨e, rfl⟩] at hlen
    exact absurd hlen (by decide)

end Request

end AssetDiscovery
