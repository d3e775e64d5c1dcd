import AssetDiscovery.Accounts.Access

/-!
# The first administrator

Any number of API processes start against one empty table of users, interleaved with each other and
with requests. Each looks for an administrator and, if it finds none, inserts the configured one;
the insertions race, and the unique index lets one of them through.

How far the startup of a process has come is an `Opening`. A process gets past it only with an
administrator in the table, and no other code can be first to insert a user, since whoever registers
one acts for a user who is stored already (`Evident`). So whenever a user is stored, the configured
administrator is (`bootstrapped`).
-/

set_option autoImplicit false

namespace AssetDiscovery

open Effect Runs

/-- The user is the configured administrator. -/
structure AuthSettings.IsBootstrapAdmin (cfg : AuthSettings) (u : UnicodeTables) (c : Crypto)
    (row : User) : Prop where
  email : row.email = normalizeEmail u.toUnicode cfg.adminEmail
  password : ∃ salt, row.passwordHash = c.hash cfg.adminPassword salt
  role : row.role = .admin
  active : row.isActive = true

/-- How far the startup of a process has come. -/
inductive Opening where
  /-- It knows of no administrator. -/
  | checking
  /-- It has found or inserted one. -/
  | assured

namespace Opening

/-- After an operation and its answer. -/
def observe (v : Opening) : (o : ApiOp) → o.Res → Opening
  | .existingAdmin, .ok (some _) => assured
  | .commitUser _, .ok _ => assured
  | _, _ => v

/-- The operations of a startup. -/
inductive Allowed (cfg : AuthSettings) (u : UnicodeTables) (c : Crypto) : Opening → ApiOp → Prop
  | existingAdmin : Allowed cfg u c checking .existingAdmin
  | hash : Allowed cfg u c checking (.hash cfg.adminPassword)
  | uuid4 : Allowed cfg u c checking .uuid4
  | seed {row} (h : cfg.IsBootstrapAdmin u c row) : Allowed cfg u c checking (.commitUser row)
  | close {v} : Allowed cfg u c v (.service .close)
  | recover {o} : Allowed cfg u c assured (.service o)

/-- What is known of every answer. -/
def Possible (c : Crypto) : (o : ApiOp) → o.Res → Prop
  | .service o, a => Phase.Possible o a
  | .hash password, a => ∃ salt, a = c.hash password salt
  | _, _ => True

/-- The discipline of a startup. -/
def discipline (cfg : AuthSettings) (u : UnicodeTables) (c : Crypto) :
    Discipline ApiOp ApiOp.Res Opening where
  Allowed := Allowed cfg u c
  Possible := Possible c
  observe := observe

variable {cfg : AuthSettings} {u : UnicodeTables} {c : Crypto} {α β : Type}

/-- A startup that ends without an error has an administrator. -/
def Final (r : Except Exn α) (v : Opening) : Prop :=
  ∀ a, r = .ok a → v = assured

variable (cfg u c) in
/-- From a view on, the code keeps to the discipline of a startup. -/
def Opens (m : Api α) (v : Opening) : Prop :=
  Program.Follows (discipline cfg u c) Final m v

/-- The rule of sequential composition. -/
theorem opens_bind {m : Api α} {f : α → Api β} {v : Opening}
    (h : Program.Follows (discipline cfg u c) (fun r v ↦ ∀ a, r = .ok a → Opens cfg u c (f a) v)
      m v) : Opens cfg u c (m >>= f) v := by
  refine Program.follows_bind.2 (h.mono ?_)
  rintro (e | a) v' h'
  · exact nofun
  · exact h' a rfl

/-- A failure ends the start before the administrator is assured. -/
theorem opens_orRaise {r : Except DbError α} {v : Opening} (h : ∀ a, r = .ok a → v = assured) :
    Opens cfg u c (Api.orRaise r) v := by
  cases r with
  | ok a => exact fun _ _ ↦ h a rfl
  | error err => exact nofun

/-- `seed_admin_user`. -/
theorem opens_seedAdminUser : Opens cfg u c (AuthService.seedAdminUser cfg u) checking := by
  refine opens_bind ⟨.existingAdmin, fun found _ r hr ↦ ?_⟩
  obtain rfl := Except.ok.inj hr
  refine opens_bind ?_
  rcases found with err | (_ | admin)
  · exact nofun
  · rintro _ ⟨⟩
    refine opens_bind ⟨.hash, fun hash hhash r hr ↦ ?_⟩
    obtain rfl := Except.ok.inj hr
    refine opens_bind ⟨.uuid4, fun id _ r hr ↦ ?_⟩
    obtain rfl := Except.ok.inj hr
    refine opens_bind ⟨.seed ⟨rfl, hhash, rfl, rfl⟩, fun answer _ r hr ↦ ?_⟩
    obtain rfl := Except.ok.inj hr
    cases answer with
    | ok _ => exact opens_orRaise fun _ _ ↦ rfl
    | error err => exact nofun
  · rintro _ ⟨⟩ _ _
    rfl

/-- The `lifespan` of a process. -/
theorem opens_startup : Opens cfg u c (ApiRequest.startup.code cfg u c) checking := by
  refine opens_bind (Program.follows_bind.2 (Program.Follows.mono opens_seedAdminUser ?_))
  intro r v hr
  refine ⟨.close, fun _ _ a ha ↦ ?_⟩
  obtain rfl := hr a ha
  have hrecover := Request.recover.follows u.toUnicode
  refine opens_bind (Program.Follows.mono (Program.Follows.lift ApiOp.service (fun _ r ↦ r)
    (discipline cfg u c) (f := fun _ ↦ assured) (fun _ _ _ ↦ .recover) (fun _ _ h ↦ h)
    (fun _ _ _ ↦ rfl) hrecover) ?_)
  rintro r v ⟨_, rfl, -⟩ a -
  exact fun _ _ ↦ rfl

end Opening

namespace ApiWorld

section Run

variable (cfg : AuthSettings) (u : UnicodeTables) (c : Crypto) (w : ℕ → ApiWorld)
  (a : ℕ → ApiAction)

/-- Thread `i` has been started, before step `k`, for the start of an API process. -/
def Opened (k i : ℕ) : Prop :=
  ∃ j < k, a j = .start .startup ∧ i = (w j).threads.length

/-- The state before step `k`: whenever a user is stored, the configured administrator is. -/
structure Bootstrapped (k : ℕ) : Prop where
  evident : Evident u c w a k
  users : ∀ t ≤ k, ∀ row ∈ (w t).shared.users.table, row ∈ (w k).shared.users.table
  first : ∀ row ∈ (w k).shared.users.table,
    ∃ admin ∈ (w k).shared.users.table, cfg.IsBootstrapAdmin u c admin
  seeding : ∀ i, (w k).views[i]? = some .seeding → Opened w a k i
  openings : ∀ i, Opened w a k i → ∃ t v, (w k).threads[i]? = some t ∧
    t.program.Follows (Opening.discipline cfg u c) Opening.Final v ∧
    (v = .assured → ∃ row, row ∈ (w k).shared.users.table)

end Run

variable {cfg : Settings} {auth : AuthSettings} {u : UnicodeTables} {c : Crypto}
  {w : ℕ → ApiWorld} {a : ℕ → ApiAction} {k i : ℕ}

/-- A startup that has begun has begun ever after. -/
theorem Opened.mono {k' : ℕ} (hk : k ≤ k') (h : Opened w a k i) : Opened w a k' i := by
  obtain ⟨j, hj, hrest⟩ := h
  exact ⟨j, hj.trans_le hk, hrest⟩

/-- What a startup learns from an answer. -/
theorem opening_of_serveApi {tid : ℕ} {o : ApiOp} {e : ApiEnv} {s s' : Deployment} {r : o.Res}
    (h : serveApi c auth.rate tid o e s = some (r, s')) :
    Opening.Possible c o r ∧ ∀ v : Opening, v.observe o r = .assured →
      v = .assured ∨ ∃ row, row ∈ s'.users.table := by
  cases o with
  | service o => exact ⟨possible_of_serveApi h, fun v hv ↦ Or.inl hv⟩
  | existingAdmin =>
    refine ⟨trivial, fun v hv ↦ ?_⟩
    rcases r with err | (_ | admin)
    · exact Or.inl hv
    · exact Or.inl hv
    · have hfound := mem_of_selectUser (Option.some.inj h)
      rw [(changes_of_serveApi h).users nofun]
      exact Or.inr ⟨admin, Table.mem_rows.1 (List.mem_of_find?_eq_some hfound)⟩
  | commitUser row =>
    refine ⟨trivial, fun v hv ↦ ?_⟩
    rcases r with err | _
    · exact Or.inl hv
    · simp only [serveApi] at h
      split at h
      · exact absurd (Prod.mk.inj (Option.some.inj h)).1 (by simp)
      · split at h
        · next users hwrite =>
          obtain ⟨-, rfl⟩ := Prod.mk.inj (Option.some.inj h)
          exact Or.inr ⟨row, (Users.mem_of_write hwrite row).2 (Or.inr rfl)⟩
        · exact absurd (Prod.mk.inj (Option.some.inj h)).1 (by simp)
  | hash password => exact ⟨⟨e.salt, (Prod.mk.inj (Option.some.inj h)).1.symm⟩, fun _ ↦ Or.inl⟩
  | _ => exact ⟨trivial, fun _ ↦ Or.inl⟩

/-- A thread in the first stage of a startup has been in it all along. -/
theorem seeding_of_observe {st : Stage} {o : ApiOp} {r : o.Res} (h : st.observe o r = .seeding) :
    st = .seeding := by
  cases o with
  | service o =>
    cases st with
    | seeding => rfl
    | _ => exact absurd h (by simp [Stage.observe])
  | decode token =>
    cases r with
    | none => exact h
    | some payload =>
      cases st with
      | seeding => rfl
      | _ => exact absurd h (by simp [Stage.observe])
  | userByEmail email =>
    rcases r with err | (_ | user)
    · exact h
    · exact h
    · cases st with
      | seeding => rfl
      | _ => exact absurd h (by simp [Stage.observe])
  | userById x =>
    rcases r with err | (_ | user)
    · exact h
    · exact h
    · cases st with
      | seeding => rfl
      | decoded request payload =>
        simp only [Stage.observe] at h
        split at h
        · exact absurd h (by simp)
        · exact absurd h (by simp)
      | _ => exact absurd h (by simp [Stage.observe])
  | _ => exact h

/-- A step that does not edit the table by hand keeps every user. -/
theorem mem_users_of_act (ha : (w k).act cfg auth u c (a k) = some (w (k + 1)))
    (hedit : ∀ users, a k ≠ .edit users) {row : User} (hrow : row ∈ (w k).shared.users.table) :
    row ∈ (w (k + 1)).shared.users.table := by
  rcases users_of_act ha hedit with hsame | ⟨_, _, _, _, _, hwrite⟩
  · rwa [hsame]
  · exact (Users.mem_of_write hwrite row).2 (Or.inl hrow)

/-- A process that assures the administrator is one that has been started for it. -/
theorem Bootstrapped.seeding_act (h : Bootstrapped auth u c w a k)
    (ha : (w k).act cfg auth u c (a k) = some (w (k + 1)))
    (hi : (w (k + 1)).views[i]? = some .seeding) : Opened w a (k + 1) i := by
  have hold : (w k).views[i]? = some .seeding → Opened w a (k + 1) i :=
    fun hi ↦ (h.seeding i hi).mono (Nat.le_succ k)
  -- a thread that is new is the last one
  have hspawn : ∀ {P : ApiWorld} {m : Api ApiResponse} {st : Stage}, P.spawn m st = w (k + 1) →
      P.threads = (w k).threads → (w k).views[i]? = some .seeding ∨
        (st = .seeding ∧ i = (w k).threads.length) := by
    rintro P m st hw hP
    have hviews : (Pool.spawn m st P).views = (w k).views ++ [st] := by
      simp [Pool.views, Pool.spawn, hP]
    rw [← hw, hviews, List.getElem?_append] at hi
    split at hi
    · exact Or.inl hi
    · next hge =>
      obtain ⟨hlt, hst⟩ := List.getElem?_eq_some_iff.1 hi
      have hlength : (w k).views.length = (w k).threads.length := List.length_map _
      rw [List.length_singleton] at hlt
      exact Or.inr ⟨by simpa using hst, by omega⟩
  generalize hact : a k = action at ha
  cases action with
  | start r =>
    rcases hspawn (Option.some.inj ha) rfl with hi | ⟨hst, rfl⟩
    · exact hold hi
    · cases r with
      | startup => exact ⟨k, Nat.lt_succ_self k, hact, rfl⟩
      | _ => exact absurd hst (by simp [ApiRequest.stage])
  | take n =>
    simp only [ApiWorld.act] at ha
    split at ha
    · rcases hspawn (Option.some.inj ha) rfl with hi | ⟨hst, -⟩
      · exact hold hi
      · exact absurd hst (by simp)
    · exact absurd ha (by simp)
  | duplicate n =>
    simp only [ApiWorld.act] at ha
    split at ha
    · rw [← Option.some.inj ha] at hi
      exact hold hi
    · exact absurd ha (by simp)
  -- an edit by hand touches no thread
  | edit users =>
    rw [← Option.some.inj ha] at hi
    exact hold hi
  | perform j e =>
    obtain ⟨o, next, st, r, s, hj, -, hw⟩ := Pool.step_eq_some ha
    rw [hw, Pool.views, List.map_set] at hi
    rcases getElem?_set_view hi with ⟨rfl, hst⟩ | ⟨-, hi⟩
    · refine hold ?_
      rw [Pool.views, List.getElem?_map, hj, ← seeding_of_observe hst.symm]
      rfl
    · exact hold hi

/-- A startup keeps to its code, and has an administrator once it goes on. -/
theorem Bootstrapped.openings_act (h : Bootstrapped auth u c w a k)
    (hedit : ∀ users, a k ≠ .edit users)
    (ha : (w k).act cfg auth u c (a k) = some (w (k + 1))) (hi : Opened w a (k + 1) i) :
    ∃ t v, (w (k + 1)).threads[i]? = some t ∧
      t.program.Follows (Opening.discipline auth u c) Opening.Final v ∧
      (v = .assured → ∃ row, row ∈ (w (k + 1)).shared.users.table) := by
  obtain ⟨j, hj, hstart, rfl⟩ := hi
  rcases Nat.lt_succ_iff_lt_or_eq.1 hj with hj | rfl
  · obtain ⟨t, v, ht, hfollows, hassured⟩ := h.openings _ ⟨j, hj, hstart, rfl⟩
    have hgrow : (∃ row, row ∈ (w k).shared.users.table) →
        ∃ row, row ∈ (w (k + 1)).shared.users.table := by
      rintro ⟨row, hrow⟩
      exact ⟨row, mem_users_of_act ha hedit hrow⟩
    rcases thread_of_act ha ht with ht | ⟨e, o, next, r, -, hprogram, hserve, st, ht⟩
    · exact ⟨t, v, ht, hfollows, fun hv ↦ hgrow (hassured hv)⟩
    · obtain ⟨hpossible, hlearn⟩ := opening_of_serveApi hserve
      rw [hprogram] at hfollows
      refine ⟨_, v.observe o r, ht, hfollows.2 r hpossible, fun hv ↦ ?_⟩
      rcases hlearn v hv with hv | hstored
      · exact hgrow (hassured hv)
      · exact hstored
  · rw [hstart] at ha
    rw [← Option.some.inj ha]
    exact ⟨_, .checking, List.getElem?_concat_length, Opening.opens_startup, nofun⟩

/-- Only a startup inserts a user on behalf of nobody, and it inserts the configured
administrator. -/
theorem Bootstrapped.first_act (h : Bootstrapped auth u c w a k) {e : ApiEnv} {row : User}
    (hact : a k = .perform i e) (hasks : (w k).asks i = some (.commitUser row))
    (ha : (w k).act cfg auth u c (a k) = some (w (k + 1))) :
    auth.IsBootstrapAdmin u c row ∨
      ∃ admin ∈ (w k).shared.users.table, auth.IsBootstrapAdmin u c admin := by
  obtain ⟨-, htrans⟩ := h.evident.disciplined.act ha
  rw [hact] at htrans
  cases htrans with
  | spawn hne | quiet hne => exact absurd rfl (hne i e)
  | @perform _ _ st o r _ hi hasks' hallowed _ _ =>
    rw [hasks] at hasks'
    obtain rfl := Option.some.inj hasks'
    cases hallowed with
    | harmless ho => exact nomatch ho
    | registration =>
      obtain ⟨⟨user, -, -, t, -, -, ht, -, huser, -⟩, -⟩ := h.evident.stages i _ hi
      exact Or.inr (h.first user (h.users t ht.le user huser))
    | seed =>
      obtain ⟨t, v, ht, hfollows, -⟩ := h.openings i (h.seeding i hi)
      obtain ⟨next, st, hnext⟩ := Pool.asks_eq_some hasks
      rw [ht] at hnext
      obtain rfl := Option.some.inj hnext
      cases hfollows.1 with
      | seed hrow => exact Or.inl hrow

/-- A step keeps the invariant. -/
theorem Bootstrapped.step (h : Bootstrapped auth u c w a k)
    (hedit : ∀ users, a k ≠ .edit users)
    (ha : (w k).act cfg auth u c (a k) = some (w (k + 1))) : Bootstrapped auth u c w a (k + 1) := by
  have hgrow : ∀ row ∈ (w k).shared.users.table, row ∈ (w (k + 1)).shared.users.table :=
    fun _ ↦ mem_users_of_act ha hedit
  refine ⟨h.evident.step ha, fun t ht row hrow ↦ ?_, ?_, fun i hi ↦ h.seeding_act ha hi,
    fun i hi ↦ h.openings_act hedit ha hi⟩
  · rcases Nat.le_succ_iff.1 ht with ht | rfl
    · exact hgrow row (h.users t ht row hrow)
    · exact hrow
  · have hadmin : (∃ row, row ∈ (w k).shared.users.table) →
        ∃ admin ∈ (w (k + 1)).shared.users.table, auth.IsBootstrapAdmin u c admin := by
      rintro ⟨row, hrow⟩
      obtain ⟨admin, hmem, hboot⟩ := h.first row hrow
      exact ⟨admin, hgrow admin hmem, hboot⟩
    intro row hrow
    rcases users_of_act ha hedit with hsame | ⟨i, e, new, hact, hasks, hwrite⟩
    · exact hadmin ⟨row, hsame ▸ hrow⟩
    · rcases h.first_act hact hasks ha with hnew | ⟨admin, hmem, -⟩
      · exact ⟨new, (Users.mem_of_write hwrite new).2 (Or.inr rfl), hnew⟩
      · exact hadmin ⟨admin, hmem⟩

/-- **The configured administrator comes first.** In any interleaving of starts of API processes,
requests and workers on a new deployment, in which nobody edits the table of users by hand: whenever
a user is stored, so is the active administrator with the configured address and password; and one
is stored as soon as some API process has started without an error or is beyond the closing of the
session in which it looked for an administrator. -/
theorem bootstrapped (cfg : Settings) (auth : AuthSettings) (u : UnicodeTables) (c : Crypto)
    {w : ℕ → ApiWorld} {a : ℕ → ApiAction} {n : ℕ}
    (hrun : Trace (act cfg auth u c) (boot .empty) w a n)
    (hedit : ∀ k < n, ∀ users, a k ≠ .edit users) :
    ∀ k ≤ n,
      (∀ row ∈ (w k).shared.users.table,
        ∃ admin ∈ (w k).shared.users.table, auth.IsBootstrapAdmin u c admin) ∧
      ∀ i, Opened w a k i →
        ((∃ r, (w k).result i = some (.ok r)) ∨
          ∃ o, o ≠ .close ∧ (w k).asks i = some (.service o)) →
        ∃ admin ∈ (w k).shared.users.table, auth.IsBootstrapAdmin u c admin := by
  have hboot : ∀ k ≤ n, Bootstrapped auth u c w a k := by
    refine hrun.invariant ⟨⟨?_, ?_, ?_⟩, ?_, ?_, ?_, ?_⟩ fun k hk ha h ↦ h.step (hedit k hk) ha
    · rw [hrun.start]
      exact fun _ h ↦ absurd h List.not_mem_nil
    · rw [hrun.start]
      exact fun _ _ h ↦ absurd h (by simp [boot, Pool.views])
    · rw [hrun.start]
      exact fun _ h ↦ absurd h List.not_mem_nil
    · intro t ht row hrow
      rwa [Nat.le_zero.1 ht] at hrow
    · rw [hrun.start]
      exact fun row h ↦ absurd h (Table.not_mem_empty row)
    · rw [hrun.start]
      exact fun _ h ↦ absurd h (by simp [boot, Pool.views])
    · rintro i ⟨j, hj, -⟩
      exact absurd hj (Nat.not_lt_zero j)
  intro k hk
  have h := hboot k hk
  refine ⟨h.first, fun i hi hpast ↦ ?_⟩
  obtain ⟨t, v, ht, hfollows, hassured⟩ := h.openings i hi
  have hv : v = .assured := by
    rcases hpast with ⟨r, hr⟩ | ⟨o, ho, hasks⟩
    · obtain ⟨st, hdone⟩ := Pool.result_eq_some hr
      rw [ht] at hdone
      obtain rfl := Option.some.inj hdone
      exact hfollows r rfl
    · obtain ⟨next, st, hnext⟩ := Pool.asks_eq_some hasks
      rw [ht] at hnext
      obtain rfl := Option.some.inj hnext
      cases hfollows.1 with
      | close => exact absurd rfl ho
      | recover => rfl
  obtain ⟨row, hrow⟩ := hassured hv
  exact h.first row hrow

/-- Two processes find the table empty; the first one inserts the administrator, and the insertion
of the other fails. -/
def twoStartups (k : ℕ) : ApiAction :=
  if k < 2 then .start .startup
  else if k = 3 then .perform 1 {}
  else if k < 7 then .perform 0 {}
  else .perform 1 {}

theorem bootstrapped_twoStartups :
    (states (act {} {} .plain .plain) twoStartups (boot .empty) 10).shared.users.table.rows.length
        = 1 ∧
      ∃ admin ∈ (states (act {} {} .plain .plain) twoStartups (boot .empty) 10).shared.users.table,
        AuthSettings.IsBootstrapAdmin {} .plain .plain admin := by
  have hrun : Trace (act {} {} .plain .plain) (boot .empty)
      (states (act {} {} .plain .plain) twoStartups (boot .empty)) twoStartups 10 :=
    trace_of_isSome (by decide +kernel)
  have hrows : (states (act {} {} .plain .plain) twoStartups (boot .empty)
      10).shared.users.table.rows.length = 1 := by decide +kernel
  obtain ⟨row, hrow⟩ := List.length_eq_one_iff.1 hrows
  refine ⟨hrows, (bootstrapped {} {} .plain .plain hrun ?_ 10 (Nat.le_refl 10)).1 row ?_⟩
  · intro k _ users
    simp only [twoStartups]
    split_ifs <;> exact nofun
  · rw [← Table.mem_rows, hrow]
    exact List.mem_singleton_self row

end ApiWorld

end AssetDiscovery
