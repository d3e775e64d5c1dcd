import AssetDiscovery.Accounts.Stage
import AssetDiscovery.Library.Runs
import AssetDiscovery.Rows
import AssetDiscovery.World

/-!
# Who may change what

The API processes, the workers and whoever edits the table of users by hand, interleaved operation
by operation (`ApiWorld.act`). Whenever a request adds a user, creates or deletes a domain or
triggers a scan, it is authorised (`ApiWorld.authorised`): the token it carries has been issued to a
login that gave the address and the password of some user, it had not expired when it was decoded,
and afterwards that user was read from the table as active, with a role that the change requires.

The proof keeps for every thread the evidence for its stage (`Evidence`), which lies in the past of
the run and therefore stays valid.
-/

set_option autoImplicit false

namespace AssetDiscovery

open Effect Runs

/-! ### What the code of a request changes -/

/-- What a request to the service is about. -/
inductive Task where
  | create
  | trigger
  | delete
  deriving DecidableEq

/-- The task in which a phase of the service may still add or remove a row. -/
def Phase.task : Phase → Option Task
  | creating | created _ => some .create
  | triggering _ | locked _ | cleared _ | refused _ => some .trigger
  | deleting _ => some .delete
  | _ => none

/-- The task of a request. -/
def ApiRequest.task : ApiRequest → Option Task
  | .createDomain _ _ => some .create
  | .triggerScan _ _ => some .trigger
  | .deleteDomain _ _ => some .delete
  | .register _ _ | .login _ _ _ | .startup => none

namespace Phase

/-- A failure gives a process no other task. -/
theorem task_fault (v : Phase) : v.fault.task = none ∨ v.fault.task = v.task := by
  cases v <;> simp [fault, task]

/-- Reading a scan gives it no other task. -/
theorem task_readScan (v : Phase) (row : Option Scan) :
    (v.readScan row).task = none ∨ (v.readScan row).task = v.task := by
  cases v with
  | taken x r =>
    cases row with
    | none => exact Or.inl rfl
    | some row =>
      show (if row.status.IsActive then _ else _ : Phase).task = none ∨ _
      split
      · exact Or.inl rfl
      · exact Or.inl rfl
  | announcing | running | finished | lost => cases row <;> exact Or.inl rfl
  | _ => exact Or.inr rfl

/-- Neither does reading a domain. -/
theorem task_readDomain (v : Phase) (row : Option Domain) :
    (v.readDomain row).task = none ∨ (v.readDomain row).task = v.task := by
  cases v with
  | created d =>
    cases row with
    | none => exact Or.inl rfl
    | some row => exact Or.inr rfl
  | deleting d =>
    cases row with
    | none => exact Or.inl rfl
    | some row => exact Or.inr rfl
  | announcing | loaded | running | finished => cases row <;> exact Or.inl rfl
  | _ => exact Or.inr rfl

theorem task_ite {p : Prop} [Decidable p] {v v' : Phase} {t : Option Task}
    (h : v.task = none ∨ v.task = t) (h' : v'.task = none ∨ v'.task = t) :
    (if p then v else v').task = none ∨ (if p then v else v').task = t := by
  split
  · exact h
  · exact h'

/-- A query gives a process no other task. -/
theorem task_read (v : Phase) (q : Query) (row : q.Row) :
    (v.read q row).task = none ∨ (v.read q row).task = v.task := by
  cases q with
  | scan x => exact task_readScan v row
  | domain d => exact task_readDomain v row
  | domainByName name =>
    cases v with
    | creating => exact task_ite (Or.inl rfl) (Or.inr rfl)
    | _ => exact Or.inr rfl
  | domainForUpdate d =>
    cases v with
    | triggering d => exact task_ite (Or.inr rfl) (Or.inl rfl)
    | _ => exact Or.inr rfl
  | runningScan d =>
    cases v with
    | loaded x r d st => exact task_ite (Or.inl rfl) (Or.inl rfl)
    | _ => exact Or.inr rfl
  | activeScan d =>
    cases v with
    | locked d => exact task_ite (Or.inr rfl) (Or.inr rfl)
    | _ => exact Or.inr rfl
  | nextPending d =>
    cases v with
    | finished x d snap h => cases row <;> exact Or.inl rfl
    | _ => exact Or.inr rfl
  | runningScans =>
    cases v with
    | recovering => exact task_ite (Or.inl rfl) (Or.inl rfl)
    | _ => exact Or.inr rfl
  | recoverableIds => cases v <;> exact Or.inr rfl
  | asset _ | scansOf _ | assetsOf _ => exact Or.inr rfl

/-- Neither does a commit. -/
theorem task_committed (v : Phase) (site : Site) :
    (v.committed site).task = none ∨ (v.committed site).task = v.task := by
  cases v <;> cases site <;> simp [committed, task]

/-- Neither does a publish. -/
theorem task_published (v : Phase) (ok : Bool) :
    (v.published ok).task = none ∨ (v.published ok).task = v.task := by
  cases v with
  | republishing xs => cases xs <;> cases ok <;> exact Or.inl rfl
  | handing x d snap h y => cases h <;> cases ok <;> exact Or.inl rfl
  | _ => exact Or.inl rfl

/-- No operation leads into another task. -/
theorem task_observe (v : Phase) (o : Op) (a : o.Res) :
    (v.observe o a).task = none ∨ (v.observe o a).task = v.task := by
  cases o with
  | query q =>
    cases a with
    | ok row => exact task_read v q row
    | error _ => exact task_fault v
  | flush ws =>
    cases a with
    | ok _ => exact Or.inr rfl
    | error _ => exact task_fault v
  | commit site ws =>
    cases a with
    | ok _ => exact task_committed v site
    | error _ => exact task_fault v
  | publish m =>
    cases a with
    | ok _ => exact task_published v true
    | error _ => exact task_published v false
  | close => cases v <;> simp [observe, closed, task]
  | rollback => cases v <;> simp [observe, task]
  | lookup _ _ | now | uuid4 => exact Or.inr rfl

end Phase

/-- A statement that adds or removes no domain and no scan. -/
def Write.Keeps : Write → Prop
  | .updateScan _ _ | .updateDomain _ _ | .insertAsset _ _ _ _ _ => True
  | .insertDomain _ _ _ _ | .insertScan _ _ _ _ | .deleteDomain _ => False

namespace Phase

/-- Setting columns of a scan deletes nothing. -/
theorem SetsScan.keeps {x : Id} {st : Option ScanStatus} {ws : List Write} (h : SetsScan x st ws) :
    ∀ w ∈ ws, w.Keeps := by
  rcases h with ⟨rfl, -⟩ | ⟨p, rfl, -⟩
  · simp
  · simp [Write.Keeps]

/-- Setting the status of a domain deletes nothing. -/
theorem keeps_of_setDomain {d : Id} {st : DomainStatus} {ws : List Write}
    (h : ws = [] ∨ ws = [.updateDomain d st]) : ∀ w ∈ ws, w.Keeps := by
  rcases h with rfl | rfl
  · simp
  · simp [Write.Keeps]

/-- The commits that add or remove a domain or a scan belong to a task. -/
theorem Commits.cases_task {v : Phase} {site : Site} {ws : List Write} (h : v.Commits site ws) :
    (∀ w ∈ ws, w.Keeps) ∨
      (v.task = some .create ∧ ∀ d, .deleteDomain d ∉ ws) ∨
      (v.task = some .trigger ∧ (∀ d name st user, .insertDomain d name st user ∉ ws) ∧
        ∀ d, .deleteDomain d ∉ ws) ∨
      (v.task = some .delete ∧ ∃ d, ws = [.deleteDomain d]) := by
  cases h with
  | createDomain | createScan => exact Or.inr (Or.inl ⟨rfl, by simp⟩)
  | triggerManualScan hws =>
    exact Or.inr (Or.inr (Or.inl ⟨rfl, by rcases hws with rfl | rfl <;> simp⟩))
  | deleteDomain => exact Or.inr (Or.inr (Or.inr ⟨rfl, _, rfl⟩))
  | announcing hws | runningDomain hws | finishedDomain hws | lostDomain hws =>
    exact Or.inl (keeps_of_setDomain hws)
  | orphaned hws | markScanRunning hws | markScanCompleted hws | markScanFailed hws | faulted hws
  | lostScan hws => exact Or.inl hws.keeps
  | reset hws =>
    refine Or.inl ?_
    induction hws with
    | nil => simp
    | cons hw _ ih =>
      obtain ⟨p, rfl, -⟩ := hw
      exact List.forall_mem_cons.2 ⟨trivial, ih⟩
  | createAssets hws =>
    refine Or.inl fun w hw ↦ ?_
    obtain ⟨id, type, value, rfl⟩ := hws w hw
    trivial

end Phase

/-! ### The interleaved API -/

/-- A deployment with the threads of its API processes and workers. -/
abbrev ApiWorld := Pool ApiOp ApiOp.Res (Except Exn ApiResponse) Deployment Stage

/-- A step of the deployment. -/
inductive ApiAction where
  /-- A request arrives, or an API process starts. -/
  | start (r : ApiRequest)
  /-- A worker takes the `n`-th queued message. -/
  | take (n : ℕ)
  /-- The broker will deliver the `n`-th queued message once more. -/
  | duplicate (n : ℕ)
  /-- The table of users is edited by hand, which is how a user is deactivated or gets another
  role. -/
  | edit (users : Users)
  /-- Thread `i` carries out its next operation. -/
  | perform (i : ℕ) (e : ApiEnv)

namespace ApiWorld

/-- No thread has been started. -/
def boot (s : Deployment) : ApiWorld := ⟨s, []⟩

/-- The code of a worker that has taken a message. -/
def worker (cfg : Settings) (m : Message) : Api ApiResponse := do
  let r ← Api.service (Py.start (runDiscoveryScan cfg m))
  return .service r

variable (cfg : Settings) (auth : AuthSettings) (u : UnicodeTables) (c : Crypto)

/-- Carry out one step; `none` if there is no such message or thread, or if it has to wait. -/
def act (w : ApiWorld) : ApiAction → Option ApiWorld
  | .start r => some (w.spawn (r.code auth u c) r.stage)
  | .take n =>
    match w.shared.store.queue[n]? with
    | some m =>
      some (Pool.spawn (worker cfg m) (.background m.phase)
        { w with shared := { w.shared with
          store := { w.shared.store with queue := w.shared.store.queue.eraseIdx n } } })
    | none => none
  | .duplicate n =>
    match w.shared.store.queue[n]? with
    | some m =>
      some { w with shared := { w.shared with
        store := { w.shared.store with queue := w.shared.store.queue ++ [m] } } }
    | none => none
  | .edit users => some { w with shared := { w.shared with users := users } }
  | .perform i e => w.step (serveApi c auth.rate) (Stage.discipline c u) i e

/-- The request that thread `i` answers; `none` for a worker and for the start of a process. -/
def requestOf (w : ApiWorld) (i : ℕ) : Option ApiRequest :=
  w.views[i]?.bind Stage.request

/-- Every thread keeps to the discipline. -/
abbrev Disciplined (w : ApiWorld) : Prop :=
  Pool.Disciplined (Stage.discipline c u) (fun _ _ ↦ True) w

/-- What one step does to the signed payloads and to the stages. -/
inductive Transition (w : ApiWorld) : ApiAction → ApiWorld → Prop
  | spawn {a st w'} (ha : ∀ i e, a ≠ .perform i e)
      (hst : (∃ r : ApiRequest, st = r.stage) ∨ ∃ v, st = .background v)
      (hissued : w'.shared.issued = w.shared.issued) (hviews : w'.views = w.views ++ [st]) :
    Transition w a w'
  | quiet {a w'} (ha : ∀ i e, a ≠ .perform i e) (hissued : w'.shared.issued = w.shared.issued)
      (hviews : w'.views = w.views) : Transition w a w'
  | perform {i e st o r w'} (hi : w.views[i]? = some st) (hasks : w.asks i = some o)
      (hallowed : Stage.Allowed c u st o)
      (hserve : serveApi c auth.rate i o e w.shared = some (r, w'.shared))
      (hviews : w'.views = w.views.set i (st.observe o r)) : Transition w (.perform i e) w'

variable {cfg auth u c}

/-- What an operation of the API can change. -/
inductive Changes (s s' : Deployment) : ApiOp → Prop
  | nothing {o} (husers : s'.users = s.users) (hissued : s'.issued = s.issued)
      (hdb : s'.store.db = s.store.db) : Changes s s' o
  | service {o site ws now} (husers : s'.users = s.users) (hissued : s'.issued = s.issued)
      (ho : o = .commit site ws) (hdb : s.store.db.writeAll now ws = .ok s'.store.db) :
    Changes s s' (.service o)
  | commitUser {row} (hissued : s'.issued = s.issued) (hdb : s'.store.db = s.store.db) :
    Changes s s' (.commitUser row)
  | encode {payload} (husers : s'.users = s.users) (hissued : s'.issued = payload :: s.issued)
      (hdb : s'.store.db = s.store.db) : Changes s s' (.encode payload)

/-- What an operation can change is what its statements say. -/
theorem changes_of_serveApi {i : ℕ} {o : ApiOp} {e : ApiEnv} {s s' : Deployment} {r : o.Res}
    (h : serveApi c auth.rate i o e s = some (r, s')) : Changes s s' o := by
  cases o with
  | service o =>
    obtain ⟨q, hq, hr⟩ := Option.map_eq_some_iff.1 h
    obtain ⟨-, rfl⟩ := Prod.mk.inj hr
    rcases serve_db hq with hdb | ⟨site, ws, now, rfl, hdb⟩
    · exact .nothing rfl rfl hdb
    · exact .service rfl rfl rfl hdb
  | encode payload =>
    obtain ⟨-, rfl⟩ := Prod.mk.inj (Option.some.inj h)
    exact .encode rfl rfl rfl
  | userByEmail _ | userById _ | existingAdmin =>
    simp only [serveApi, selectUser] at h
    split at h
    · obtain ⟨-, rfl⟩ := Prod.mk.inj (Option.some.inj h)
      exact .nothing rfl rfl rfl
    · obtain ⟨-, rfl⟩ := Prod.mk.inj (Option.some.inj h)
      exact .nothing rfl rfl rfl
  | commitUser row =>
    simp only [serveApi] at h
    split at h
    · obtain ⟨-, rfl⟩ := Prod.mk.inj (Option.some.inj h)
      exact .commitUser rfl rfl
    · split at h
      · obtain ⟨-, rfl⟩ := Prod.mk.inj (Option.some.inj h)
        exact .commitUser rfl rfl
      · obtain ⟨-, rfl⟩ := Prod.mk.inj (Option.some.inj h)
        exact .commitUser rfl rfl
  | _ =>
    obtain ⟨-, rfl⟩ := Prod.mk.inj (Option.some.inj h)
    exact .nothing rfl rfl rfl

/-- Only signing adds to the signed payloads. -/
theorem Changes.signed {s s' : Deployment} {o : ApiOp} (h : Changes s s' o) :
    s'.issued = s.issued ∨ ∃ payload, o = .encode payload ∧ s'.issued = payload :: s.issued := by
  cases h with
  | encode _ hissued _ => exact Or.inr ⟨_, rfl, hissued⟩
  | nothing _ hissued _ | service _ hissued _ _ | commitUser hissued _ => exact Or.inl hissued

/-- Only a commit changes rows. -/
theorem Changes.rows {s s' : Deployment} {o : ApiOp} (h : Changes s s' o)
    (huser : ∀ row, o ≠ .commitUser row) (hcommit : ∀ site ws, o ≠ .service (.commit site ws)) :
    s'.users = s.users ∧ s'.store.db = s.store.db := by
  cases h with
  | nothing husers _ hdb | encode husers _ hdb => exact ⟨husers, hdb⟩
  | service _ _ ho _ => exact absurd (congrArg ApiOp.service ho) (hcommit _ _)
  | commitUser _ _ => exact absurd rfl (huser _)

/-- Only the insertion of a user changes the table of users. -/
theorem Changes.users {s s' : Deployment} {o : ApiOp} (h : Changes s s' o)
    (ho : ∀ row, o ≠ .commitUser row) : s'.users = s.users := by
  cases h with
  | nothing husers | service husers | encode husers => exact husers
  | @commitUser row => exact absurd rfl (ho row)

/-- The answers are possible. -/
theorem possible_of_serveApi {i : ℕ} {o : ApiOp} {e : ApiEnv} {s s' : Deployment} {r : o.Res}
    (h : serveApi c auth.rate i o e s = some (r, s')) : Stage.Possible o r := by
  have hselect : ∀ {found : Option User} {r : Except DbError (Option User)},
      some (selectUser e s found) = some (r, s') → (∃ err, r = .error err) ∨ r = .ok found := by
    intro found r h
    rw [selectUser] at h
    split at h
    · exact Or.inl ⟨_, (Prod.mk.inj (Option.some.inj h)).1.symm⟩
    · exact Or.inr (Prod.mk.inj (Option.some.inj h)).1.symm
  cases o with
  | service o =>
    obtain ⟨q, hq, hr⟩ := Option.map_eq_some_iff.1 h
    obtain ⟨rfl, -⟩ := Prod.mk.inj hr
    exact World.possible_of_serve hq
  | userById x =>
    rcases hselect h with ⟨err, rfl⟩ | rfl
    · trivial
    · cases hrow : s.users.byId x with
      | none => trivial
      | some row => exact (Users.mem_of_byId hrow).2
  | userByEmail email =>
    rcases hselect h with ⟨err, rfl⟩ | rfl
    · trivial
    · cases hrow : s.users.byEmail email with
      | none => trivial
      | some row => exact (Users.mem_of_byEmail hrow).2
  | _ => trivial

/-- A step keeps every process to its stage, and does what `Transition` says. -/
theorem Disciplined.act {w w' : ApiWorld} {a : ApiAction} (hw : w.Disciplined u c)
    (ha : w.act cfg auth u c a = some w') : w'.Disciplined u c ∧ w.Transition auth u c a w' := by
  cases a with
  | start r =>
    obtain rfl := Option.some.inj ha
    exact ⟨hw.spawn (r.follows c u auth),
      .spawn (by simp) (Or.inl ⟨r, rfl⟩) rfl (by simp [Pool.views, Pool.spawn])⟩
  | take n =>
    simp only [ApiWorld.act] at ha
    split at ha
    · next m hm =>
      obtain rfl := Option.some.inj ha
      refine ⟨Pool.Disciplined.spawn (P := ⟨_, w.threads⟩) hw ?_,
        .spawn (by simp) (Or.inr ⟨m.phase, rfl⟩) rfl (by simp [Pool.views, Pool.spawn])⟩
      refine Api.follows_bind ((Message.follows_background c u cfg m).mono ?_)
      rintro (e | r) st -
      · trivial
      · trivial
    · exact absurd ha (by simp)
  | duplicate n =>
    simp only [ApiWorld.act] at ha
    split at ha
    · next m hm =>
      obtain rfl := Option.some.inj ha
      exact ⟨hw, .quiet (by simp) rfl rfl⟩
    · exact absurd ha (by simp)
  | edit users =>
    obtain rfl := Option.some.inj ha
    exact ⟨hw, .quiet (by simp) rfl rfl⟩
  | perform i e =>
    obtain ⟨hw', st, o, r, hi, hasks, hallowed, hserve, hviews⟩ :=
      Pool.Disciplined.step hw ha possible_of_serveApi
    exact ⟨hw', .perform hi hasks hallowed hserve hviews⟩

variable {w w' : ApiWorld}

/-- In a step, a thread stays as it is or carries out its next operation. -/
theorem thread_of_act {a : ApiAction} (ha : w.act cfg auth u c a = some w') {i : ℕ}
    {t : Effect.Thread ApiOp ApiOp.Res (Except Exn ApiResponse) Stage}
    (ht : w.threads[i]? = some t) :
    w'.threads[i]? = some t ∨ ∃ e o next r, a = .perform i e ∧ t.program = .perform o next ∧
      serveApi c auth.rate i o e w.shared = some (r, w'.shared) ∧
      ∃ st, w'.threads[i]? = some ⟨next r, st⟩ := by
  have happend : ∀ t', (w.threads ++ [t'])[i]? = some t := fun t' ↦ by
    rw [List.getElem?_append_left (List.getElem?_eq_some_iff.1 ht).1, ht]
  cases a with
  | start r =>
    obtain rfl := Option.some.inj ha
    exact Or.inl (happend _)
  | take n =>
    simp only [ApiWorld.act] at ha
    split at ha
    · obtain rfl := Option.some.inj ha
      exact Or.inl (happend _)
    · exact absurd ha (by simp)
  | duplicate n =>
    simp only [ApiWorld.act] at ha
    split at ha
    · obtain rfl := Option.some.inj ha
      exact Or.inl ht
    · exact absurd ha (by simp)
  | edit users =>
    obtain rfl := Option.some.inj ha
    exact Or.inl ht
  | perform j e =>
    obtain ⟨o, next, st, r, s, hj, hserve, rfl⟩ := Pool.step_eq_some ha
    by_cases hij : i = j
    · subst hij
      rw [hj] at ht
      obtain rfl := Option.some.inj ht
      exact Or.inr ⟨e, o, next, r, rfl, rfl, hserve, _,
        List.getElem?_set_self (List.getElem?_eq_some_iff.1 hj).1⟩
    · refine Or.inl ?_
      show (w.threads.set j _)[i]? = some t
      rw [List.getElem?_set_ne (Ne.symm hij), ht]

/-- What becomes of the table of users in a step that edits nothing by hand. -/
theorem users_of_act {a : ApiAction} (ha : w.act cfg auth u c a = some w')
    (hedit : ∀ users, a ≠ .edit users) :
    w'.shared.users = w.shared.users ∨ ∃ i e row, a = .perform i e ∧
      w.asks i = some (.commitUser row) ∧ w.shared.users.write row = .ok w'.shared.users := by
  cases a with
  | start r =>
    obtain rfl := Option.some.inj ha
    exact Or.inl rfl
  | take n | duplicate n =>
    simp only [ApiWorld.act] at ha
    split at ha
    · obtain rfl := Option.some.inj ha
      exact Or.inl rfl
    · exact absurd ha (by simp)
  | edit users => exact absurd rfl (hedit users)
  | perform i e =>
    obtain ⟨o, next, st, r, s, ht, hserve, rfl⟩ := Pool.step_eq_some ha
    cases o with
    | commitUser row =>
      simp only [serveApi] at hserve
      split at hserve
      · obtain ⟨-, rfl⟩ := Prod.mk.inj (Option.some.inj hserve)
        exact Or.inl rfl
      · split at hserve
        · next users hwrite =>
          obtain ⟨-, rfl⟩ := Prod.mk.inj (Option.some.inj hserve)
          exact Or.inr ⟨i, e, row, rfl, by rw [Pool.asks, ht], hwrite⟩
        · obtain ⟨-, rfl⟩ := Prod.mk.inj (Option.some.inj hserve)
          exact Or.inl rfl
    | _ => exact Or.inl ((changes_of_serveApi hserve).users (by simp))

end ApiWorld

/-! ### Evidence -/

/-- The login gives the address and the password of a user. -/
def LoginRequest.Matches (u : UnicodeTables) (c : Crypto) (p : LoginRequest) (user : User) : Prop :=
  user.email = normalizeEmail u.toUnicode p.email ∧ c.verify p.password user.passwordHash ∧
    ∀ password salt, user.passwordHash = c.hash password salt → p.password = password

namespace ApiWorld

section Evidence

variable (u : UnicodeTables) (c : Crypto) (w : ℕ → ApiWorld) (a : ℕ → ApiAction)

/-- In step `t` thread `i` carries out `o`. -/
def Performs (t i : ℕ) (o : ApiOp) : Prop :=
  (∃ e, a t = .perform i e) ∧ (w t).asks i = some o

/-- In step `t` a login signs `payload`, for the user `x` whose address and password it has
given. -/
def Issued (t : ℕ) (payload : Claims) (x : Id) : Prop :=
  ∃ i api request p user t₀, Performs w a t i (.encode payload) ∧
    (w t).requestOf i = some (.login api request p) ∧ t₀ < t ∧
    user ∈ (w t₀).shared.users.table ∧ user.id = x ∧ p.Matches u c user ∧
    payload.get "sub" = some (.id x)

/-- In step `t` thread `i` decodes the token of its request `r`, which has been issued for user `x`
and has not expired. -/
def Decoded (t i : ℕ) (r : ApiRequest) (payload : Claims) (x : Id) : Prop :=
  ∃ cr t₁, r.credentials = some cr ∧ Performs w a t i (.decode cr.token) ∧
    c.sign payload = cr.token ∧ ¬ payload.Expired (w (t + 1)).shared.store.clock ∧
    t₁ < t ∧ Issued u c w a t₁ payload x

/-- Before step `k` thread `i` has decoded the token of its request `r` and has then read the user
for whom it was issued from the table, as active and with one of the roles. -/
def Authorised (k i : ℕ) (r : ApiRequest) (roles : List UserRole) : Prop :=
  ∃ user payload t₂ t₃, Decoded u c w a t₂ i r payload user.id ∧ t₂ < t₃ ∧ t₃ < k ∧
    Performs w a t₃ i (.userById user.id) ∧ user ∈ (w t₃).shared.users.table ∧
    user.isActive ∧ user.role ∈ roles

/-- What has happened before step `k` to a thread in a stage. -/
def Evidence (k i : ℕ) : Stage → Prop
  | .arrived _ | .seeding | .background _ => True
  | .decoded r payload => ∃ t < k, ∃ x, Decoded u c w a t i r payload x
  | .acting r _ v => Authorised u c w a k i r r.roles ∧ (v.task = none ∨ v.task = r.task)
  | .found r user => ∃ t < k, user ∈ (w t).shared.users.table ∧
      ∀ api request p, r = .login api request p → user.email = normalizeEmail u.toUnicode p.email

/-- There is evidence for every stage and for every payload that has been signed. -/
structure Evident (k : ℕ) : Prop where
  disciplined : (w k).Disciplined u c
  stages : ∀ i st, (w k).views[i]? = some st → Evidence u c w a k i st
  issued : ∀ payload ∈ (w k).shared.issued, ∃ t < k, ∃ x, Issued u c w a t payload x

variable {u c w a} {k i : ℕ}

/-- The subject of a decoded token is the user that it names. -/
theorem Decoded.subject {t : ℕ} {r : ApiRequest} {payload : Claims} {x : Id}
    (h : Decoded u c w a t i r payload x) : payload.get "sub" = some (.id x) := by
  obtain ⟨-, -, -, -, -, -, -, -, -, -, -, -, -, -, -, -, -, -, -, hsub⟩ := h
  exact hsub

/-- Whoever has been authorised stays so in the record. -/
theorem Authorised.mono {k' : ℕ} (hk : k ≤ k') {r : ApiRequest} {roles : List UserRole}
    (h : Authorised u c w a k i r roles) : Authorised u c w a k' i r roles := by
  obtain ⟨user, payload, t₂, t₃, hdecoded, h₂₃, h₃, hrest⟩ := h
  exact ⟨user, payload, t₂, t₃, hdecoded, h₂₃, h₃.trans_le hk, hrest⟩

/-- What has happened stays so. -/
theorem Evidence.mono {k' : ℕ} (hk : k ≤ k') {st : Stage} (h : Evidence u c w a k i st) :
    Evidence u c w a k' i st := by
  cases st with
  | arrived | seeding | background => trivial
  | decoded r payload =>
    obtain ⟨t, ht, h⟩ := h
    exact ⟨t, ht.trans_le hk, h⟩
  | acting r user v => exact ⟨h.1.mono hk, h.2⟩
  | found r user =>
    obtain ⟨t, ht, h⟩ := h
    exact ⟨t, ht.trans_le hk, h⟩

/-- An operation of the service adds nothing to the evidence that is needed. -/
theorem Evidence.service {st : Stage} (h : Evidence u c w a k i st) (o : Op) (r : o.Res) :
    Evidence u c w a k i (st.observe (.service o) r) := by
  cases st with
  | acting request user v =>
    refine ⟨h.1, ?_⟩
    rcases Phase.task_observe v o r with htask | htask
    · exact Or.inl htask
    · rw [htask]
      exact h.2
  | seeding =>
    show Evidence u c w a k i (if _ then _ else _)
    split
    · trivial
    · trivial
  | background => trivial
  | arrived | decoded | found => exact h

variable {cfg : Settings} {auth : AuthSettings} {st : Stage} {o : ApiOp} {e : ApiEnv} {r : o.Res}

/-- A user that a query has found is stored. -/
theorem mem_of_selectUser {s s' : Deployment} {found : Option User} {user : User}
    (h : selectUser e s found = (.ok (some user), s')) : found = some user := by
  rw [selectUser] at h
  split at h
  · exact absurd (Prod.mk.inj h).1 (by simp)
  · exact Except.ok.inj (Prod.mk.inj h).1

/-- The step of a thread leaves the evidence that its new stage needs. -/
theorem Evident.observe (h : Evident u c w a k) (hact : a k = .perform i e)
    (hi : (w k).views[i]? = some st) (hasks : (w k).asks i = some o)
    (hallowed : Stage.Allowed c u st o)
    (hserve : serveApi c auth.rate i o e (w k).shared = some (r, (w (k + 1)).shared)) :
    Evidence u c w a (k + 1) i (st.observe o r) := by
  have hold := (h.stages i st hi).mono (Nat.le_succ k)
  cases hallowed with
  | harmless ho =>
    cases ho with
    | close => exact hold.service .close r
    | now => exact hold.service .now r
    | _ => exact hold
  | service _ => exact hold.service _ r
  | background _ => trivial
  -- a token that decodes was signed by this service, and has not expired
  | @decode request cr hcr =>
    cases r with
    | none => exact hold
    | some payload =>
      obtain ⟨hfound, hshared⟩ := Prod.mk.inj (Option.some.inj hserve)
      obtain ⟨hsign, hexpired⟩ : c.sign payload = cr.token ∧
          ¬ payload.Expired ((w k).shared.tick e).store.clock := by
        simpa using List.find?_some hfound
      obtain ⟨t₁, ht₁, x, hissued⟩ := h.issued payload (List.mem_of_find?_eq_some hfound)
      refine ⟨k, Nat.lt_succ_self k, x, cr, t₁, hcr, ⟨⟨e, hact⟩, hasks⟩, hsign, ?_, ht₁, hissued⟩
      rw [← hshared]
      exact hexpired
  -- `get_current_user` has looked up the row that the subject of the token names
  | @currentUser request payload x hsub =>
    rcases r with err | (_ | user)
    · exact hold
    · exact hold
    · show Evidence u c w a (k + 1) i (if _ then _ else _)
      split
      · next hguard =>
        obtain ⟨t₂, ht₂, x', hdecoded⟩ := h.stages i _ hi
        have hrow := mem_of_selectUser (Option.some.inj hserve)
        obtain ⟨hmem, rfl⟩ := Users.mem_of_byId hrow
        -- the id asked for is the subject for which the token was issued
        have hx : x' = user.id := by
          have hsub' := hdecoded.subject
          rw [hsub] at hsub'
          exact (ClaimValue.id.inj (Option.some.inj hsub')).symm
        rw [hx] at hdecoded
        refine ⟨⟨user, payload, t₂, k, hdecoded, ht₂, Nat.lt_succ_self k, ⟨⟨e, hact⟩, hasks⟩, hmem,
          hguard⟩, ?_⟩
        cases request with
        | createDomain | triggerScan | deleteDomain => exact Or.inr rfl
        | register | login | startup => exact Or.inl rfl
      · exact hold
  | conflict | registered => rcases r with err | (_ | user) <;> exact hold
  | registration => exact hold
  -- `login_user` has found the row of the submitted address
  | account =>
    rcases r with err | (_ | user)
    · exact hold
    · exact hold
    · obtain ⟨hmem, hemail⟩ := Users.mem_of_byEmail (mem_of_selectUser (Option.some.inj hserve))
      refine ⟨k, Nat.lt_succ_self k, hmem, fun api request p hlogin ↦ ?_⟩
      obtain ⟨rfl, rfl, rfl⟩ := ApiRequest.login.inj hlogin
      exact hemail
  | encode _ _ _ => exact hold
  | existingAdmin => rcases r with err | (_ | user) <;> trivial
  | seed => trivial

/-- Every step leaves evidence. -/
theorem Evident.step (h : Evident u c w a k)
    (ha : (w k).act cfg auth u c (a k) = some (w (k + 1))) : Evident u c w a (k + 1) := by
  obtain ⟨hdisc, htrans⟩ := h.disciplined.act ha
  have hold : ∀ j st, (w k).views[j]? = some st → Evidence u c w a (k + 1) j st :=
    fun j st hst ↦ (h.stages j st hst).mono (Nat.le_succ k)
  have hissuedOld : ∀ payload ∈ (w k).shared.issued,
      ∃ t < k + 1, ∃ x, Issued u c w a t payload x := by
    intro payload hpayload
    obtain ⟨t, ht, x, hx⟩ := h.issued payload hpayload
    exact ⟨t, ht.trans (Nat.lt_succ_self k), x, hx⟩
  generalize hact : a k = action at htrans
  cases htrans with
  | spawn _ hst hissued hviews =>
    refine ⟨hdisc, fun j st hj ↦ ?_, by rwa [hissued]⟩
    rw [hviews] at hj
    rcases getElem?_append_view hj with hj | rfl
    · exact hold j st hj
    · rcases hst with ⟨r, rfl⟩ | ⟨v, rfl⟩
      · cases r <;> trivial
      · trivial
  | quiet _ hissued hviews => exact ⟨hdisc, by rwa [hviews], by rwa [hissued]⟩
  | @perform i e st o r _ hi hasks hallowed hserve hviews =>
    refine ⟨hdisc, fun j st' hj ↦ ?_, fun payload hpayload ↦ ?_⟩
    · rw [hviews] at hj
      rcases getElem?_set_view hj with ⟨rfl, rfl⟩ | ⟨-, hj⟩
      · exact h.observe hact hi hasks hallowed hserve
      · exact hold j st' hj
    -- only `create_access_token` adds to the tokens, after the password was checked
    · rcases (changes_of_serveApi hserve).signed with hissued | ⟨payload', rfl, hissued⟩
      · rw [hissued] at hpayload
        exact hissuedOld payload hpayload
      · rw [hissued] at hpayload
        rcases List.mem_cons.1 hpayload with rfl | hpayload
        · cases hallowed with
          | harmless ho => cases ho
          | @encode api request p user _ hsub hpassword hactive =>
            obtain ⟨t₀, ht₀, hmem, hemail⟩ := h.stages i _ hi
            refine ⟨k, Nat.lt_succ_self k, user.id, i, api, request, p, user, t₀,
              ⟨⟨e, hact⟩, hasks⟩, ?_, ht₀, hmem, rfl,
              ⟨hemail api request p rfl, hpassword, fun password salt hhash ↦ ?_⟩, hsub⟩
            · rw [requestOf, hi]
              rfl
            · rw [hhash] at hpassword
              exact c.verify_hash _ _ _ hpassword
        · exact hissuedOld payload hpayload

end Evidence

/-! ### The main theorem -/

/-- What a step changes, with the roles that the change requires. -/
inductive Requires (s s' : Deployment) : List UserRole → Prop
  /-- A user is added. -/
  | insertUser {row} (h : row ∉ s.users.table) (h' : row ∈ s'.users.table) : Requires s s' [.admin]
  /-- A domain is deleted. -/
  | deleteDomain {d} (h : s.store.db.domains.get d ≠ none) (h' : s'.store.db.domains.get d = none) :
    Requires s s' [.admin]
  /-- A domain is created. -/
  | createDomain {d} (h : s.store.db.domains.get d = none)
      (h' : s'.store.db.domains.get d ≠ none) : Requires s s' [.admin, .analyst]
  /-- A scan is triggered. -/
  | triggerScan {x} (h : s.store.db.scans.get x = none) (h' : s'.store.db.scans.get x ≠ none) :
    Requires s s' [.admin, .analyst]

variable {u : UnicodeTables} {c : Crypto} {auth : AuthSettings}

/-- The task in which an operation adds or removes a domain or a scan. -/
theorem task_of_changes {s s' : Deployment} {o : Op} (h : Changes s s' (.service o)) {v : Phase}
    (hallowed : v.Allowed o) :
    ((∃ d, s.store.db.domains.get d ≠ none ∧ s'.store.db.domains.get d = none) →
      v.task = some .delete) ∧
    ((∃ d, s.store.db.domains.get d = none ∧ s'.store.db.domains.get d ≠ none) →
      v.task = some .create) ∧
    ((∃ x, s.store.db.scans.get x = none ∧ s'.store.db.scans.get x ≠ none) →
      v.task = some .create ∨ v.task = some .trigger) := by
  cases h with
  | nothing _ _ hdb =>
    rw [hdb]
    exact ⟨fun ⟨_, h, h'⟩ ↦ absurd h' h, fun ⟨_, h, h'⟩ ↦ absurd h h', fun ⟨_, h, h'⟩ ↦ absurd h h'⟩
  | @service _ site ws now _ _ ho hdb =>
    subst ho
    cases hallowed with
    | commit hcommits =>
      refine ⟨?_, ?_, ?_⟩
      · rintro ⟨d, hd, hd'⟩
        have hmem := Database.lost_domain_of_writeAll hdb hd hd'
        rcases hcommits.cases_task with hkeeps | ⟨-, hnot⟩ | ⟨-, -, hnot⟩ | ⟨htask, -⟩
        · exact absurd (hkeeps _ hmem) id
        · exact absurd hmem (hnot d)
        · exact absurd hmem (hnot d)
        · exact htask
      · rintro ⟨d, hd, hd'⟩
        obtain ⟨name, st, user, hmem⟩ := Database.new_domain_of_writeAll hdb hd hd'
        rcases hcommits.cases_task with hkeeps | ⟨htask, -⟩ | ⟨-, hnot, -⟩ | ⟨-, d', rfl⟩
        · exact absurd (hkeeps _ hmem) id
        · exact htask
        · exact absurd hmem (hnot d name st user)
        · simp at hmem
      · rintro ⟨x, hx, hx'⟩
        obtain ⟨d, st, user, hmem⟩ := Database.new_scan_of_writeAll hdb hx hx'
        rcases hcommits.cases_task with hkeeps | ⟨htask, -⟩ | ⟨htask, -⟩ | ⟨-, d', rfl⟩
        · exact absurd (hkeeps _ hmem) id
        · exact Or.inl htask
        · exact Or.inr htask
        · simp at hmem

/-- A change that requires roles is made for a request that requires them. -/
theorem Requires.roles {s s' : Deployment} {roles : List UserRole} (h : Requires s s' roles)
    {o : ApiOp} (hchanges : Changes s s' o) {st : Stage} (hallowed : Stage.Allowed c u st o)
    {r : ApiRequest} (hr : st.request = some r) :
    ∃ user v, st = .acting r user v ∧ (v.task = none ∨ v.task = r.task → r.roles = roles) := by
  have hnothing : s'.users = s.users → s'.store.db = s.store.db → False := by
    intro husers hdb
    cases h with
    | insertUser h h' => exact h (husers ▸ h')
    | deleteDomain h h' => exact h (hdb ▸ h')
    | createDomain h h' | triggerScan h h' => exact h' (hdb ▸ h)
  have hquiet : (∀ row, o ≠ .commitUser row) → (∀ site ws, o ≠ .service (.commit site ws)) →
      False := fun huser hcommit ↦
    have hrows := hchanges.rows huser hcommit
    hnothing hrows.1 hrows.2
  cases hallowed with
  | @service request user v o hv =>
    obtain rfl := Option.some.inj hr
    refine ⟨user, v, rfl, fun htask ↦ ?_⟩
    obtain ⟨hdelete, hcreate, htrigger⟩ := task_of_changes hchanges hv
    -- the request has the task in which the change is made
    have hrequest : ∀ {t : Task}, v.task = some t → request.task = some t := by
      intro t ht
      rcases htask with htask | htask
      · rw [ht] at htask
        exact absurd htask (by simp)
      · rw [← htask, ht]
    cases h with
    | insertUser h h' =>
      cases hchanges with
      | nothing husers _ _ | service husers _ _ _ => exact absurd (husers ▸ h') h
    | deleteDomain h h' =>
      have ht := hrequest (hdelete ⟨_, h, h'⟩)
      cases request <;> simp [ApiRequest.task] at ht
      rfl
    | createDomain h h' =>
      have ht := hrequest (hcreate ⟨_, h, h'⟩)
      cases request <;> simp [ApiRequest.task] at ht
      rfl
    | triggerScan h h' =>
      have ht : request.task = some .create ∨ request.task = some .trigger :=
        (htrigger ⟨_, h, h'⟩).imp hrequest hrequest
      cases request <;> simp [ApiRequest.task] at ht
      · rfl
      · rfl
  | registration =>
    obtain rfl := Option.some.inj hr
    refine ⟨_, _, rfl, fun _ ↦ ?_⟩
    have hdb : s'.store.db = s.store.db := by
      cases hchanges with
      | nothing _ _ hdb | commitUser _ hdb => exact hdb
    cases h with
    | insertUser => rfl
    | deleteDomain h h' => exact absurd (hdb ▸ h') h
    | createDomain h h' | triggerScan h h' => exact absurd (hdb ▸ h) h'
  | harmless ho => cases ho <;> exact (hquiet (by simp) (by simp)).elim
  | background | seed => exact absurd hr (by simp [Stage.request])
  | _ => exact (hquiet (by simp) (by simp)).elim

/-- **Only authorised principals change state.** Whenever a request adds a user, creates or deletes
a domain or triggers a scan, it has been authorised before for the roles that this requires, and
what the payload of its token says beyond the subject has had no influence on that. -/
theorem authorised (cfg : Settings) (auth : AuthSettings) (u : UnicodeTables) (c : Crypto)
    {s : Deployment} {w : ℕ → ApiWorld} {a : ℕ → ApiAction} {n : ℕ}
    (hrun : Trace (act cfg auth u c) (boot s) w a n) (hs : s.issued = []) :
    (∀ k i e r roles, k < n → a k = .perform i e → (w k).requestOf i = some r →
      Requires (w k).shared (w (k + 1)).shared roles → Authorised u c w a k i r roles) ∧
    ∀ payload payload' : Claims, payload.get "sub" = payload'.get "sub" →
      currentUserOf payload = currentUserOf payload' := by
  have hevident : ∀ k ≤ n, Evident u c w a k := by
    refine hrun.invariant ⟨?_, ?_, ?_⟩ fun k _ ha h ↦ h.step ha
    · rw [hrun.start]
      exact fun _ h ↦ absurd h List.not_mem_nil
    · rw [hrun.start]
      exact fun _ _ h ↦ absurd h (by simp [boot, Pool.views])
    · rw [hrun.start]
      show ∀ payload ∈ s.issued, _
      rw [hs]
      exact fun _ h ↦ absurd h List.not_mem_nil
  refine ⟨fun k i e r roles hk hact hr hrequires ↦ ?_, fun payload payload' h ↦ ?_⟩
  · have h := hevident k hk.le
    obtain ⟨-, htrans⟩ := h.disciplined.act (hrun.step k hk)
    rw [hact] at htrans
    cases htrans with
    | perform hi _ hallowed hserve _ =>
      rw [requestOf, hi] at hr
      obtain ⟨user, v, rfl, hroles⟩ :=
        hrequires.roles (changes_of_serveApi hserve) hallowed hr
      obtain ⟨hauthorised, htask⟩ := h.stages i _ hi
      rw [← hroles htask]
      exact hauthorised
    | spawn ha | quiet ha => exact absurd rfl (ha i e)
  · rw [currentUserOf, currentUserOf, h]

/-- The only user logs in and then creates a domain. -/
def loginAndCreate (k : ℕ) : ApiAction :=
  if k = 0 then .start (.login 0 {} ⟨"a", "p"⟩)
  else if k < 8 then .perform 0 {}
  else if k = 8 then .start (.createDomain (some ⟨"bearer", ""⟩) "a.b")
  else .perform 1 {}

/-- The commit of the new domain is authorised. -/
theorem authorised_loginAndCreate :
    Authorised .plain .plain (states (act {} {} .plain .plain) loginAndCreate (boot .oneUser))
      loginAndCreate 13 1 (.createDomain (some ⟨"bearer", ""⟩) "a.b") [.admin, .analyst] := by
  refine (authorised {} {} .plain .plain (n := 14) (trace_of_isSome (by decide)) rfl).1 13 1 {} _ _
    (by decide) rfl (by decide) (.createDomain (d := 0) (by decide) (by decide))

end ApiWorld

end AssetDiscovery
