import AssetDiscovery.Phase

/-!
# Whose rows a process works on

The domain and the scans that a phase names, and how one operation changes them, with deletions
among the operations of others: `Phase.Leads` lists what an answer can lead to. Where `Move` of the
protocol says nothing once a row has disappeared, `Leads` still says which rows the process keeps
to.
-/

set_option autoImplicit false

namespace AssetDiscovery

namespace Phase

/-- The domain a process works for. -/
def domain : Phase → Option Id
  | created d => some d
  | triggering d => some d
  | locked d => some d
  | cleared d => some d
  | refused d => some d
  | announcing d _ => some d
  | announced d _ => some d
  | deleting d => some d
  | loaded _ _ d _ => some d
  | claiming _ _ d _ => some d
  | running _ _ d _ => some d
  | finished _ d _ _ => some d
  | handing _ d _ _ _ => some d
  | faulted _ d _ => some d
  | lost _ d => some d
  | creating | recovering | resetting _ | listing | republishing _ | taken _ _ | orphaned _ _
  | idle => none

/-- The scans it has in hand. -/
def scans : Phase → List Id
  | resetting xs => xs
  | taken x _ => [x]
  | loaded x _ _ _ => [x]
  | orphaned x _ => [x]
  | claiming x _ _ _ => [x]
  | running x _ _ _ => [x]
  | finished x _ _ _ => [x]
  | handing x _ _ _ _ => [x]
  | faulted x _ _ => [x]
  | lost x _ => [x]
  | announcing _ x => [x]
  | announced _ x => [x]
  | creating | created _ | triggering _ | locked _ | cleared _ | refused _ | deleting _
  | recovering | listing | republishing _ | idle => []

/-- A process that may still insert a domain or a scan. -/
def Inserts : Phase → Prop
  | creating => True
  | created _ => True
  | triggering _ => True
  | locked _ => True
  | cleared _ => True
  | _ => False

/-- A process that changes no row any more. -/
def Quiet : Phase → Prop
  | listing => True
  | republishing _ => True
  | idle => True
  | _ => False

/-- Where an answer leads a process. -/
inductive Leads : Phase → (o : Op) → o.Res → Phase → Prop
  /-- The process works on as before. -/
  | stay {v o r v'} (hdomain : v'.domain = v.domain) (hscans : v'.scans = v.scans)
      (hinserts : v'.Inserts → v.Inserts) (hquiet : v.Quiet → v'.Quiet) : Leads v o r v'
  | quiet {v o r v'} (h : v'.Quiet) : Leads v o r v'
  | opened {d ws} : Leads creating (.commit (.createDomain d) ws) (.ok ()) (created d)
  | enrolled {v d x site user ws} (hdomain : v.domain = some d)
      (hws : ws = [] ∨ ws = [.updateDomain d .pending]) :
    Leads v (.commit site (.insertScan x d .pending user :: ws)) (.ok ()) (announcing d x)
  /-- The row of its scan says which domain it works for. -/
  | read {v x row v'} (hscans : v.scans = [x]) (hdomain' : v'.domain = some row.domainId)
      (hscans' : v'.scans = [x]) : Leads v (.query (.scan x)) (.ok (some row)) v'
  /-- The domain of its scan is gone. -/
  | orphan {x r d st a} :
    Leads (loaded x r d st) (.query (.domain d)) a (orphaned x st)
  | interrupted {rows} :
    Leads recovering (.query .runningScans) (.ok rows) (resetting (rows.map Scan.id))

variable {v : Phase} {o : Op} {r : o.Res}

/-- A quiet process inserts nothing. -/
theorem Quiet.not_inserts (h : v.Quiet) : ¬ v.Inserts := by
  cases v with
  | listing | republishing | idle => exact id
  | _ => exact absurd h id

/-- It works for no domain. -/
theorem Quiet.domain_eq (h : v.Quiet) : v.domain = none := by
  cases v with
  | listing | republishing | idle => rfl
  | _ => exact absurd h id

/-- It has no scan in hand. -/
theorem Quiet.scans_eq (h : v.Quiet) : v.scans = [] := by
  cases v with
  | listing | republishing | idle => rfl
  | _ => exact absurd h id

/-- It commits nothing. -/
theorem Quiet.not_commits (h : v.Quiet) {site : Site} {ws : List Write} :
    ¬ v.Commits site ws := by
  intro hcommits
  cases hcommits <;> exact h

/-- A failed statement ends the work, or leaves the process with what it is about. -/
theorem leads_fault : v.Leads o r v.fault := by
  cases v with
  | announcing | announced => exact .stay rfl rfl id id
  | locked | cleared => exact .stay rfl rfl (fun _ ↦ trivial) id
  | _ => exact .quiet trivial

/-- What a query that succeeds leads to. -/
theorem leads_read {q : Query} {row : q.Row} (h : v.Reads q) :
    v.Leads (.query q) (.ok row) (v.read q row) := by
  cases h with
  | creating =>
    show Leads _ _ _ (if row.isSome then idle else creating)
    split
    · exact .quiet trivial
    · exact .stay rfl rfl id id
  | triggering =>
    show Leads _ _ _ (if row.isSome then locked _ else idle)
    split
    · exact .stay rfl rfl id id
    · exact .quiet trivial
  | locked =>
    show Leads _ _ _ (if row.isSome then refused _ else cleared _)
    split
    · exact .stay rfl rfl (fun _ ↦ trivial) id
    · exact .stay rfl rfl id id
  | @loadedGuard x r d st =>
    show Leads _ _ _ (if row.isSome ∧ st ≠ .running then idle else claiming x r d st)
    split
    · exact .quiet trivial
    · exact .stay rfl rfl id id
  | recovering =>
    show Leads _ _ _ (if row.isEmpty then listing else resetting (row.map Scan.id))
    split
    · exact .quiet trivial
    · exact .interrupted
  | listing => exact .quiet trivial
  | taken =>
    rcases row with - | row
    · exact .quiet trivial
    · show Leads _ _ _ (if row.status.IsActive then loaded _ _ row.domainId row.status else idle)
      split
      · exact .read rfl rfl rfl
      · exact .quiet trivial
  | created =>
    rcases row with - | row
    · exact .quiet trivial
    · exact .stay rfl rfl id id
  | deletingDomain =>
    rcases row with - | row
    · exact .quiet trivial
    · exact .stay rfl rfl id id
  | loadedDomain =>
    rcases row with - | row
    · exact .orphan
    · exact .stay rfl rfl id id
  | finishedScan =>
    rcases row with - | row
    · exact .stay rfl rfl id id
    · exact .read rfl rfl rfl
  | lostScan =>
    rcases row with - | row
    · exact .stay rfl rfl id id
    · exact .read rfl rfl rfl
  | finishedNext =>
    rcases row with - | y
    · exact .quiet trivial
    · exact .stay rfl rfl id id
  | announcingScan | announcingDomain | runningScan | runningDomain | finishedDomain | idle =>
    rcases row with - | row
    · exact .stay rfl rfl id id
    · exact .stay rfl rfl id id
  | announced | deletingScans | deletingAssets | runningAsset | lostDomain | lostNext =>
    exact .stay rfl rfl id id

/-- What a commit that succeeds leads to. -/
theorem leads_committed {site : Site} {ws : List Write} (h : v.Commits site ws) :
    v.Leads (.commit site ws) (.ok ()) (v.committed site) := by
  cases h with
  | createDomain => exact .opened
  | createScan => exact .enrolled rfl (Or.inl rfl)
  | triggerManualScan hws => exact .enrolled rfl hws
  | deleteDomain | orphaned => exact .quiet trivial
  | reset => exact .quiet trivial
  | _ => exact .stay rfl rfl id id

/-- What a publish leads to. -/
theorem leads_published {m : Message} {r : Except String Unit} (h : v.Publishes m) (b : Bool) :
    v.Leads (.publish m) r (v.published b) := by
  cases h with
  | announcing | lost => exact .stay rfl rfl id id
  | republishing =>
    cases b with
    | false => exact .quiet trivial
    | true => exact .quiet trivial
  | retry => exact .quiet trivial
  | @handing x d snap handler =>
    cases b with
    | true =>
      cases handler with
      | false => exact .quiet trivial
      | true => exact .quiet trivial
    | false =>
      cases handler with
      | false => exact .stay rfl rfl id id
      | true => exact .quiet trivial

/-- Nothing else can come of an operation. -/
theorem leads_of_allowed (h : v.Allowed o) : v.Leads o r (v.observe o r) := by
  cases h with
  | query hreads =>
    rcases r with err | row
    · exact leads_fault
    · exact leads_read hreads
  | commit hcommits =>
    rcases r with err | -
    · exact leads_fault
    · exact leads_committed hcommits
  | flush =>
    rcases r with err | -
    · exact leads_fault
    · exact .stay rfl rfl id id
  | publish hpub =>
    rcases r with text | -
    · exact leads_published hpub false
    · exact leads_published hpub true
  | rollback => exact .quiet trivial
  | close hcloses =>
    show v.Leads _ _ v.closed
    rw [hcloses.closed]
    exact .quiet trivial
  | closeAnnounced | lookup | now | uuid4 => exact .stay rfl rfl id id

end Phase

end AssetDiscovery
