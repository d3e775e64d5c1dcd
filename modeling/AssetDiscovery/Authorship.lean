import AssetDiscovery.Conduct
import AssetDiscovery.Phase
import AssetDiscovery.Rows

/-!
# Whose name a row bears

Which rows the code of the service inserts: a domain under a valid name, created by the user whom
the code runs for, and scans that this user has triggered (`Write.Authored`); a worker and the
recovery insert neither. This is a conduct that asks nothing else of the code, `authored`, and every
function of the service keeps to it.
-/

set_option autoImplicit false

namespace AssetDiscovery

open Effect Py

/-- The statement inserts no row, or one that is valid and bears the name of the author. -/
def Write.Authored (author : Option Id) : Write → Prop
  | .insertDomain _ name _ createdBy => IsDomainName name.toList ∧ author = some createdBy
  | .insertScan _ _ _ triggeredBy => author = triggeredBy ∧ author.isSome
  | .insertAsset .. | .updateScan .. | .updateDomain .. | .deleteDomain _ => True

namespace Database

variable {db db' : Database} {now : Time} {w : Write} {ws : List Write} {known known' : Id → Prop}

/-- The stored domains have valid names, and the rows name known users. -/
structure Attributed (known : Id → Prop) (db : Database) : Prop where
  domains : ∀ d row, db.domains.get d = some row →
    IsDomainName row.name.toList ∧ known row.createdBy
  scans : ∀ x row, db.scans.get x = some row → ∀ user ∈ row.triggeredBy, known user

/-- More known users attribute the same rows. -/
theorem Attributed.mono (h : db.Attributed known) (hknown : ∀ user, known user → known' user) :
    db.Attributed known' where
  domains d row hrow := (h.domains d row hrow).imp_right (hknown _)
  scans x row hrow user huser := hknown user (h.scans x row hrow user huser)

/-- A statement in the name of a known user keeps the rows attributed. -/
theorem Attributed.wrote (hdb : db.Attributed known) (h : db.Wrote now w db') {author : Option Id}
    (hw : w.Authored author) (hauthor : ∀ user ∈ author, known user) : db'.Attributed known := by
  cases h with
  | insertDomain =>
    refine ⟨fun d row hrow ↦ ?_, hdb.scans⟩
    rw [domains_get_insertDomain] at hrow
    split at hrow
    · obtain rfl := Option.some.inj hrow
      exact ⟨hw.1, hauthor _ hw.2⟩
    · exact hdb.domains d row hrow
  | insertScan =>
    refine ⟨hdb.domains, fun x row hrow user huser ↦ ?_⟩
    rw [scans_get_insertScan] at hrow
    split at hrow
    · obtain rfl := Option.some.inj hrow
      exact hauthor user (hw.1 ▸ huser)
    · exact hdb.scans x row hrow user huser
  | insertAsset => exact ⟨hdb.domains, hdb.scans⟩
  | updateScan =>
    refine ⟨hdb.domains, fun x row hrow user huser ↦ ?_⟩
    rw [scans_get_updateScan] at hrow
    split at hrow
    · obtain ⟨row₀, hrow₀, rfl⟩ := Option.map_eq_some_iff.1 hrow
      exact hdb.scans x row₀ hrow₀ user huser
    · exact hdb.scans x row hrow user huser
  | updateDomain =>
    refine ⟨fun d row hrow ↦ ?_, hdb.scans⟩
    rw [domains_get_updateDomain] at hrow
    split at hrow
    · obtain ⟨row₀, hrow₀, rfl⟩ := Option.map_eq_some_iff.1 hrow
      exact hdb.domains d row₀ hrow₀
    · exact hdb.domains d row hrow
  | deleteDomain =>
    refine ⟨fun d row hrow ↦ ?_, fun x row hrow user huser ↦ ?_⟩
    · rw [domains_get_deleteDomain] at hrow
      split at hrow
      · exact absurd hrow (by simp)
      · exact hdb.domains d row hrow
    · rw [scans_get_deleteDomain] at hrow
      exact hdb.scans x row (Option.eq_some_of_filter_eq_some hrow) user huser

/-- So does a transaction. -/
theorem Attributed.writeAll (hdb : db.Attributed known) (h : db.writeAll now ws = .ok db')
    {author : Option Id} (hws : ∀ w ∈ ws, w.Authored author)
    (hauthor : ∀ user ∈ author, known user) : db'.Attributed known := by
  induction ws generalizing db with
  | nil => rwa [writeAll_nil h] at *
  | cons w ws ih =>
    obtain ⟨db₁, h₁, h₂⟩ := writeAll_cons h
    have hfirst := hdb.wrote (wrote_of_write h₁) (hws w List.mem_cons_self) hauthor
    exact ih hfirst h₂ fun w' hw' ↦ hws w' (List.mem_cons_of_mem _ hw')

end Database

/-- The operation is no transaction with a statement that is not authored. -/
def Op.Authored (author : Option Id) : Op → Prop
  | .flush ws => ∀ w ∈ ws, w.Authored author
  | .commit _ ws => ∀ w ∈ ws, w.Authored author
  | _ => True

/-- What code does on behalf of an author. -/
def authored (author : Option Id) : Conduct Unit where
  discipline :=
    { Allowed _ o := o.Authored author
      Possible := Phase.Possible
      observe _ _ _ := () }
  At _ := True
  write := Write.Authored author
  plain := by
    refine fun {v o} _ ho ↦ ⟨?_, fun _ ↦ rfl⟩
    cases o with
    | flush | commit => exact ho
    | _ => trivial

namespace Authored

open Conduct

variable {author : Option Id} {α : Type}

/-- The operations of one author pass. -/
theorem passes {o : Op} (ho : o.Authored author) : (authored author).Passes o :=
  fun _ _ ↦ ⟨ho, fun _ ↦ rfl⟩

/-- The conduct of an author is lenient: nothing but the insertions names a user. -/
theorem lenient : (authored author).Lenient :=
  ⟨fun _ ↦ passes trivial, fun _ ↦ passes trivial, passes trivial⟩

/-! ### The worker -/

theorem keeps_markScan (site : Site) (x : Id) (patch : Time → ScanPatch) :
    (authored author).Keeps (ScanRepo.markScan site x patch) :=
  Conduct.keeps_markScan (fun _ ↦ trivial) fun _ _ ↦ trivial

/-- The discovery names no user. -/
theorem keeps_discover (x d : Id) : (authored author).Keeps (discover x d) :=
  (keeps_readDomain d).bind fun _ ↦
    (keeps_resolveTypes (fun _ ↦ passes trivial) _ _).bind fun records ↦
      (keeps_readScan x).bind fun _ ↦
        (keeps_createAssets (fun _ _ _ ↦ trivial) records).bind fun _ ↦
          (keeps_markScan _ _ _).bind fun _ ↦ lenient.keeps_settleDomain (fun _ ↦ trivial) x

theorem keeps_domainHasRunningScan (d : Id) :
    (authored author).Keeps (ScanRepo.domainHasRunningScan d) :=
  (keeps_select (q := .runningScan d) trivial).bind fun _ ↦ keeps_pure _

/-- `_process_scan`, with its session. -/
theorem keeps_processScan (cfg : Settings) (x : Id) (task : Option ℕ) :
    (authored author).Keeps (processScan cfg x task) := by
  refine Keeps.tryFinally_close ?_ lenient.close
  refine (keeps_getScan x).bindOption (keeps_pure ()) fun scan ↦ ?_
  show (authored author).Keeps (if ¬ scan.status.IsActive then _ else _)
  split
  · exact keeps_pure ()
  · refine (keeps_getDomain _).bind fun found ↦ ?_
    cases found with
    | none => exact (keeps_markScan _ _ _).bind fun _ ↦ keeps_pure ()
    | some domain =>
      refine (keeps_domainHasRunningScan domain.id).bind fun running ↦ ?_
      split
      · exact keeps_pure ()
      · exact (keeps_markScan _ _ _).bind fun _ ↦ (keeps_setDomainStatus trivial).bind fun _ ↦
          (keeps_readScan x).bind fun _ ↦
            (keeps_discover x _).tryExcept
              (lenient.keeps_handleDiscoveryError (fun _ _ ↦ trivial) (fun _ _ ↦ trivial) cfg task)

/-! ### Threads -/

/-- Code that is started in a new session. -/
theorem follows_start {m : Py Response} (h : (authored author).Keeps m) :
    (Py.start m).Follows (authored author).discipline (fun _ _ ↦ True) () :=
  Program.follows_bind.2 (Program.Follows.mono (h .new () trivial holds_new) fun _ _ _ ↦ trivial)

/-- A request runs for its user. -/
theorem keeps_code (u : Unicode) {r : Request} (h : ∀ payload user, r = .create payload user →
      author = some user) (h' : ∀ d user, r = .trigger d user → author = some user) :
    (authored author).Keeps (r.code u) := by
  cases r with
  | create payload user =>
    have hauthor := h payload user rfl
    exact (lenient.keeps_create (fun _ _ hname ↦ ⟨hname, hauthor⟩)
      (fun _ _ ↦ ⟨hauthor, hauthor ▸ rfl⟩) (fun _ _ ↦ trivial) u payload).tryFinally_close
      lenient.close
  | trigger d user =>
    have hauthor := h' d user rfl
    exact (lenient.keeps_trigger (fun _ ↦ ⟨hauthor, hauthor ▸ rfl⟩) trivial).tryFinally_close
      lenient.close
  | delete d => exact (keeps_delete trivial).tryFinally_close lenient.close
  | recover => exact (lenient.keeps_recoverPendingJobs fun _ _ _ ↦ trivial).bind fun _ ↦
      keeps_pure _

end Authored

end AssetDiscovery
