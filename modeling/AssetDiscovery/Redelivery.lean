import AssetDiscovery.Alone.Runs

/-!
# Crashes and redeliveries

A message is acknowledged late, so a worker that dies leaves it to the next one, and a recovery may
publish the scan once more. The guard against processing a scan twice looks at its status only, and
the records are stored in a commit before the one that makes the scan COMPLETED. A worker that dies
between the two leaves records that the next delivery stores once more.

`Incident` is one thing that can happen to a scan: a delivery or a recovery, either of which may
stop after any number of operations. `stored_once` says that a COMPLETED scan has the records of a
single answer, as long as no delivery finds the scan unfinished and records of it stored.
-/

set_option autoImplicit false

namespace AssetDiscovery

open Effect

/-- What can happen to a scan while nothing else goes on. -/
inductive Incident where
  /-- A worker takes a message of the scan, and dies after `n` operations unless it ends before. -/
  | deliver (retries : ℕ) (lookups : AssetType → Lookup) (n : ℕ) (ω : ℕ → Env)
  /-- An API process starts, and dies after `n` operations unless its recovery ends before. -/
  | recover (n : ℕ) (ω : ℕ → Env)

/-- The state that an incident leaves behind. -/
def Incident.after (cfg : Settings) (u : Unicode) (x : Id) (s : Store) : Incident → Store
  | deliver retries lookups n ω =>
    (Py.start (runDiscoveryScan cfg ⟨x, retries⟩)).stopAfter (serveAlone true lookups) n ω s
  | recover n ω =>
    (Py.start (Request.recover.code u)).stopAfter (serveAlone true fun _ ↦ .answer []) n ω s

/-- The states that a sequence of incidents leads through. -/
def aftermath (cfg : Settings) (u : Unicode) (x : Id) (s : Store) (e : ℕ → Incident) : ℕ → Store
  | 0 => s
  | k + 1 => (e k).after cfg u x (aftermath cfg u x s e k)

/-- A delivery that is found with its scan COMPLETED has changed nothing, or has stored its records
and nothing else. -/
theorem Interim.of_completed {lookups : AssetType → Lookup} {x d : Id} {db db' : Database}
    (h : Interim lookups x db db') (hd : (db'.board []).Has x d .completed) :
    db' = db ∨ ∃ rs, (∃ d, (db.board []).HasActive x d) ∧ answers lookups = .ok rs ∧
      db'.ledger.records x = db.ledger.records x ++ rs := by
  cases h with
  | untouched => exact Or.inl rfl
  | working _ _ hst => exact absurd hd (hst d)
  | stored hx hrs hrecords => exact Or.inr ⟨_, hx, hrs, hrecords⟩

namespace Incident

variable (cfg : Settings) (u : Unicode) (x : Id) {s : Store}

/-- Wherever a delivery is stopped, the database is as `Interim` says. -/
theorem after_deliver (hs : s.Free) (retries : ℕ) (lookups : AssetType → Lookup) (n : ℕ)
    (ω : ℕ → Env) :
    ((deliver retries lookups n ω).after cfg u x s).Free ∧
      Interim lookups x s.db ((deliver retries lookups n ω).after cfg u x s).db := by
  let c : Conditions := { lookups := some lookups, keeps := Interim lookups x s.db }
  have halone : Py.Alone c
      (fun _ _ db' q' ↦ Processed cfg lookups ⟨x, retries⟩ s.db s.trail db' q')
      (runDiscoveryScan cfg ⟨x, retries⟩) .new s.db s.trail :=
    Py.alone_runDiscoveryScan rfl rfl fun _ h ↦ h
  exact halone.stopAfter hs .untouched ω n

/-- Wherever a recovery is stopped, the stored records are as before, and no scan has become
COMPLETED. -/
theorem after_recover (hs : s.Free) (n : ℕ) (ω : ℕ → Env) :
    let s' := (recover n ω).after cfg u x s
    s'.Free ∧ s'.db.ledger = s.db.ledger ∧
      ∀ d, s'.board.Has x d .completed → s.board.Has x d .completed := by
  let c : Conditions :=
    { lookups := some fun _ ↦ .answer []
      keeps := fun db' ↦ db'.ledger = s.db.ledger ∧
        ∀ d, (db'.board []).Has x d .completed → s.board.Has x d .completed }
  have halone : Py.Alone c (fun a _ db' q' ↦ a = .ok .done ∧ Recovered s.db s.trail db' q')
      (Request.recover.code u) .new s.db s.trail := by
    refine Py.alone_recover rfl fun db' hboard hledger ↦ ⟨hledger, fun d hd ↦ ?_⟩
    rw [hboard] at hd
    rcases Board.has_reset.1 hd with ⟨-, hst, -⟩ | ⟨-, hd⟩
    · exact absurd hst (by simp)
    · exact hd
  exact halone.stopAfter hs ⟨rfl, fun _ h ↦ h⟩ ω n

end Incident

/-- After each incident no lock is held. -/
theorem aftermath_free (cfg : Settings) (u : Unicode) (x : Id) {s : Store} (hs : s.Free)
    (e : ℕ → Incident) (k : ℕ) : (aftermath cfg u x s e k).Free := by
  induction k with
  | zero => exact hs
  | succ k ih =>
    rw [aftermath]
    cases e k with
    | deliver retries lookups n ω =>
      exact (Incident.after_deliver cfg u x ih retries lookups n ω).1
    | recover n ω => exact (Incident.after_recover cfg u x ih n ω).1

section Once

variable {cfg : Settings} {u : Unicode} {x : Id} {s : Store} {e : ℕ → Incident}

/-- **A COMPLETED scan has the records of one single answer**, each stored once, if every delivery
that found the scan unfinished found no record of it. -/
theorem stored_once (hs : s.Free) (hstart : ∀ d, ¬ s.board.Has x d .completed) (k : ℕ)
    (hclean : ∀ j < k, ∀ retries lookups n ω, e j = .deliver retries lookups n ω →
      ∀ d, (aftermath cfg u x s e j).board.HasActive x d →
        (aftermath cfg u x s e j).db.assetsOf x = [])
    {d : Id} (hdone : (aftermath cfg u x s e k).board.Has x d .completed) :
    ∃ j < k, ∃ retries lookups n ω, e j = .deliver retries lookups n ω ∧
      answers lookups =
        .ok (((aftermath cfg u x s e k).db.assetsOf x).map Database.recordOf) := by
  induction k generalizing d with
  | zero => exact absurd hdone (hstart d)
  | succ k ih =>
    have hfree := aftermath_free cfg u x hs e k
    -- an incident that changes nothing about a COMPLETED scan leaves it with the answer it had
    have hkept : ∀ d, (aftermath cfg u x s e k).board.Has x d .completed →
        (aftermath cfg u x s e (k + 1)).db.ledger.records x =
          (aftermath cfg u x s e k).db.ledger.records x →
        ∃ j < k + 1, ∃ retries lookups n ω, e j = .deliver retries lookups n ω ∧
          answers lookups =
            .ok (((aftermath cfg u x s e (k + 1)).db.assetsOf x).map Database.recordOf) := by
      intro d hd hrecords
      obtain ⟨j, hj, retries, lookups, n, ω, hej, hanswers⟩ :=
        ih (fun j hj ↦ hclean j (by omega)) hd
      exact ⟨j, by omega, retries, lookups, n, ω, hej, hanswers.trans (congrArg _ hrecords.symm)⟩
    cases hek : e k with
    | recover n ω =>
      obtain ⟨-, hledger, hcompleted⟩ := Incident.after_recover cfg u x hfree n ω
      rw [aftermath, hek] at hdone
      refine hkept d (hcompleted d hdone) ?_
      rw [aftermath, hek, hledger]
    | deliver retries lookups n ω =>
      have hinterim := (Incident.after_deliver cfg u x hfree retries lookups n ω).2
      have hafter : aftermath cfg u x s e (k + 1) =
          (Incident.deliver retries lookups n ω).after cfg u x (aftermath cfg u x s e k) := by
        rw [aftermath, hek]
      rw [← hafter] at hinterim
      rcases hinterim.of_completed hdone with hsame | ⟨rs, ⟨d', hactive⟩, hrs, hrecords⟩
      · rw [Store.board, hsame] at hdone
        exact hkept d hdone (by rw [hsame])
      · have hnone : (aftermath cfg u x s e k).db.ledger.records x = [] := by
          have hassets := hclean k (by omega) retries lookups n ω hek d' hactive
          show ((aftermath cfg u x s e k).db.assetsOf x).map Database.recordOf = []
          rw [hassets, List.map_nil]
        rw [hnone, List.nil_append] at hrecords
        exact ⟨k, by omega, retries, lookups, n, ω, hek, hrs.trans (congrArg _ hrecords.symm)⟩

end Once

/-! ### Two sequences of incidents -/

/-- One address, and nothing else. -/
def oneAddress (type : AssetType) : Lookup :=
  if type = .a then .answer [⟨"192.0.2.1", "", ""⟩] else .noAnswer

/-- The scan that awaits its delivery is not COMPLETED. -/
theorem not_completed_awaiting (d : Id) : ¬ Store.awaiting.board.Has 1 d .completed := by
  intro hd
  have hpending : Store.awaiting.board.Has 1 0 .pending := rfl
  exact absurd (hd.unique hpending).2 nofun

/-- A worker dies after its lookups, an API process starts, and the scan is delivered again. -/
def crashBeforeStoring (k : ℕ) : Incident :=
  [.deliver 0 oneAddress 14 fun _ ↦ {}, .recover 40 fun _ ↦ {},
    .deliver 0 oneAddress 40 fun _ ↦ {}].getD k (.recover 0 fun _ ↦ {})

/-- `stored_once` for a worker that dies before it has stored anything. -/
theorem stored_once_crashBeforeStoring :
    let s := aftermath {} .plain 1 Store.awaiting crashBeforeStoring 3
    s.board.Has 1 0 .completed ∧ ∃ j < 3, ∃ retries lookups n ω,
      crashBeforeStoring j = .deliver retries lookups n ω ∧
        answers lookups = .ok ((s.db.assetsOf 1).map Database.recordOf) := by
  have hdone :
      (aftermath {} .plain 1 Store.awaiting crashBeforeStoring 3).board.Has 1 0 .completed := by
    show (aftermath {} .plain 1 Store.awaiting crashBeforeStoring 3).board.scans 1 =
      some (0, .completed)
    decide +kernel
  have hclean : ∀ j < 3,
      (aftermath {} .plain 1 Store.awaiting crashBeforeStoring j).db.assetsOf 1 = [] := by
    decide +kernel
  exact ⟨hdone, stored_once Store.free_awaiting not_completed_awaiting 3
    (fun j hj _ _ _ _ _ _ _ ↦ hclean j hj) hdone⟩

/-- A worker dies after the commit of its records, and the scan is delivered again. -/
def crashAfterStoring (k : ℕ) : Incident :=
  [.deliver 0 oneAddress 15 fun _ ↦ {}, .deliver 0 oneAddress 40 fun _ ↦ {}].getD k
    (.recover 0 fun _ ↦ {})

/-- The second delivery stores the record a second time. -/
theorem not_stored_once :
    ¬ ∀ (s : Store) (e : ℕ → Incident), s.Free → (∀ d, ¬ s.board.Has 1 d .completed) →
      s.db.assetsOf 1 = [] → ∀ k d, (aftermath {} .plain 1 s e k).board.Has 1 d .completed →
        ∃ j < k, ∃ retries lookups n ω, e j = .deliver retries lookups n ω ∧
          answers lookups =
            .ok (((aftermath {} .plain 1 s e k).db.assetsOf 1).map Database.recordOf) := by
  intro h
  have hdone :
      (aftermath {} .plain 1 Store.awaiting crashAfterStoring 2).board.Has 1 0 .completed := by
    show (aftermath {} .plain 1 Store.awaiting crashAfterStoring 2).board.scans 1 =
      some (0, .completed)
    decide +kernel
  obtain ⟨j, hj, retries, lookups, n, ω, hej, hanswers⟩ :=
    h Store.awaiting crashAfterStoring Store.free_awaiting not_completed_awaiting rfl 2 0
      hdone
  have hstored : ((aftermath {} .plain 1 Store.awaiting crashAfterStoring 2).db.assetsOf 1).map
      Database.recordOf = [(.a, "192.0.2.1"), (.a, "192.0.2.1")] := by
    decide +kernel
  obtain rfl : oneAddress = lookups := by
    obtain rfl | rfl : j = 0 ∨ j = 1 := by omega
    · exact (Incident.deliver.inj hej).2.1
    · exact (Incident.deliver.inj hej).2.1
  have honce : answers oneAddress = .ok [(.a, "192.0.2.1")] := by decide +kernel
  rw [hstored, honce] at hanswers
  exact absurd (congrArg List.length (Except.ok.inj hanswers)) (by decide)

end AssetDiscovery
