import Mathlib.Algebra.GroupWithZero.Nat
import Mathlib.Data.List.Nodup
import Mathlib.Algebra.BigOperators.Group.List.Basic

/-!
# The load of a restore job

A restore record is owned by one job at a time.
-/

namespace ExtendDb

/-- How a backend writes a batch: SQLite and MongoDB in a transaction, Cassandra by upserts. -/
inductive RestoreBackend where
  | transactional
  | upserting
deriving DecidableEq

structure LoadLimits where
  chunkItems : Nat
  chunkBytes : Nat
  batchItems : Nat
  batchBytes : Nat
deriving DecidableEq

def LoadLimits.released : LoadLimits where
  chunkItems := 1000
  chunkBytes := 32 * 1024 * 1024
  batchItems := 10000
  batchBytes := 32 * 1024 * 1024

structure FilePass (α : Type) where
  file : Nat
  items : List α
  /-- The stream ends with `Ok(None)` after the items. -/
  verified : Bool
deriving DecidableEq

structure FileLoad (α : Type) where
  pass : FilePass α
  /-- The number of the pass among all passes of the restore. -/
  number : Nat
  /-- Items handed to the backend, those before the start included. -/
  sent : Nat
  /-- Items the record names as applied. -/
  applied : Nat
  /-- The end of the stream was reached. -/
  ended : Bool
  /-- Progress was written in this pass. -/
  wrote : Bool
  /-- The size of the upserted batch whose progress is not written yet. -/
  batch : Nat
  /-- The upserts of that batch that are not acknowledged. -/
  inFlight : List α
deriving DecidableEq

inductive LoadPhase (α : Type) where
  | before (file : Nat)
  | loading (load : FileLoad α)
  | counted
deriving DecidableEq

structure RestoreJob (α : Type) where
  /-- Per file, what an earlier run recorded as applied. -/
  progress : List (Option Nat)
  phase : LoadPhase α
deriving DecidableEq

inductive RestoreStatus where
  | running
  | done
  | failed
deriving DecidableEq

structure RestoreState (α : Type) where
  status : RestoreStatus
  /-- `file_index` and `items_applied`. -/
  recorded : Option (Nat × Nat)
  /-- The base rows, each with the number of the pass it was read in. -/
  rows : List (α × Nat)
  job : Option (RestoreJob α)
  /-- Upserts of jobs that ended, which can still land. -/
  stray : List (α × Nat)
  passes : Nat
  /-- The passes that reached the verified end of their stream. -/
  completed : List Nat
deriving DecidableEq

def RestoreState.initial (α : Type) : RestoreState α where
  status := .running
  recorded := none
  rows := []
  job := none
  stray := []
  passes := 0
  completed := []

def recordedSlot (recorded : Option (Nat × Nat)) (i count : Nat) : Option Nat :=
  match recorded with
  | none => none
  | some (last, applied) =>
    if i < last then some count else if i = last then some applied else none

def progressFromRecords (recorded : Option (Nat × Nat)) (counts : List Nat) : List (Option Nat) :=
  counts.mapIdx (recordedSlot recorded)

def startAt (slot : Option Nat) (count : Nat) : Option Nat :=
  match slot with
  | none => some 0
  | some n => if count ≤ n then none else some n

/-- What the environment and the job do, as far as later conditions name it. -/
inductive RestoreEvent where
  /-- A first job, or a takeover, starts from the record. -/
  | claim
  /-- The owner ends without a status write: a crash, a shutdown, a lost claim. -/
  | crash
  | fail
  | work
deriving DecidableEq

variable {α κ : Type}

def slice (items : List α) (start stop : Nat) : List α := (items.take stop).drop start

/-- Whether the bounds close a run of items. -/
def closes (size : α → Nat) (maxItems maxBytes : Nat) (items : List α) : Bool :=
  maxItems ≤ items.length || maxBytes ≤ (items.map size).sum

def upsertRow [DecidableEq κ] (key : α → κ) (rows : List (α × Nat)) (row : α × Nat) :
    List (α × Nat) :=
  rows.filter (fun r => key r.1 ≠ key row.1) ++ [row]

def Lands [DecidableEq κ] (key : α → κ) (row : α × Nat) (rows rows' : List (α × Nat)) : Prop :=
  rows' = upsertRow key rows row ∨ rows' = rows ∧ ∃ r ∈ rows, key r.1 = key row.1

/-- The upserts of a job that have not landed, with the pass they are of. -/
def RestoreJob.unlanded (job : RestoreJob α) : List (α × Nat) :=
  match job.phase with
  | .loading load => load.inFlight.map (·, load.number)
  | _ => []

/-- Every upsert that no job waits for once the owner has ended. -/
def RestoreState.abandoned (s : RestoreState α) : List (α × Nat) :=
  s.stray ++ (s.job.map RestoreJob.unlanded).getD []

structure ItemSizes (α : Type) where
  line : α → Nat
  text : α → Nat

section

variable [DecidableEq κ] (key : α → κ) (sizes : ItemSizes α) (backend : RestoreBackend)
  (limits : LoadLimits) (counts : List Nat) (reads : FilePass α → Prop)

def ChunkFull (load : FileLoad α) (n : Nat) : Prop :=
  closes sizes.line limits.chunkItems limits.chunkBytes
      (slice load.pass.items load.sent (load.sent + n)) = true ∧
    ∀ m < n, closes sizes.line limits.chunkItems limits.chunkBytes
      (slice load.pass.items load.sent (load.sent + m)) = false

def BatchFull (load : FileLoad α) (n : Nat) : Prop :=
  0 < n ∧ load.applied + n ≤ load.sent ∧
    (∀ m < n, closes sizes.text limits.batchItems limits.batchBytes
      (slice load.pass.items load.applied (load.applied + m)) = false) ∧
    (closes sizes.text limits.batchItems limits.batchBytes
        (slice load.pass.items load.applied (load.applied + n)) = true ∨
      load.ended = true ∧ load.applied + n = load.sent)

def FileLoad.batchItems (load : FileLoad α) (n : Nat) : List α :=
  slice load.pass.items load.applied (load.applied + n)

inductive RestoreStep : RestoreEvent → RestoreState α → RestoreState α → Prop where
  | claim {s} (hrunning : s.status = .running) : RestoreStep .claim s { s with
        job := some ⟨progressFromRecords s.recorded counts, .before 0⟩
        stray := s.abandoned }
  | crash {s} : RestoreStep .crash s { s with job := none, stray := s.abandoned }
  -- the FAILED write matches the running record under the job's generation
  | fail {s job} (hjob : s.job = some job) (hrunning : s.status = .running) :
      RestoreStep .fail s { s with status := .failed, job := none, stray := s.abandoned }
  | skip {s progress i count slot} (hjob : s.job = some ⟨progress, .before i⟩)
      (hcount : counts[i]? = some count) (hslot : progress[i]? = some slot)
      (hcomplete : startAt slot count = none) :
      RestoreStep .work s { s with job := some ⟨progress, .before (i + 1)⟩ }
  | openFile {s progress i count start slot} (hjob : s.job = some ⟨progress, .before i⟩)
      (hcount : counts[i]? = some count) (hslot : progress[i]? = some slot)
      (hstart : startAt slot count = some start) {pass} (hfile : pass.file = i)
      (hreads : reads pass) : RestoreStep .work s { s with
        job := some ⟨progress, .loading ⟨pass, s.passes, start, start, false, false, 0, []⟩⟩
        passes := s.passes + 1 }
  | sendChunk {s progress load n} (hjob : s.job = some ⟨progress, .loading load⟩)
      (hopen : load.ended = false) (hn : load.sent + n ≤ load.pass.items.length)
      (hfull : ChunkFull sizes limits load n) : RestoreStep .work s { s with
        job := some ⟨progress, .loading { load with sent := load.sent + n }⟩ }
  -- the last chunk is handed over only after the stream's own checks passed
  | endStream {s progress load} (hjob : s.job = some ⟨progress, .loading load⟩)
      (hopen : load.ended = false) (hverified : load.pass.verified = true)
      (hsent : load.sent ≤ load.pass.items.length) : RestoreStep .work s { s with
        job := some ⟨progress, .loading { load with sent := load.pass.items.length, ended := true }⟩
        completed := load.number :: s.completed }
  -- inserts and progress under the claim; an insert of a key that is there is refused
  | commitBatch {s progress load n} (hbackend : backend = .transactional)
      (hrunning : s.status = .running) (hjob : s.job = some ⟨progress, .loading load⟩)
      (hfull : BatchFull sizes limits load n)
      (hfresh : ((s.rows.map Prod.fst ++ load.batchItems n).map key).Nodup) :
      RestoreStep .work s { s with
        recorded := some (load.pass.file, load.applied + n)
        rows := s.rows ++ (load.batchItems n).map (·, load.number)
        job := some ⟨progress, .loading { load with applied := load.applied + n, wrote := true }⟩ }
  -- the claim is confirmed, then the upserts of the batch are sent
  | flushBatch {s progress load n} (hbackend : backend = .upserting)
      (hrunning : s.status = .running) (hjob : s.job = some ⟨progress, .loading load⟩)
      (hidle : load.batch = 0) (hfull : BatchFull sizes limits load n) :
      RestoreStep .work s { s with
        job := some ⟨progress, .loading { load with batch := n, inFlight := load.batchItems n }⟩ }
  | land {s progress load sooner later a rows} (hjob : s.job = some ⟨progress, .loading load⟩)
      (hin : load.inFlight = sooner ++ a :: later) (hlands : Lands key (a, load.number) s.rows rows) :
      RestoreStep .work s { s with
        rows := rows
        job := some ⟨progress, .loading { load with inFlight := sooner ++ later }⟩ }
  | landStray {s sooner later row rows} (hin : s.stray = sooner ++ row :: later)
      (hlands : Lands key row s.rows rows) :
      RestoreStep .work s { s with rows := rows, stray := sooner ++ later }
  -- every upsert of the batch is acknowledged: the progress, under the claim
  | writeProgress {s progress load} (hrunning : s.status = .running)
      (hjob : s.job = some ⟨progress, .loading load⟩) (hbatch : 0 < load.batch)
      (hlanded : load.inFlight = []) : RestoreStep .work s { s with
        recorded := some (load.pass.file, load.applied + load.batch)
        job := some ⟨progress,
          .loading { load with applied := load.applied + load.batch, wrote := true, batch := 0 }⟩ }
  -- a file with no item to write still records its progress
  | emptyBatch {s progress load} (hrunning : s.status = .running)
      (hjob : s.job = some ⟨progress, .loading load⟩) (hended : load.ended = true)
      (happlied : load.applied = load.sent) (hwrote : load.wrote = false) :
      RestoreStep .work s { s with
        recorded := some (load.pass.file, load.applied)
        job := some ⟨progress, .loading { load with wrote := true }⟩ }
  | closeFile {s progress load} (hjob : s.job = some ⟨progress, .loading load⟩)
      (hended : load.ended = true) (happlied : load.applied = load.sent)
      (hwrote : load.wrote = true) :
      RestoreStep .work s { s with job := some ⟨progress, .before (load.pass.file + 1)⟩ }
  | count {s progress} (hjob : s.job = some ⟨progress, .before counts.length⟩)
      (hcount : s.rows.length = counts.sum) :
      RestoreStep .work s { s with job := some ⟨progress, .counted⟩ }
  | finish {s progress} (hrunning : s.status = .running) (hjob : s.job = some ⟨progress, .counted⟩) :
      RestoreStep .work s { s with status := .done, job := none }

/-- The states of the runs from an empty target. -/
def RestoreReachable (s : RestoreState α) : Prop :=
  Relation.ReflTransGen
    (fun s s' => ∃ event, RestoreStep key sizes backend limits counts reads event s s')
    (RestoreState.initial α) s

end

end ExtendDb
