import Mathlib.Data.List.Sort

/-!
# The migration runner

The types a backend declares its migrations with (`table.rs`, `registry.rs`), the rows of a ledger
(`ledger.rs`), their checksums (`checksum.rs`), and `runner.rs`: the snapshot of the ledgers, the
plan, the status, and the run that applies the plan step by step.
-/

namespace ExtendDb.Migrations

section

open List

/-- Whether the previous release may serve a catalog with the migration applied. -/
inductive Kind where
  | additive
  | breaking
deriving DecidableEq

inductive StoreKind where
  | catalog
  | data
  | account
deriving DecidableEq

def StoreKind.asStr : StoreKind → String
  | .catalog => "catalog"
  | .data => "data"
  | .account => "account"

inductive Body where
  | file (name text : String)
  | code (fingerprint : String)
deriving DecidableEq

structure StoreBody where
  store : StoreKind
  body : Body
deriving DecidableEq

/-- One backend's entry for one id. -/
inductive Migration where
  | applies (kind : Kind) (convergent : Bool) (bodies : List StoreBody)
  | notApplicable (reason : String)
deriving DecidableEq

namespace Migration

def kind : Migration → Kind
  | .applies kind _ _ => kind
  | .notApplicable _ => .additive

def convergent : Migration → Bool
  | .applies _ convergent _ => convergent
  | .notApplicable _ => true

def bodies : Migration → List StoreBody
  | .applies _ _ bodies => bodies
  | .notApplicable _ => []

def isApplicable : Migration → Bool
  | .applies _ _ _ => true
  | .notApplicable _ => false

def storeKinds (m : Migration) : List StoreKind :=
  [.catalog, .data, .account].filter
    fun kind => kind = .catalog || m.bodies.any fun b => b.store = kind

theorem catalog_mem_storeKinds (m : Migration) : StoreKind.catalog ∈ m.storeKinds := by
  simp [storeKinds]

theorem storeKinds_nodup (m : Migration) : m.storeKinds.Nodup :=
  List.Nodup.filter _ (by decide)

def bodyIn (m : Migration) (kind : StoreKind) : Option Body :=
  (m.bodies.find? fun b => b.store = kind).map (·.body)

end Migration

structure Released where
  id : Nat
  store : StoreKind
  checksum : String
deriving DecidableEq

/-- What happened when the id was recorded. -/
inductive Outcome where
  | applied
  | notApplicable
deriving DecidableEq

structure LedgerRow where
  id : Nat
  name : String
  kind : Kind
  checksum : String
  outcome : Outcome
  notes : String
  appliedAt : String
  appliedBy : String
deriving DecidableEq

/-- What a release before 1.0 left in the catalog's settings. -/
structure CatalogTraces where
  catalogVersion : Option String
  resourceTagMarker : Bool
deriving DecidableEq

def CatalogTraces.dottedVersion (traces : CatalogTraces) : Bool :=
  traces.catalogVersion.any fun v => v.toList.contains '.'

/-- A backend's migrations.  `fileChecksum` is SHA-256 of a text, and `deletesMarker` says whether
the body of an id in a kind of store deletes the `resource_tag_migration` settings row. -/
structure Table where
  backendName : String
  name : Nat → String
  migration : Nat → Migration
  released : List Released
  fileChecksum : String → String
  deletesMarker : Nat → StoreKind → Bool

namespace Table

variable (t : Table)

def concerning (kind : StoreKind) (n : Nat) : List Nat :=
  (List.range' 1 n).filter fun id => (t.migration id).storeKinds.contains kind

def releasedChecksums (id : Nat) (store : StoreKind) : List String :=
  (t.released.filter fun r => r.id = id && r.store = store).map (·.checksum)

def computedChecksum : Body → String
  | .file _ text => t.fileChecksum text
  | .code fingerprint => fingerprint

def recordedBody (bodies : List StoreBody) (kind : StoreKind) : Option StoreBody :=
  match bodies.find? (fun b => b.store = kind) with
  | some b => some b
  | none => if kind = .catalog then bodies.head? else none

def recordChecksum (id : Nat) (kind : StoreKind) : Option String :=
  match t.migration id with
  | .notApplicable reason =>
    if kind = .catalog then
      some ((t.releasedChecksums id .catalog).head?.getD (t.fileChecksum reason))
    else none
  | .applies _ _ bodies =>
    (recordedBody bodies kind).map fun b =>
      match b.body with
      | .file _ _ => (t.releasedChecksums id b.store).head?.getD (t.computedChecksum b.body)
      | .code _ => t.computedChecksum b.body

def acceptedChecksums (id : Nat) (kind : StoreKind) : List String :=
  match t.recordChecksum id kind with
  | none => []
  | some recorded =>
    recorded :: match t.migration id with
      | .notApplicable reason => t.releasedChecksums id .catalog ++ [t.fileChecksum reason]
      | .applies _ _ bodies =>
        match recordedBody bodies kind with
        | some ⟨store, .file name text⟩ =>
          t.releasedChecksums id store ++ [t.computedChecksum (.file name text)]
        | _ => []

variable {kind : StoreKind}

theorem recorded_mem_accepted {id checksum} (h : t.recordChecksum id kind = some checksum) :
    checksum ∈ t.acceptedChecksums id kind := by
  simp [acceptedChecksums, h]

theorem mem_concerning {n id} :
    id ∈ t.concerning kind n ↔ (1 ≤ id ∧ id ≤ n) ∧ kind ∈ (t.migration id).storeKinds := by
  simp only [concerning, mem_filter, mem_range'_1, contains_iff_mem]
  refine and_congr_left fun _ => ?_
  omega

theorem concerning_nodup (kind) (n) : (t.concerning kind n).Nodup :=
  List.Nodup.filter _ nodup_range'

theorem concerning_isPrefix (kind) {m n} (h : m ≤ n) :
    t.concerning kind m <+: t.concerning kind n := by
  refine .filter _ ⟨.range' (1 + m) (n - m), ?_⟩
  have happend := range'_append_1 (s := 1) (m := m) (n := n - m)
  rw [happend, Nat.add_sub_cancel' h]

/-- A ledger that stopped in the ascending order goes on in it when the missing ids are added in
ascending order. -/
theorem resume_isPrefix {recorded n} (h : recorded <+: t.concerning kind n) (k) :
    recorded ++ (t.concerning kind k).filter (fun id => !recorded.contains id) <+:
      t.concerning kind (max n k) := by
  have hrecorded := h.trans (t.concerning_isPrefix kind (Nat.le_max_left n k))
  have hk := t.concerning_isPrefix kind (Nat.le_max_right n k)
  rcases prefix_or_prefix_of_prefix hrecorded hk with hle | hle
  · obtain ⟨missing, hmissing⟩ := hle
    have hnodup := t.concerning_nodup kind k
    rw [← hmissing, nodup_append] at hnodup
    have hdrop : (recorded ++ missing).filter (fun id => !recorded.contains id) = missing := by
      rw [filter_append, filter_eq_nil_iff.mpr (by simp), nil_append, filter_eq_self]
      intro id hid
      have hnot : id ∉ recorded := fun hr => hnodup.2.2 id hr id hid rfl
      simpa using hnot
    rw [← hmissing, hdrop, hmissing]
    exact hk
  · have hnone : (t.concerning kind k).filter (fun id => !recorded.contains id) = [] := by
      rw [filter_eq_nil_iff]
      intro id hid
      have hin : id ∈ recorded := hle.subset hid
      simpa using hin
    rw [hnone, append_nil]
    exact hrecorded

end Table

end

structure StoreRef where
  kind : StoreKind
  name : String
deriving DecidableEq

/-! ## Status and errors -/

/-- A migration a store has no ledger row for. -/
structure Pending where
  id : Nat
  name : String
  store : StoreKind
  storeName : String
  kind : Kind
deriving DecidableEq

inductive CatalogStatus where
  | uninitialized
  | changed (id : Nat) (storeName recorded expected : String)
  | writtenByOlderRelease (trace : String)
  | aheadIncompatible (unknown : List (Nat × String))
  | needsAttention (items : List String)
  | behind (version : Option Nat) (pending : List Pending)
  | aheadCompatible (version : Nat) (unknown : List (Nat × String))
  | current (version : Nat)
deriving DecidableEq

structure AppliedStep where
  id : Nat
  name : String
  storeName : String
  outcome : Outcome
  notes : List String
deriving DecidableEq

structure RunReport where
  start : Option Nat
  stop : Option Nat
  applied : List AppliedStep
  notes : List String
deriving DecidableEq

inductive MigrationError where
  | store (message : String)
  | refused (message : String)
  | status (status : CatalogStatus)
  | stopped (error : MigrationError) (report : RunReport)
deriving DecidableEq

/-! ## The stores -/

/-- Every ledger and the catalog's settings.  `ran` lists the bodies that were committed, newest
first. -/
structure Deployment where
  ledger : StoreRef → List LedgerRow
  traces : CatalogTraces
  ran : List (StoreRef × Nat)

/-- A catalog store that holds nothing, and no ledger. -/
def Deployment.empty : Deployment where
  ledger := fun _ => []
  traces := ⟨none, false⟩
  ran := []

namespace Deployment

def ids (d : Deployment) (store : StoreRef) : List Nat := (d.ledger store).map (·.id)

def writeVersion (d : Deployment) (version : Nat) : Deployment :=
  { d with traces := { d.traces with catalogVersion := some (toString version) } }

def insertRow (d : Deployment) (store : StoreRef) (row : LedgerRow) : Deployment :=
  { d with ledger := Function.update d.ledger store (d.ledger store ++ [row]) }

def runBody (d : Deployment) (t : Table) (store : StoreRef) (id : Nat) : Deployment :=
  { d with
    traces := { d.traces with
      resourceTagMarker := d.traces.resourceTagMarker && !t.deletesMarker id store.kind }
    ran := (store, id) :: d.ran }

end Deployment

/-- What became of a call of `apply`. -/
inductive Fate where
  /-- The body is committed with its row, and the backend returns its notes. -/
  | commits (notes : List String) (appliedAt : String)
  /-- The body is committed with its row, and the run does not get to know. -/
  | commitsUnanswered (notes : List String) (appliedAt : String) (error : MigrationError)
  /-- Nothing is committed. -/
  | fails (error : MigrationError)

/-- What became of a call of `write_catalog_version`. -/
inductive VersionFate where
  | written
  | writtenUnanswered (error : MigrationError)
  | fails (error : MigrationError)

/-- The answers of a backend during one run.  The fates are numbered by the position of the step in
the plan. -/
structure Backend where
  storeNames : StoreKind → List String
  readError : Option MigrationError
  detect : Nat → StoreKind → Except MigrationError (List String)
  catalogIsEmpty : Except MigrationError Bool
  beforeFirstWrite : Option Nat → Nat → Except MigrationError (List String)
  apply : Nat → Fate
  writeCatalogVersion : Nat → VersionFate

/-! ## The snapshot -/

structure Snapshot where
  ledgers : List (StoreRef × List LedgerRow)
  traces : CatalogTraces

namespace Snapshot

section

variable (snap : Snapshot)

def catalog : StoreRef :=
  (snap.ledgers.head?.map Prod.fst).getD ⟨.catalog, ""⟩

def catalogRows : List LedgerRow :=
  (snap.ledgers.head?.map Prod.snd).getD []

def hasRow (store : StoreRef) (id : Nat) : Bool :=
  snap.ledgers.any fun l => l.1 = store && l.2.any fun r => r.id = id

def instances (kind : StoreKind) : List StoreRef :=
  (snap.ledgers.map Prod.fst).filter fun s => s.kind = kind

def putRow (store : StoreRef) (row : LedgerRow) : Snapshot :=
  { snap with
    ledgers := snap.ledgers.map fun l =>
      if l.1 = store then (l.1, l.2.filter (fun r => r.id ≠ row.id) ++ [row]) else l }

def initialized : Bool :=
  !snap.catalogRows.isEmpty || snap.traces.catalogVersion.isSome

end

end Snapshot

/-- A step the run will apply. -/
structure Planned where
  id : Nat
  store : StoreRef
  kind : Kind
  recorded : Bool
deriving DecidableEq

/-! ## The runner -/

/-- A binary: the number of `MigrationId::LATEST` and the release it records. -/
structure Runner where
  latest : Nat
  appliedBy : String
  carries_baseline : 1 ≤ latest

namespace Runner

variable (r : Runner) (t : Table) (b : Backend)

/-- `MigrationId::ALL`. -/
def all : List Nat := List.range' 1 r.latest

/-- `MigrationId::from_number(id).is_some()`. -/
def carries (id : Nat) : Bool := 1 ≤ id && id ≤ r.latest

def readKinds : List StoreKind :=
  [.catalog, .data, .account].filter
    fun kind => kind = .catalog || r.all.any fun id => (t.migration id).storeKinds.contains kind

def stores : List StoreRef :=
  (r.readKinds t).flatMap fun kind =>
    ((b.storeNames kind).insertionSort (· ≤ ·)).map fun name => ⟨kind, name⟩

def read (d : Deployment) : Except MigrationError Snapshot :=
  if (b.storeNames .catalog).length ≠ 1 then
    .error (.store (t.backendName ++ " reported " ++ toString (b.storeNames .catalog).length ++
      " catalog stores; expected one"))
  else
    match b.readError with
    | some error => .error error
    | none =>
      .ok {
        ledgers := (r.stores t b).map fun store => (store, d.ledger store)
        traces := d.traces }

def complete (snap : Snapshot) (id : Nat) : Bool :=
  (t.migration id).storeKinds.all fun kind =>
    (snap.instances kind).all fun store => snap.hasRow store id

/-- `Runner::version_of`: the loop over the numbers stops at the first that breaks. -/
def versionOf (snap : Snapshot) : Option Nat :=
  if snap.catalogRows.isEmpty then none
  else
    let highest := (snap.catalogRows.map (·.id)).foldl max 0
    some ((List.range' 1 highest).takeWhile fun number =>
      snap.hasRow snap.catalog number && (!r.carries number || complete t snap number)).length

def storesOf (snap : Snapshot) (id : Nat) : List StoreRef :=
  (t.migration id).storeKinds.flatMap snap.instances

/-- Whether a reconverge runs an id again. -/
def reruns (reconverge : Bool) (id : Nat) : Bool :=
  reconverge && (t.migration id).convergent && (t.migration id).isApplicable

section

variable (snap : Snapshot)

def planned (target : Nat) (reconverge : Bool) : List Planned :=
  (r.all.filter fun id => id ≤ target).flatMap fun id =>
    ((storesOf t snap id).filter
      fun store => reruns t reconverge id || !snap.hasRow store id).map fun store =>
        { id, store, kind := (t.migration id).kind, recorded := snap.hasRow store id }

def changed : Option CatalogStatus :=
  (snap.ledgers.flatMap fun l => l.2.map fun row => (l.1, row)).findSome? fun (store, row) =>
    if r.carries row.id && !(t.acceptedChecksums row.id store.kind).contains row.checksum then
      some (.changed row.id store.name row.checksum
        ((t.acceptedChecksums row.id store.kind).head?.getD
          ("no body for the " ++ store.kind.asStr ++ " store")))
    else none

def olderReleaseTrace : Option String :=
  if !snap.hasRow snap.catalog 1 then none
  else if snap.traces.dottedVersion then
    some ("catalog_version is " ++ snap.traces.catalogVersion.getD "")
  else if snap.traces.resourceTagMarker then
    some "the resource_tag_migration settings row exists"
  else none

def unknown : List (Nat × String × Kind) :=
  (snap.catalogRows.filter fun row => r.latest < row.id).map fun row => (row.id, row.name, row.kind)

def forbidding (reconverge : Bool) : Option CatalogStatus :=
  match r.changed t snap with
  | some status => some status
  | none =>
    match reconverge, olderReleaseTrace snap with
    | false, some trace => some (.writtenByOlderRelease trace)
    | _, _ =>
      if (r.unknown snap).any (fun u => u.2.2 = .breaking) then
        some (.aheadIncompatible ((r.unknown snap).map fun u => (u.1, u.2.1)))
      else none

end

def detect : List Planned → List (Nat × StoreKind) → Except MigrationError (List String)
  | [], _ => .ok []
  | step :: steps, seen =>
    if seen.contains (step.id, step.store.kind) then detect steps seen
    else
      match (t.migration step.id).bodyIn step.store.kind with
      | some (.code _) =>
        match b.detect step.id step.store.kind with
        | .error e => .error e
        | .ok found =>
          match detect steps ((step.id, step.store.kind) :: seen) with
          | .error e => .error e
          | .ok items =>
            .ok (found.map (fun item =>
              "migration " ++ toString step.id ++ " " ++ t.name step.id ++ ": " ++ item) ++ items)
      | _ => detect steps ((step.id, step.store.kind) :: seen)

def statusOf (snap : Snapshot) : Except MigrationError CatalogStatus :=
  if !snap.initialized then .ok .uninitialized
  else
    match r.forbidding t snap false with
    | some status => .ok status
    | none =>
      let steps := r.planned t snap r.latest false
      match detect t b steps [] with
      | .error e => .error e
      | .ok items =>
        if !items.isEmpty then .ok (.needsAttention items)
        else if !steps.isEmpty then
          .ok (.behind (r.versionOf t snap) (steps.map fun s =>
            ⟨s.id, t.name s.id, s.store.kind, s.store.name, s.kind⟩))
        else if !(r.unknown snap).isEmpty then
          .ok (.aheadCompatible ((r.versionOf t snap).getD 0)
            ((r.unknown snap).map fun u => (u.1, u.2.1)))
        else .ok (.current ((r.versionOf t snap).getD 0))

def status (d : Deployment) : Except MigrationError CatalogStatus :=
  match r.read t b d with
  | .error e => .error e
  | .ok snap => r.statusOf t b snap

/-! ## A run -/

structure Progress where
  snap : Snapshot
  deployment : Deployment
  applied : List AppliedStep

def bodyOf (step : Planned) : Outcome × Option Body :=
  if (t.migration step.id).isApplicable then
    (.applied, (t.migration step.id).bodyIn step.store.kind)
  else (.notApplicable, none)

def rowOf (step : Planned) (checksum : String) : LedgerRow where
  id := step.id
  name := t.name step.id
  kind := (t.migration step.id).kind
  checksum := checksum
  outcome := (bodyOf t step).1
  notes := ""
  appliedAt := ""
  appliedBy := r.appliedBy

def after (snap : Snapshot) (step : Planned) (checksum : String) : Snapshot :=
  if step.recorded then snap else snap.putRow step.store (r.rowOf t step checksum)

def commit (p : Progress) (step : Planned) (checksum : String) (notes : List String)
    (appliedAt : String) : Deployment :=
  let d := if (bodyOf t step).2.isSome then p.deployment.runBody t step.store step.id
    else p.deployment
  let d := if step.recorded then d else d.insertRow step.store { r.rowOf t step checksum with
      notes := "\n".intercalate notes, appliedAt }
  if step.store.kind = .catalog then
    d.writeVersion ((r.versionOf t (r.after t p.snap step checksum)).getD 0)
  else d

def applyStep (i : Nat) (step : Planned) (p : Progress) : Except MigrationError Unit × Progress :=
  match t.recordChecksum step.id step.store.kind with
  | none =>
    (.error (.store ("migration " ++ toString step.id ++ " " ++ t.name step.id ++
      " declares no body for the " ++ step.store.kind.asStr ++ " store")), p)
  | some checksum =>
    match b.apply i with
    | .fails e => (.error e, p)
    | .commitsUnanswered notes appliedAt e =>
      (.error e, { p with deployment := r.commit t p step checksum notes appliedAt })
    | .commits notes appliedAt =>
      (.ok (), {
        snap := r.after t p.snap step checksum
        deployment := r.commit t p step checksum notes appliedAt
        applied := p.applied ++
          [⟨step.id, t.name step.id, step.store.name, (bodyOf t step).1, notes⟩] })

def writeVersionAfter (i : Nat) (step : Planned) (next : Option Planned) (p : Progress) :
    Except MigrationError Unit × Progress :=
  if next.all (fun n => n.id ≠ step.id) && decide (step.store.kind ≠ .catalog) then
    match r.versionOf t p.snap with
    | none => (.ok (), p)
    | some version =>
      match b.writeCatalogVersion i with
      | .written => (.ok (), { p with deployment := p.deployment.writeVersion version })
      | .writtenUnanswered e =>
        (.error e, { p with deployment := p.deployment.writeVersion version })
      | .fails e => (.error e, p)
  else (.ok (), p)

def applySteps : Nat → List Planned → Progress → Except MigrationError Unit × Progress
  | _, [], p => (.ok (), p)
  | i, step :: steps, p =>
    match r.applyStep t b i step p with
    | (.error e, p) => (.error e, p)
    | (.ok (), p) =>
      match r.writeVersionAfter t b i step steps.head? p with
      | (.error e, p) => (.error e, p)
      | (.ok (), p) => applySteps (i + 1) steps p

def refuseUnknown (snap : Snapshot) : Except MigrationError Unit :=
  match snap.catalogRows.find? (fun row => !r.carries row.id) with
  | some row =>
    .error (.refused ("the catalog has migration " ++ toString row.id ++ " " ++ row.name ++
      ", which this binary does not carry; reconverge with the binary that applied it"))
  | none => .ok ()

def skipped (snap : Snapshot) (target : Nat) : List String :=
  ((r.all.filter fun id => id ≤ target).filter fun id =>
    !(t.migration id).convergent && (storesOf t snap id).any fun s => snap.hasRow s id).map
    fun id => "Skipped " ++ toString id ++ " " ++ t.name id ++ ": it is not convergent on " ++
      t.backendName ++ ", so it does not run again over data written since it was applied"

/-- The items `run` looks for before the first write: none in a catalog store without tables. -/
def detectBefore (steps : List Planned) : Except MigrationError (List String) :=
  match b.catalogIsEmpty with
  | .error e => .error e
  | .ok true => .ok []
  | .ok false => detect t b steps []

def report (start : Option Nat) (prepared : Bool) (notes : List String)
    (result : Except MigrationError Unit × Progress) : Except MigrationError RunReport :=
  let report : RunReport :=
    ⟨start, r.versionOf t result.2.snap, result.2.applied, notes⟩
  match result.1 with
  | .ok () => .ok report
  | .error e =>
    if report.applied.isEmpty && !prepared then .error e else .error (.stopped e report)

/-- The refusals of `run` before its plan, and the notes of what a reconverge skips. -/
def admission (snap : Snapshot) (target : Nat) (reconverge : Bool) :
    Except MigrationError (List String) :=
  match r.forbidding t snap reconverge with
  | some status => .error (.status status)
  | none =>
    if reconverge then
      match r.refuseUnknown snap with
      | .error e => .error e
      | .ok () => .ok (r.skipped t snap target)
    else .ok []

def run (target : Nat) (reconverge : Bool) (d : Deployment) :
    Except MigrationError RunReport × Deployment :=
  match r.read t b d with
  | .error e => (.error e, d)
  | .ok snap =>
    match r.admission t snap target reconverge with
    | .error e => (.error e, d)
    | .ok skipped =>
      let steps := r.planned t snap target reconverge
      if steps.isEmpty then
        (.ok ⟨r.versionOf t snap, r.versionOf t snap, [], skipped⟩, d)
      else
        match detectBefore t b steps with
        | .error e => (.error e, d)
        | .ok items =>
          if !items.isEmpty then (.error (.status (.needsAttention items)), d)
          else
            match b.beforeFirstWrite (r.versionOf t snap) target with
            | .error e => (.error e, d)
            | .ok notes =>
              let result := r.applySteps t b 0 steps ⟨snap, d, []⟩
              (r.report t (r.versionOf t snap) (!notes.isEmpty) (notes ++ skipped) result,
                result.2.deployment)

def migrate (d : Deployment) : Except MigrationError RunReport × Deployment :=
  r.run t b r.latest false d

def reconverge (d : Deployment) : Except MigrationError RunReport × Deployment :=
  r.run t b r.latest true d

end Runner

end ExtendDb.Migrations
