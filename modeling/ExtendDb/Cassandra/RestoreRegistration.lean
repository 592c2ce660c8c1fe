import ExtendDb.Cassandra.RestoreTarget
import ExtendDb.Theory.EventRun

/-!
# Registrations of restores on a backup

A store-backed restore writes the row of its target first and its entry in the backup's
`active_restores` second; DeleteBackup moves the backup to DELETING only while the map is null.
-/

namespace ExtendDb.Cassandra

open Function

inductive BackupRowStatus where
  | available
  | deleting
  | deleted
deriving DecidableEq

/-- What a call goes through the registrations for: `ensure_backup_not_restoring` before the target
is created, `registration_refusal_index` after a refused registration, `start_backup_delete` and
`sweep_restore_registrations`. -/
inductive RegistrationRead where
  | register
  | refusal (t g : ℕ)
  | delete
  | sweep
deriving DecidableEq

inductive RegistrationCall where
  | idle
  /-- The backup's row is read next. -/
  | asked (read : RegistrationRead)
  /-- The targets of these entries are read next, one after another. -/
  | checking (read : RegistrationRead) (left : List ℕ)
  /-- The target was found no longer CREATING, its entry is removed next. -/
  | clearing (read : RegistrationRead) (t : ℕ) (left : List ℕ)
  /-- `create_table_for_restore_manifest` before and after its insert. -/
  | inserting
  | creating (t g : ℕ)
  /-- `register_restore` is next. -/
  | registering (t g : ℕ)
  /-- `claim_registered_target_for_removal` is next. -/
  | refused (t g : ℕ)
  /-- `drop_restore_target` before `unregister_restore` and before the drop, with or without a write
  that moved the target to DELETING before it. -/
  | dropping (t : ℕ) (fenced : Bool)
  | unlisting (t : ℕ)
  /-- `claim_restore_dead` after its takeover, and after it read that the entry is absent. -/
  | takenOver (t g : ℕ)
  | reapplying (t g : ℕ)
  /-- The job of a completed registration or takeover. -/
  | loading (t g : ℕ)
  /-- The write to DELETING is next. -/
  | claiming
  | ended
deriving DecidableEq

/-- The backup's row with the table ids of `active_restores`, the rows of its targets and the calls.
`issued` and `generations` list the table ids and the generations given out. -/
structure BackupUse where
  now : ℕ
  status : BackupRowStatus
  registered : List ℕ
  rows : ℕ → Option TargetRow
  calls : ℕ → RegistrationCall
  issued : List ℕ
  generations : List ℕ

inductive RegistrationEvent where
  | ticks
  /-- The process of the call dies, or the call ends on an error. -/
  | stops (c : ℕ)
  /-- A request or a cycle of the reconciler starts. -/
  | asks (c : ℕ) (read : RegistrationRead)
  /-- The read of the backup's row. -/
  | loads (c : ℕ)
  /-- `restore_target_in_progress` of the next entry. -/
  | looks (c : ℕ)
  /-- `unregister_restore` of a stale entry, or the sweep's conditional delete. -/
  | clears (c : ℕ)
  /-- No entry is left. -/
  | proceeds (c : ℕ)
  /-- `INSERT … IF NOT EXISTS` of the target's row. -/
  | inserts (c t g : ℕ) (name : String)
  | created (c : ℕ)
  | creationFails (c : ℕ)
  /-- The lightweight transaction of `register_restore`; its answer may be lost. -/
  | registers (c : ℕ) (answered : Bool)
  /-- The attempts are used up, or the transaction fails without effect. -/
  | exhausts (c : ℕ)
  | claimsRemoval (c : ℕ)
  /-- `remove_restore_target`. -/
  | removes (c t : ℕ)
  | unregisters (c : ℕ)
  | unlists (c : ℕ)
  /-- The takeover of `claim_restore_dead`. -/
  | takesOver (c t g : ℕ)
  /-- The serial read of `reapply_restore_registration`, and its lightweight transaction. -/
  | readsMap (c : ℕ)
  | reapplies (c : ℕ) (reached : Bool)
  | heartbeats (c : ℕ)
  | activates (c : ℕ)
  /-- A record is marked FAILED, by its job or by a reconciler. -/
  | marksFailed (t : ℕ)
  /-- The lightweight transaction from AVAILABLE to DELETING. -/
  | claims (c : ℕ)
  /-- `set_backup_deleted`. -/
  | finishesDelete
deriving DecidableEq

/-- Where a call goes when an entry's target is still CREATING. -/
def RegistrationRead.inUse : RegistrationRead → List ℕ → RegistrationCall
  | .sweep, left => .checking .sweep left
  | .refusal t g, _ => .refused t g
  | .register, _ => .ended
  | .delete, _ => .ended

def RegistrationRead.notAvailable : RegistrationRead → RegistrationCall
  | .refusal t g => .refused t g
  | _ => .ended

/-- Where a call goes when no entry is left. -/
def RegistrationRead.next : RegistrationRead → RegistrationCall
  | .register => .inserting
  | .refusal t g => .registering t g
  | .delete => .claiming
  | .sweep => .ended

namespace BackupUse

def initial : BackupUse where
  now := 0
  status := .available
  registered := []
  rows := fun _ => none
  calls := fun _ => .idle
  issued := []
  generations := []

section

variable (s : BackupUse)

def goOn (c : ℕ) (call : RegistrationCall) : BackupUse :=
  { s with calls := update s.calls c call }

def setRow (t : ℕ) (row : Option TargetRow) : BackupUse :=
  { s with rows := update s.rows t row }

def unregister (t : ℕ) : BackupUse :=
  { s with registered := s.registered.filter (· ≠ t) }

def inProgress (t : ℕ) : Bool :=
  match s.rows t with
  | some row => row.status = .creating
  | none => false

/-- The target is CREATING and its record RUNNING under the generation. -/
def owned (t g : ℕ) : Bool :=
  match s.rows t with
  | some row => row.isOwnedBy g
  | none => false

def nameFree (name : String) : Bool :=
  s.issued.all fun t =>
    match s.rows t with
    | some row => row.name ≠ name
    | none => true

def mayAsk : RegistrationRead → Bool
  | .register => s.issued.all fun t => !s.inProgress t
  | .refusal _ _ => false
  | .delete | .sweep => true

def insert (c t g : ℕ) (name : String) : BackupUse :=
  { s with
    rows := update s.rows t (some ⟨name, .creating, .running, g, s.now⟩)
    calls := update s.calls c (.creating t g)
    issued := t :: s.issued
    generations := g :: s.generations }

def takeOver (c t g : ℕ) (row : TargetRow) : BackupUse :=
  { s with
    rows := update s.rows t (some { row with generation := g, heartbeatAt := s.now })
    calls := update s.calls c (.takenOver t g)
    generations := g :: s.generations }

end

def step (staleAfter : ℕ) (s : BackupUse) : RegistrationEvent → Option BackupUse
  | .ticks => some { s with now := s.now + 1 }
  | .stops c => some (s.goOn c .ended)
  | .asks c read =>
    if s.calls c = .idle ∧ s.mayAsk read = true then some (s.goOn c (.asked read)) else none
  | .loads c =>
    match s.calls c with
    | .asked read =>
      if read = .sweep ∨ s.status = .available then
        some (s.goOn c (.checking read s.registered))
      else some (s.goOn c read.notAvailable)
    | _ => none
  | .looks c =>
    match s.calls c with
    | .checking read (t :: left) =>
      if s.inProgress t = true then some (s.goOn c (read.inUse left))
      else some (s.goOn c (.clearing read t left))
    | _ => none
  | .clears c =>
    match s.calls c with
    | .clearing read t left => some ((s.unregister t).goOn c (.checking read left))
    | _ => none
  | .proceeds c =>
    match s.calls c with
    | .checking read [] => some (s.goOn c read.next)
    | _ => none
  | .inserts c t g name =>
    if s.calls c = .inserting ∧ t ∉ s.issued ∧ g ∉ s.generations ∧ s.nameFree name = true then
      some (s.insert c t g name)
    else none
  | .created c =>
    match s.calls c with
    | .creating t g => some (s.goOn c (.registering t g))
    | _ => none
  | .creationFails c =>
    match s.calls c with
    | .creating t _ => some (s.goOn c (.dropping t false))
    | _ => none
  | .registers c answered =>
    match s.calls c with
    | .registering t g =>
      if s.status = .available ∧ s.registered = [] then
        some ({ s with registered := [t] }.goOn c
          (if answered = true then .loading t g else .refused t g))
      else some (s.goOn c (.asked (.refusal t g)))
    | _ => none
  | .exhausts c =>
    match s.calls c with
    | .registering t g => some (s.goOn c (.refused t g))
    | _ => none
  | .claimsRemoval c =>
    match s.calls c with
    | .refused t g =>
      match s.rows t with
      | some row =>
        if row.isOwnedBy g = true then
          some ((s.setRow t (some { row with status := .deleting, record := .failed })).goOn c
            (.dropping t true))
        else some (s.goOn c .ended)
      | none => some (s.goOn c .ended)
    | _ => none
  | .removes c t =>
    match s.rows t with
    | some row =>
      if s.calls c = .idle ∧ (row.status = .creating ∨ row.isClaimedForRemoval = true) then
        some ((s.setRow t (some { row with status := .deleting })).goOn c (.dropping t true))
      else none
    | none => none
  | .unregisters c =>
    match s.calls c with
    | .dropping t _ => some ((s.unregister t).goOn c (.unlisting t))
    | _ => none
  | .unlists c =>
    match s.calls c with
    | .unlisting t => some ((s.setRow t none).goOn c .ended)
    | _ => none
  | .takesOver c t g =>
    match s.rows t with
    | some row =>
      if s.calls c = .idle ∧ row.record = .running ∧ row.heartbeatAt + staleAfter < s.now ∧
          g ∉ s.generations then
        some (s.takeOver c t g row)
      else none
    | none => none
  | .readsMap c =>
    match s.calls c with
    | .takenOver t g =>
      if t ∈ s.registered then some (s.goOn c (.loading t g))
      else some (s.goOn c (.reapplying t g))
    | _ => none
  | .reapplies c reached =>
    -- whether or not the entry was written, the claim is handed over
    match s.calls c with
    | .reapplying t g =>
      if s.status = .available ∧ reached = true then
        some ({ s with registered := s.registered.insert t }.goOn c (.loading t g))
      else some (s.goOn c (.loading t g))
    | _ => none
  | .heartbeats c =>
    match s.calls c with
    | .loading t g =>
      match s.rows t with
      | some row =>
        if row.record = .running ∧ row.generation = g then
          some (s.setRow t (some { row with heartbeatAt := s.now }))
        else none
      | none => none
    | _ => none
  | .activates c =>
    match s.calls c with
    | .loading t g =>
      match s.rows t with
      | some row =>
        if row.isOwnedBy g = true then
          some ((s.setRow t (some { row with status := .active, record := .done })).goOn c .ended)
        else none
      | none => none
    | _ => none
  | .marksFailed t =>
    match s.rows t with
    | some row =>
      if row.record = .running then some (s.setRow t (some { row with record := .failed })) else none
    | none => none
  | .claims c =>
    if s.calls c = .claiming then
      if s.status = .available ∧ s.registered = [] then
        some ({ s with status := .deleting }.goOn c .ended)
      else some (s.goOn c (.asked .delete))
    else none
  | .finishesDelete =>
    if s.status = .deleting then some { s with status := .deleted } else none

/-- The call is a job that has completed its registration or takeover and still holds its claim.  A
job that lost its claim stops at its next check of it. -/
def Loading (s : BackupUse) (c t : ℕ) : Prop :=
  ∃ g, s.calls c = .loading t g ∧ s.owned t g = true

def Listed (s : BackupUse) : RegistrationEvent → Prop
  | .readsMap c => ∀ t g, s.calls c = .takenOver t g → t ∈ s.registered
  | _ => True

end BackupUse

end ExtendDb.Cassandra
