import ExtendDb.Theory.Interleaving
import ExtendDb.Engine.WriteItems
import ExtendDb.Storage.QueryScan

/-!
# The Cassandra database

The columns of a base row, the transaction ledger and the idempotency tokens, and the statements the
transaction paths issue against them.  A lightweight transaction tests one row and changes it in one
step.
-/

namespace ExtendDb.Cassandra

open Interaction Function

deriving instance DecidableEq for SortKeyValue

/-- A transaction id. -/
abbrev Uuid := Nat

/-- The primary key of a base row: the table, the partition text, and the clustering column of a
table with a sort key. -/
structure RowKey where
  tableId : String
  pk : String
  sk : Option SortKeyValue
deriving DecidableEq

def RowKey.partition (key : RowKey) : String × String := (key.tableId, key.pk)

/-- The columns of a base row besides its key. -/
structure Row where
  itemData : Option Item
  version : Option Int
  preparedTxnId : Option Uuid
  preparedTxnTimestamp : Option Int
  lastCommittedTxnTimestamp : Option Int
  createdToPrepare : Option Bool
deriving DecidableEq

namespace Row

def absent : Row := ⟨none, none, none, none, none, none⟩

/-- The row carries a transaction's marker. -/
def PreparedBy (row : Row) (txn : Uuid) : Prop := row.preparedTxnId = some txn

def Flagged (row : Row) : Prop := row.createdToPrepare = some true

instance (row : Row) (txn : Uuid) : Decidable (row.PreparedBy txn) :=
  inferInstanceAs (Decidable (_ = _))

instance (row : Row) : Decidable row.Flagged := inferInstanceAs (Decidable (_ = _))

end Row

/-! ## The ledger -/

inductive TransactionState where
  | preparing | committing | cancelling
deriving DecidableEq

inductive LedgerKind where
  | put | update | delete | check
deriving DecidableEq

/-- One operation of a transaction as the ledger keeps it: the row by its texts, and the images. -/
structure LedgerOp where
  kind : LedgerKind
  tableId : String
  pk : String
  /-- The type of the sort key column, which names the column. -/
  skCol : Option ScalarAttributeType
  skVal : Option String
  itemData : Option Item
  preCommitItemData : Option Item
deriving DecidableEq

structure LedgerRow where
  state : Option TransactionState
  startedAt : Option Int
  itemsBlob : Option (List LedgerOp)
deriving DecidableEq

def LedgerRow.absent : LedgerRow := ⟨none, none, none⟩

/-! ## Statements -/

/-- The `IF` clause of a lightweight transaction on a base row. -/
inductive Guard where
  /-- `IF NOT EXISTS` -/
  | notExists
  /-- `IF prepared_txn_id = null` -/
  | unprepared
  /-- `IF prepared_txn_id = ?` -/
  | preparedBy (txn : Uuid)
  /-- `IF prepared_txn_id = ? AND created_to_prepare = true` -/
  | plantedBy (txn : Uuid)
  /-- `IF version = ? AND prepared_txn_id = null` -/
  | atVersion (version : Option Int)
  /-- `IF item_data = null AND prepared_txn_id = null` -/
  | noItem
deriving DecidableEq

def Guard.holds (guard : Guard) (rowExists : Bool) (row : Row) : Bool :=
  match guard with
  | .notExists => !rowExists
  | .unprepared => row.preparedTxnId.isNone
  | .preparedBy txn => row.PreparedBy txn
  | .plantedBy txn => decide (row.PreparedBy txn) && decide row.Flagged
  | .atVersion version => row.version == version && row.preparedTxnId.isNone
  | .noItem => row.itemData.isNone && row.preparedTxnId.isNone

/-- What a lightweight transaction does to the row. -/
inductive Mutation where
  /-- `INSERT (item_data, prepared_txn_id, prepared_txn_timestamp, created_to_prepare = true)` -/
  | plant (item : Item) (txn : Uuid) (timestamp : Int)
  /-- `UPDATE SET prepared_txn_id, prepared_txn_timestamp` -/
  | mark (txn : Uuid) (timestamp : Int)
  /-- `UPDATE SET item_data, prepared_txn_id = NULL, created_to_prepare = false, version,
  last_committed_txn_timestamp` -/
  | commit (item : Item) (version timestamp : Int)
  /-- `UPDATE SET prepared_txn_id = null` -/
  | clear
  /-- `UPDATE SET item_data, version` -/
  | write (item : Item) (version : Int)
  /-- `DELETE` -/
  | delete

def Mutation.apply : Mutation → Row → Row
  | .plant item txn timestamp, row =>
    { row with itemData := some item, preparedTxnId := some txn,
               preparedTxnTimestamp := some timestamp, createdToPrepare := some true }
  | .mark txn timestamp, row =>
    { row with preparedTxnId := some txn, preparedTxnTimestamp := some timestamp }
  | .commit item version timestamp, row =>
    { row with itemData := some item, preparedTxnId := none, createdToPrepare := some false,
               version := some version, lastCommittedTxnTimestamp := some timestamp }
  | .clear, row => { row with preparedTxnId := none }
  | .write item version, row => { row with itemData := some item, version := some version }
  | .delete, _ => .absent

inductive Statement where
  | select (key : RowKey)
  | lwt (key : RowKey) (guard : Guard) (mutation : Mutation)
  | selectMaxDelete (partition : String × String)
  /-- `SET partition_max_delete_timestamp IF partition_max_delete_timestamp = null` -/
  | setMaxDelete (partition : String × String) (timestamp : Int)
  /-- `SET partition_max_delete_timestamp IF partition_max_delete_timestamp < ?` -/
  | raiseMaxDelete (partition : String × String) (timestamp : Int)
  | insertLedger (txn : Uuid) (state : TransactionState) (startedAt : Int)
      (itemsBlob : List LedgerOp)
  | updateLedgerState (txn : Uuid) (state : TransactionState)
  | updateLedgerBlob (txn : Uuid) (itemsBlob : List LedgerOp)
  | selectLedger (txn : Uuid)
  | deleteLedger (txn : Uuid)
  | selectToken (accountId token : String)
  | insertToken (accountId token fingerprint : String)
  | deleteToken (accountId token : String)
  /-- The clock of the host, in microseconds. -/
  | nowMicros

def Statement.Answer : Statement → Type
  | .select _ => Option Row
  | .lwt _ _ _ | .setMaxDelete _ _ | .raiseMaxDelete _ _ | .insertLedger _ _ _ _
  | .insertToken _ _ _ => Bool
  | .selectMaxDelete _ => Option Int
  | .updateLedgerState _ _ | .updateLedgerBlob _ _ | .deleteLedger _ | .deleteToken _ _ => Unit
  | .selectLedger _ => Option LedgerRow
  | .selectToken _ _ => Option String
  | .nowMicros => Int

/-! ## The database -/

structure Database where
  rows : RowKey → Row
  /-- `partition_max_delete_timestamp`: a static column of a table with a sort key, and a column of
  the partition's only row in a table without one. -/
  maxDelete : String × String → Option Int
  ledger : Uuid → LedgerRow
  /-- The fingerprint kept under an account and a token. -/
  tokens : String × String → Option String
  /-- The readings of the clock, and how many have been taken. -/
  clock : Nat → Int
  readings : Nat

namespace Database

def rowExists (db : Database) (key : RowKey) : Bool :=
  decide (db.rows key ≠ .absent) || (key.sk.isNone && (db.maxDelete key.partition).isSome)

def mutate (db : Database) (key : RowKey) (mutation : Mutation) : Database :=
  { db with
    rows := update db.rows key (mutation.apply (db.rows key))
    maxDelete :=
      match mutation with
      | .delete =>
        if key.sk.isNone then update db.maxDelete key.partition none else db.maxDelete
      | _ => db.maxDelete }

def setLedger (db : Database) (txn : Uuid) (row : LedgerRow) : Database :=
  { db with ledger := update db.ledger txn row }

def perform (db : Database) : (s : Statement) → s.Answer × Database
  | .select key => (if db.rowExists key then some (db.rows key) else none, db)
  | .lwt key guard mutation =>
    if guard.holds (db.rowExists key) (db.rows key) then (true, db.mutate key mutation)
    else (false, db)
  | .selectMaxDelete partition => (db.maxDelete partition, db)
  | .setMaxDelete partition timestamp =>
    if (db.maxDelete partition).isNone then
      (true, { db with maxDelete := update db.maxDelete partition (some timestamp) })
    else (false, db)
  | .raiseMaxDelete partition timestamp =>
    if (db.maxDelete partition).any (· < timestamp) then
      (true, { db with maxDelete := update db.maxDelete partition (some timestamp) })
    else (false, db)
  | .insertLedger txn state startedAt itemsBlob =>
    if db.ledger txn = .absent then
      (true, db.setLedger txn ⟨some state, some startedAt, some itemsBlob⟩)
    else (false, db)
  | .updateLedgerState txn state =>
    ((), db.setLedger txn { db.ledger txn with state := some state })
  | .updateLedgerBlob txn itemsBlob =>
    ((), db.setLedger txn { db.ledger txn with itemsBlob := some itemsBlob })
  | .selectLedger txn =>
    (if db.ledger txn = .absent then none else some (db.ledger txn), db)
  | .deleteLedger txn => ((), db.setLedger txn .absent)
  | .selectToken accountId token => (db.tokens (accountId, token), db)
  | .insertToken accountId token fingerprint =>
    if (db.tokens (accountId, token)).isNone then
      (true, { db with
        tokens := update db.tokens (accountId, token) (some fingerprint) })
    else (false, db)
  | .deleteToken accountId token =>
    ((), { db with tokens := update db.tokens (accountId, token) none })
  | .nowMicros => (db.clock db.readings, { db with readings := db.readings + 1 })

def exec (s : Statement) (db : Database) : Except String s.Answer × Database :=
  (.ok (db.perform s).1, (db.perform s).2)

end Database

abbrev Session (ε α : Type) := Program Statement.Answer ε α

/-! ## Row versions

The `version` of a base row is the token that optimistic writers compare, and the write timestamp
of the index rows a write produces. -/

def maxBigint : Int := 2 ^ 63 - 1

def versionExhausted : StorageError :=
  .internal "the item's version has reached the largest bigint"

def nextRowVersionAt (previous : Option Int) (now : Int) : Except StorageError Int :=
  match previous with
  | none => .ok now
  | some previous =>
    if previous = maxBigint then .error versionExhausted else .ok (max (previous + 1) now)

def clockVersionFloor : Int := 1000000000000000

def deleteStamp (previous : Option Int) (now : Int) : Except StorageError Int :=
  match previous with
  | some previous =>
    if clockVersionFloor ≤ previous then
      if previous = maxBigint then .error versionExhausted else .ok (previous + 1)
    else .ok now
  | none => .ok now

/-- The row's version leaves room for another one. -/
def VersionFree (previous : Option Int) : Prop := previous ≠ some maxBigint

instance (previous : Option Int) : Decidable (VersionFree previous) :=
  inferInstanceAs (Decidable (_ ≠ _))

variable {previous : Option Int}

theorem nextRowVersionAt_ok (h : VersionFree previous) (now) :
    ∃ version, nextRowVersionAt previous now = .ok version := by
  cases previous with
  | none => exact ⟨_, rfl⟩
  | some v => exact ⟨_, if_neg (fun hv => h (congrArg some hv))⟩

theorem deleteStamp_ok (h : VersionFree previous) (now) :
    ∃ stamp, deleteStamp previous now = .ok stamp := by
  cases previous with
  | none => exact ⟨_, rfl⟩
  | some v =>
    have hv : v ≠ maxBigint := fun hv => h (congrArg some hv)
    by_cases hfloor : clockVersionFloor ≤ v
    · exact ⟨_, by rw [deleteStamp, if_pos hfloor, if_neg hv]⟩
    · exact ⟨_, if_neg hfloor⟩

end ExtendDb.Cassandra
