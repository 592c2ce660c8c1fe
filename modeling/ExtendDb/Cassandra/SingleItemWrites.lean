import ExtendDb.Cassandra.PrepareOutline

/-!
# Single-item writes on Cassandra

PutItem, UpdateItem and DeleteItem on tables without TTL.  Each reads the row, refuses one that a
transaction has marked, and writes under a fence on what it read.
-/

namespace ExtendDb.Cassandra

open Interaction Interaction.Program

inductive WriteError where
  | dynamoDb (e : DynamoDbError)
  | transaction (e : TransactionError)

def concurrentOwnerError : WriteError :=
  .transaction (.transactionCanceled
    [⟨conflictCode, some "Item is being modified by a concurrent transaction"⟩])

def writeConflict (message : String) : WriteError := .transaction (.transactionConflict message)

def liftResult {α : Type} (r : Result α) : Session WriteError α := .done (r.mapError .dynamoDb)

def liftStorage {α : Type} (r : Except StorageError α) : Session WriteError α :=
  .done (r.mapError fun e => .transaction (.storage e))

def writeFailed (context e : String) : WriteError :=
  .transaction (.internal (context ++ ": " ++ e))

def occRead (key : RowKey) : Session WriteError (Option Item × Option Int) := do
  let row : Option Row ← ask (writeFailed "Query failed") (.select key)
  match row with
  | none => pure (none, none)
  | some row =>
    if row.preparedTxnId.isSome then fail concurrentOwnerError
    else pure (row.itemData, row.version)

def readClock : Session WriteError Int := ask (writeFailed "clock") .nowMicros

def occWrite (key : RowKey) (item : Item) (version : Option Int) (itemExisted : Bool) :
    Session WriteError Bool := do
  let nextVersion ← liftStorage (nextRowVersionAt version (← readClock))
  lwt (writeFailed "occ_write lwt") key (if itemExisted then .atVersion version else .noItem)
    (.write item nextVersion)

def retryConflicts {α : Type} (attempted : Session WriteError α) : Nat → Session WriteError α
  | 0 => attempted
  | retries + 1 => do
    match ← attempted.attempt with
    | .ok a => pure a
    | .error (.transaction (.transactionConflict _)) => retryConflicts attempted retries
    | .error e => fail e

def ttlClaimMaxRetries : Nat := 8

def occMaxRetries : Nat := 20

section

variable (cfg : CassandraEngine) (tableId : String) (keyInfo : TableKeyInfo)

def writeRowKey (key : Item) : Except StorageError RowKey :=
  rowKeyOr cfg (.internal "missing sort key") id tableId keyInfo key

def putItemIfNotExists (item : Item) : Session WriteError Unit := do
  let version ← liftStorage (nextRowVersionAt none (← readClock))
  let key ← liftStorage (writeRowKey cfg tableId keyInfo item)
  let applied ← lwt (writeFailed "put_item_if_not_exists") key .noItem (.write item version)
  if applied then pure ()
  else fail (.dynamoDb (.conditionalCheckFailedException "The conditional request failed"))

def putItemImplInner (item : Item) (condition : Option Condition) (keyNotExists : Bool) :
    Session WriteError Unit := do
  liftResult (cfg.validateIndexKeyTypes keyInfo item)
  liftResult (cfg.validateIndexKeyNotEmpty keyInfo item)
  if keyNotExists then putItemIfNotExists cfg tableId keyInfo item
  else do
    let key ← liftStorage (writeRowKey cfg tableId keyInfo item)
    let (old, version) ← occRead key
    liftResult (checkCondition condition old)
    let applied ← occWrite key item version old.isSome
    if applied then pure () else fail (writeConflict "put_item lost OCC race")

def putItemImpl (item : Item) (condition : Option Condition) (keyNotExists : Bool) :
    Session WriteError Unit :=
  retryConflicts (putItemImplInner cfg tableId keyInfo item condition keyNotExists)
    ttlClaimMaxRetries

def updateRowKey (key : Item) : Except StorageError RowKey := do
  let pkValue ← match keyInfo.keySchema.head?.bind (fun ks => OrdMap.get? key ks.attributeName) with
    | some value => .ok value
    | none => .error (.internal "missing partition key")
  let pk ← pkToText cfg.base64 pkValue
  match keyInfo.keySchema.find? (fun ks => ks.keyType = .range) with
  | none => pure ⟨tableId, pk, none⟩
  | some element =>
    match OrdMap.get? key element.attributeName,
      declaredType keyInfo.attributeDefinitions element.attributeName with
    | none, _ => throw (.internal "missing sort key")
    | some _, none => throw (.internal "sort key type not found")
    | some value, some ty => do
      let sk ← parseSk cfg.bigDecimal value ty
      pure ⟨tableId, pk, some sk⟩

def updateOnce (row : RowKey) (key : Item) (actions : List UpdateAction) (maps : ExpressionMaps)
    (condition : Option Condition) : Session WriteError Bool := do
  let (old, version) ← occRead row
  liftResult (checkCondition condition old)
  let item ← liftResult (applyUpdate cfg.bigDecimal maps actions (old.getD key))
  liftResult (validateItemSize item maxItemSizeBytes)
  liftResult (cfg.validateIndexKeyTypesAfterUpdate keyInfo item)
  liftResult (cfg.validateIndexKeyNotEmptyAfterUpdate keyInfo item)
  if old.isNone && removesOnly actions then pure true
  else occWrite row item version old.isSome

def updateLoop (row : RowKey) (key : Item) (actions : List UpdateAction) (maps : ExpressionMaps)
    (condition : Option Condition) : Nat → Session WriteError Unit
  | 0 => fail (writeConflict "update_item: too many concurrent writers on this item")
  | attempts + 1 => do
    let finished ← updateOnce cfg keyInfo row key actions maps condition
    if finished then pure () else updateLoop row key actions maps condition attempts

def updateItemImpl (key : Item) (actions : List UpdateAction) (maps : ExpressionMaps)
    (condition : Option Condition) : Session WriteError Unit := do
  let row ← liftStorage (updateRowKey cfg tableId keyInfo key)
  updateLoop cfg keyInfo row key actions maps condition (occMaxRetries + 1)

/-- An item that a write stored before the delete began is still there. -/
def itemPresentSerial (row : RowKey) (started : Int) : Session WriteError Bool := do
  let found : Option Row ← ask (writeFailed "select") (.select row)
  pure (found.any fun columns => columns.itemData.isSome &&
    !columns.version.any fun v => clockVersionFloor ≤ v && started ≤ v)

def deleteItemImplInner (key : Item) (condition : Option Condition) : Session WriteError Unit := do
  let started ← readClock
  let row ← liftStorage (writeRowKey cfg tableId keyInfo key)
  let (old, version) ← occRead row
  liftResult (checkCondition condition old)
  match old with
  | none =>
    -- a condition that an absent item satisfies leaves nothing to delete
    if condition.isSome then pure ()
    else do
      let present ← itemPresentSerial row started
      if present then fail (writeConflict "delete_item read a stale absence") else pure ()
  | some _ => do
    let _ ← liftStorage (deleteStamp version (← readClock))
    let now ← readClock
    (updatePartitionMaxDelete (now / 1000) row.partition).mapError .transaction
    let applied ← lwt (writeFailed "occ_delete_lwt") row (.atVersion version) .delete
    if applied then pure () else fail (writeConflict "delete_item lost OCC race")

def deleteItemImpl (key : Item) (condition : Option Condition) : Session WriteError Unit :=
  retryConflicts (deleteItemImplInner cfg tableId keyInfo key condition) ttlClaimMaxRetries

end

/-! ## What they issue -/

/-- The statement changes no row but one without a marker, places none, and leaves the ledger
alone. -/
def Statement.SingleItem : Statement → Prop
  | .lwt _ (.atVersion _) (.write _ _) | .lwt _ (.atVersion _) .delete | .lwt _ .noItem (.write _ _) =>
    True
  | .lwt _ _ _ => False
  | .insertLedger _ _ _ _ | .updateLedgerState _ _ | .updateLedgerBlob _ _ | .deleteLedger _ => False
  | _ => True

section

variable {P : Statement → Prop} {α β : Type}

theorem liftResult_outline (r : Result α) : (liftResult r).Outline P (fun _ => True) := trivial

theorem liftStorage_outline (r : Except StorageError α) :
    (liftStorage r).Outline P (fun _ => True) := trivial

/-- Programs that issue statements in `P` only compose. -/
theorem outline_bind {ε : Type} {p} {f : α → Session ε β} (h : p.Outline P fun _ => True)
    (hf : ∀ a, (f a).Outline P fun _ => True) :
    (p >>= f).Outline P (fun _ => True) :=
  Outline.bind h (fun a _ => hf a) fun _ _ => trivial

theorem retryConflicts_outline {p : Session WriteError α} (h : p.Outline P fun _ => True)
    (retries) : (retryConflicts p retries).Outline P (fun _ => True) := by
  induction retries with
  | zero => exact h
  | succ retries ih =>
    refine .bind (.attempt h) ?_ fun _ _ => trivial
    rintro (e | a) -
    · split
      · exact trivial
      · exact ih
      · exact trivial
    · exact trivial

theorem occRead_outline (key) : (occRead key).Outline Statement.SingleItem (fun _ => True) := by
  refine outline_bind (ask_outline trivial) ?_
  rintro (_ | row)
  · exact trivial
  · dsimp only
    split <;> exact trivial

theorem occWrite_outline (key item version itemExisted) :
    (occWrite key item version itemExisted).Outline Statement.SingleItem (fun _ => True) := by
  refine outline_bind (ask_outline trivial) fun now => ?_
  refine outline_bind (liftStorage_outline _) fun next => ask_outline ?_
  cases itemExisted <;> exact trivial

variable {cfg : CassandraEngine} {tableId : String} {keyInfo : TableKeyInfo}

theorem putItemImpl_outline (item condition keyNotExists) :
    (putItemImpl cfg tableId keyInfo item condition keyNotExists).Outline Statement.SingleItem
      (fun _ => True) := by
  refine retryConflicts_outline ?_ _
  refine outline_bind (liftResult_outline _) fun _ => ?_
  refine outline_bind (liftResult_outline _) fun _ => ?_
  split
  · refine outline_bind (ask_outline trivial) fun now => ?_
    refine outline_bind (liftStorage_outline _) fun version => ?_
    refine outline_bind (liftStorage_outline _) fun key => ?_
    refine outline_bind (ask_outline trivial) fun applied => ?_
    split <;> exact trivial
  · refine outline_bind (liftStorage_outline _) fun key => ?_
    refine outline_bind (occRead_outline key) fun old => ?_
    refine outline_bind (liftResult_outline _) fun _ => ?_
    refine outline_bind (occWrite_outline _ _ _ _) fun applied => ?_
    split <;> exact trivial

theorem updateItemImpl_outline (key actions maps condition) :
    (updateItemImpl cfg tableId keyInfo key actions maps condition).Outline Statement.SingleItem
      (fun _ => True) := by
  refine outline_bind (liftStorage_outline _) fun row => ?_
  have honce : (updateOnce cfg keyInfo row key actions maps condition).Outline Statement.SingleItem
      (fun _ => True) := by
    refine outline_bind (occRead_outline row) fun old => ?_
    refine outline_bind (liftResult_outline _) fun _ => ?_
    refine outline_bind (liftResult_outline _) fun item => ?_
    refine outline_bind (liftResult_outline _) fun _ => ?_
    refine outline_bind (liftResult_outline _) fun _ => ?_
    refine outline_bind (liftResult_outline _) fun _ => ?_
    split
    · exact trivial
    · exact occWrite_outline _ _ _ _
  generalize occMaxRetries + 1 = attempts
  induction attempts with
  | zero => exact trivial
  | succ attempts ih =>
    refine outline_bind honce fun finished => ?_
    split
    · exact trivial
    · exact ih

theorem updatePartitionMaxDelete_outline (hset : ∀ part timestamp, P (.setMaxDelete part timestamp))
    (hraise : ∀ part timestamp, P (.raiseMaxDelete part timestamp)) (timestamp) (part) :
    (updatePartitionMaxDelete timestamp part).Outline P (fun _ => True) := by
  refine outline_bind (ask_outline (hset _ _)) fun applied => ?_
  split
  · exact trivial
  · exact outline_bind (ask_outline (hraise _ _)) fun _ => trivial

theorem deleteItemImpl_outline (key condition) :
    (deleteItemImpl cfg tableId keyInfo key condition).Outline Statement.SingleItem
      (fun _ => True) := by
  refine retryConflicts_outline ?_ _
  refine outline_bind (ask_outline trivial) fun started => ?_
  refine outline_bind (liftStorage_outline _) fun row => ?_
  refine outline_bind (occRead_outline row) ?_
  rintro ⟨old, version⟩
  refine outline_bind (liftResult_outline _) fun _ => ?_
  cases old with
  | none =>
    dsimp only
    split
    · exact trivial
    · refine outline_bind (outline_bind (ask_outline trivial) fun _ => trivial) fun present => ?_
      split <;> exact trivial
  | some old =>
    refine outline_bind (ask_outline trivial) fun now => ?_
    refine outline_bind (liftStorage_outline _) fun _ => ?_
    refine outline_bind (ask_outline trivial) fun now => ?_
    refine outline_bind (mapError_outline (updatePartitionMaxDelete_outline (fun _ _ => trivial)
      (fun _ _ => trivial) _ _)) fun _ => ?_
    refine outline_bind (ask_outline trivial) fun applied => ?_
    split <;> exact trivial

end

end ExtendDb.Cassandra
