import ExtendDb.Cassandra.Database

/-!
# TransactWriteItems on Cassandra

A two-phase commit in the code's own words.  PREPARE evaluates every member and marks its row with
the transaction's id, COMMIT applies the members one row at a time under those markers, ROLLBACK
takes the markers back.
-/

namespace ExtendDb.Cassandra

open Interaction Interaction.Program

/-! ## Errors -/

def StorageErrorText : StorageError → String
  | .internal message => "Internal error: " ++ message
  | .validation message => "Validation error: " ++ message

inductive TransactionError where
  | storage (e : StorageError)
  | transactionConflict (message : String)
  | transactionCanceled (reasons : List CancellationReason)
  | idempotentReplay
  | idempotentMismatch
deriving DecidableEq

namespace TransactionError

def internal (message : String) : TransactionError := .storage (.internal message)

def validation (message : String) : TransactionError := .storage (.validation message)

def text : TransactionError → String
  | .storage e => StorageErrorText e
  | .transactionConflict message => "Transaction conflict: " ++ message
  | .transactionCanceled _ => "Transaction canceled"
  | .idempotentReplay => "Idempotent replay"
  | .idempotentMismatch => "Idempotent parameter mismatch"

end TransactionError

def conflictCode : String := "TransactionConflict"

def transactionConflictReason : CancellationReason :=
  ⟨conflictCode, some "Transaction is ongoing for the item"⟩

def keyTypeMismatchCode : String := "ExtendDbKeyTypeMismatch"

def indexKeyEmptyAbortCode : String := "ExtendDbIndexKeyEmptyAbort"

def keyTypeMismatchCancel (e : DynamoDbError) : CancellationReason :=
  ⟨keyTypeMismatchCode, some e.message⟩

def validationReason (e : DynamoDbError) : CancellationReason := .validationError e.message

def prepareReadErrorReason : TransactionError → CancellationReason
  | .transactionConflict message => ⟨conflictCode, some message⟩
  | e => .validationError e.text

def resolveKeyFaults (reasons : List CancellationReason) :
    Except String (List CancellationReason) :=
  match reasons.findIdx? (·.code == keyTypeMismatchCode) with
  | some first =>
    .ok (reasons.mapIdx fun i reason =>
      if i = first then { reason with code := "ValidationError" } else .none)
  | none =>
    reasons.mapM fun reason =>
      if reason.code == indexKeyEmptyAbortCode then
        match reason.message with
        | some message => .error message
        | none => .ok .none
      else .ok reason

/-! ## Members -/

/-- What the backend is configured with, and the code it calls that is not modelled: the crates for
decimals and base64, the text PREPARE sorts by, and the checks of secondary index keys. -/
structure CassandraEngine where
  bigDecimal : BigDecimalCrate
  base64 : Base64Engine
  /-- The table id and the JSON text of the key. -/
  orderText : String → Item → String
  validateIndexKeyTypes : TableKeyInfo → Item → Result Unit
  validateIndexKeyNotEmpty : TableKeyInfo → Item → Result Unit
  validateIndexKeyLiteralOperands : TableKeyInfo → List UpdateAction → ExpressionMaps → Result Unit
  validateIndexKeyTypesAfterUpdate : TableKeyInfo → Item → Result Unit
  validateIndexKeyNotEmptyAfterUpdate : TableKeyInfo → Item → Result Unit

structure TransactOp where
  accountId : String
  tableId : String
  op : TransactWriteOp

namespace TransactOp

def keyInfo (op : TransactOp) : TableKeyInfo := op.op.keyInfo

def key (op : TransactOp) : Item := op.op.itemOrKey

end TransactOp

def evalCondition (condition : Option Condition) (existing : Option Item) :
    Except CancellationReason Unit :=
  match condition with
  | none => .ok ()
  | some cond =>
    match cond (existing.getD []) with
    | .error e => .error (validationReason e)
    | .ok true => .ok ()
    | .ok false => .error .conditionCheckFailed

section

variable (cfg : CassandraEngine)

def rowKeyOr {ε : Type} (missingSortKey : ε) (wrap : StorageError → ε) (tableId : String)
    (keyInfo : TableKeyInfo) (key : Item) : Except ε RowKey := do
  let pk ← (compositePkToText cfg.base64 key keyInfo.keySchema).mapError wrap
  match skInfo keyInfo.keySchema keyInfo.attributeDefinitions with
  | none => pure ⟨tableId, pk, none⟩
  | some (skName, skType) =>
    match OrdMap.get? key skName with
    | none => throw missingSortKey
    | some skValue => do
      let sk ← (parseSk cfg.bigDecimal skValue skType).mapError wrap
      pure ⟨tableId, pk, some sk⟩

/-- `composite_pk_to_text` and `resolve_sk`. -/
def rowKey (op : TransactOp) (key : Item) : Except StorageError RowKey :=
  rowKeyOr cfg (.internal "missing sort key") id op.tableId op.keyInfo key

end

/-! ## Statements -/

section

variable {ε : Type} (failed : String → ε)

def ask (s : Statement) : Session ε s.Answer := query s failed

/-- Whether a lightweight transaction was applied. -/
def lwt (key : RowKey) (guard : Guard) (mutation : Mutation) : Session ε Bool :=
  ask failed (.lwt key guard mutation)

end

/-! ## Reading rows -/

section

variable (cfg : CassandraEngine)

def lift {α : Type} (r : Except StorageError α) : Session TransactionError α :=
  .done (r.mapError .storage)

@[simp]
theorem lift_ok_bind {α β : Type} (a) (f : α → Session TransactionError β) :
    (lift (.ok a) >>= f) = f a := rfl

def liftReason {α : Type} (r : Except CancellationReason α) : Session CancellationReason α := .done r

def selectRow (key : RowKey) : Session TransactionError (Option Row) :=
  ask (fun e => .internal ("Query failed: " ++ e)) (.select key)

def maxPolls : Nat := 20

def pollCommitted (key : RowKey) : Nat → Session CancellationReason (Option Item)
  | 0 => fail transactionConflictReason
  | polls + 1 => do
    match ← (selectRow key).mapError (fun e => .validationError e.text) with
    | none => pure none
    | some row =>
      if row.preparedTxnId.isNone && row.lastCommittedTxnTimestamp.isSome then
        match row.itemData with
        | some item => pure (some item)
        | none => fail (.validationError (TransactionError.internal "Database error").text)
      else pollCommitted key polls

def waitForCommitAndRead (op : TransactOp) (key : Item) :
    Session CancellationReason (Option Item) := do
  let row ← liftReason ((rowKey cfg op key).mapError fun e => .validationError (StorageErrorText e))
  pollCommitted row maxPolls

structure TransactionRow where
  item : Option Item
  createdToPrepare : Bool
  version : Option Int

def waitErrorToStorage (reason : CancellationReason) : TransactionError :=
  if reason.code == conflictCode then .transactionConflict (reason.message.getD conflictCode)
  else .internal (reason.message.getD "")

def fetchRowForTransaction (op : TransactOp) (key : Item) (skipTxnId : Option Uuid) :
    Session TransactionError TransactionRow := do
  let row ← lift (rowKey cfg op key)
  match ← selectRow row with
  | none => pure ⟨none, false, none⟩
  | some columns =>
    if columns.preparedTxnId.isSome && columns.preparedTxnId != skipTxnId then do
      let item ← (waitForCommitAndRead cfg op key).mapError waitErrorToStorage
      pure ⟨item, false, none⟩
    else
      pure ⟨columns.itemData,
        columns.createdToPrepare == some true && columns.lastCommittedTxnTimestamp.isNone,
        columns.version⟩

def fetchItemForTransaction (op : TransactOp) (key : Item) (skipTxnId : Option Uuid) :
    Session TransactionError (Option Item) := do
  let row ← fetchRowForTransaction cfg op key skipTxnId
  pure row.item

def databaseErrorReason (_ : String) : CancellationReason := .validationError "Database error"

def checkPartitionMaxDeleteTimestamp (op : TransactOp) (key : Item) (txnTimestamp : Int) :
    Session CancellationReason Unit := do
  let pk ← liftReason ((compositePkToText cfg.base64 key op.keyInfo.keySchema).mapError
    fun e => .validationError (StorageErrorText e))
  let maxTs : Option Int ← ask databaseErrorReason (.selectMaxDelete (op.tableId, pk))
  if maxTs.any (txnTimestamp ≤ ·) then
    fail (.validationError "Item was deleted at a later timestamp")

end

/-! ## PREPARE -/

section

variable (cfg : CassandraEngine) (op : TransactOp) (txnId : Uuid) (txnTimestamp : Int)

def markRow (key : RowKey) (guard : Guard) (mutation : Mutation) :
    Session CancellationReason Unit := do
  let applied ← lwt databaseErrorReason key guard mutation
  if applied then pure () else fail transactionConflictReason

def prepareItem (key : Item) (isNewItem : Bool) : Session CancellationReason Unit := do
  let row ← liftReason (rowKeyOr cfg (.validationError "missing sort key")
    (fun e => .validationError (StorageErrorText e)) op.tableId op.keyInfo key)
  if isNewItem then markRow row .notExists (.plant key txnId txnTimestamp)
  else markRow row .unprepared (.mark txnId txnTimestamp)

/-- Markers are tried five times. -/
def markerRetries : Nat := 4

/-- The marker of a Put.  After a lost race the condition is evaluated on what the winner committed;
a row the winner left absent is inserted without another look at the condition. -/
def markPut (item : Item) (condition : Option Condition) :
    Nat → Option Item → Session CancellationReason (Option Item)
  | 0, existing => do
    prepareItem cfg op txnId txnTimestamp item existing.isNone
    pure existing
  | retries + 1, existing => do
    match ← (prepareItem cfg op txnId txnTimestamp item existing.isNone).attempt with
    | .ok () => pure existing
    | .error reason =>
      if reason.code == conflictCode then do
        match ← waitForCommitAndRead cfg op item with
        | some winner => do
          liftReason (evalCondition condition (some winner))
          markPut item condition retries (some winner)
        | none => markPut item condition retries none
      else fail reason

/-- The marker of a Delete or ConditionCheck on an absent item.  A winner that the condition accepts
ends the loop with no marker placed; the result says which item was found then. -/
def markAbsent (key : Item) (condition : Option Condition) :
    Nat → Session CancellationReason (Option Item)
  | 0 => do
    prepareItem cfg op txnId txnTimestamp key true
    pure none
  | retries + 1 => do
    match ← (prepareItem cfg op txnId txnTimestamp key true).attempt with
    | .ok () => pure none
    | .error reason =>
      if reason.code == conflictCode then do
        match ← waitForCommitAndRead cfg op key with
        | some winner => do
          liftReason (evalCondition condition (some winner))
          pure (some winner)
        | none => markAbsent key condition retries
      else fail reason

/-- The checks of an Update in the order the service applies them, and the item it writes. -/
def computeTransactUpdate (key : Item) (existing : Option Item) (actions : List UpdateAction)
    (condition : Option Condition) (maps : ExpressionMaps) : Except CancellationReason Item := do
  (cfg.validateIndexKeyLiteralOperands op.keyInfo actions maps).mapError keyTypeMismatchCancel
  evalCondition condition existing
  let item ← (applyUpdate cfg.bigDecimal maps actions (existing.getD key)).mapError validationReason
  (cfg.validateIndexKeyTypesAfterUpdate op.keyInfo item).mapError validationReason
  (cfg.validateIndexKeyNotEmptyAfterUpdate op.keyInfo item).mapError
    fun e => ⟨indexKeyEmptyAbortCode, some e.message⟩
  pure item

/-- The marker of an Update, whose item is computed anew after every lost race. -/
def markUpdate (key : Item) (actions : List UpdateAction) (condition : Option Condition)
    (maps : ExpressionMaps) :
    Nat → Option Item → Item → Session CancellationReason (Option Item × Item)
  | 0, existing, item => do
    prepareItem cfg op txnId txnTimestamp key existing.isNone
    pure (existing, item)
  | retries + 1, existing, item => do
    match ← (prepareItem cfg op txnId txnTimestamp key existing.isNone).attempt with
    | .ok () => pure (existing, item)
    | .error reason =>
      if reason.code == conflictCode then do
        let existing ← waitForCommitAndRead cfg op key
        let item ← liftReason (computeTransactUpdate cfg op key existing actions condition maps)
        markUpdate key actions condition maps retries existing item
      else fail reason

def maxItemSizeBytes : Nat := 400 * 1024

def readExisting (key : Item) : Session CancellationReason (Option Item) :=
  (fetchItemForTransaction cfg op key none).mapError prepareReadErrorReason

def preparePut (item : Item) (condition : Option Condition) :
    Session CancellationReason (Option Item × Option Item) := do
  liftReason ((validateItemKeys item op.keyInfo.keySchema op.keyInfo.attributeDefinitions).mapError
    keyTypeMismatchCancel)
  let existing ← readExisting cfg op item
  liftReason ((cfg.validateIndexKeyTypes op.keyInfo item).mapError keyTypeMismatchCancel)
  liftReason ((cfg.validateIndexKeyNotEmpty op.keyInfo item).mapError
    fun e => ⟨indexKeyEmptyAbortCode, some e.message⟩)
  liftReason (evalCondition condition existing)
  if existing.isNone then checkPartitionMaxDeleteTimestamp cfg op item txnTimestamp
  let existing ← markPut cfg op txnId txnTimestamp item condition markerRetries existing
  pure (none, existing)

def checkKey (key : Item) : Session CancellationReason Unit :=
  liftReason ((validateKeyOnly key op.keyInfo.keySchema op.keyInfo.attributeDefinitions).mapError
    keyTypeMismatchCancel)

def prepareDelete (key : Item) (condition : Option Condition) :
    Session CancellationReason (Option Item × Option Item) := do
  checkKey op key
  let existing ← readExisting cfg op key
  liftReason (evalCondition condition existing)
  if condition.isSome && existing.isNone then do
    checkPartitionMaxDeleteTimestamp cfg op key txnTimestamp
    let _ ← markAbsent cfg op txnId txnTimestamp key condition markerRetries
    pure (none, existing)
  else do
    prepareItem cfg op txnId txnTimestamp key false
    pure (none, existing)

def prepareUpdate (key : Item) (actions : List UpdateAction) (maps : ExpressionMaps)
    (condition : Option Condition) : Session CancellationReason (Option Item × Option Item) := do
  checkKey op key
  let existing ← readExisting cfg op key
  let item ← liftReason (computeTransactUpdate cfg op key existing actions condition maps)
  liftReason ((validateItemSize item maxItemSizeBytes).mapError validationReason)
  if existing.isNone then checkPartitionMaxDeleteTimestamp cfg op item txnTimestamp
  let (existing, item) ← markUpdate cfg op txnId txnTimestamp key actions condition maps
    markerRetries existing item
  -- REMOVE and DELETE on a key that holds no item write nothing
  if existing.isNone && removesOnly actions then pure (none, existing)
  else pure (some item, existing)

def prepareConditionCheck (key : Item) (condition : Condition) :
    Session CancellationReason (Option Item × Option Item) := do
  checkKey op key
  let existing ← readExisting cfg op key
  liftReason (evalCondition (some condition) existing)
  match existing with
  | none => do
    checkPartitionMaxDeleteTimestamp cfg op key txnTimestamp
    let existing ← markAbsent cfg op txnId txnTimestamp key (some condition) markerRetries
    pure (none, existing)
  | some item => pure (none, some item)

/-- Evaluate one member and mark its row.  The result is the item an Update writes, and the image
the member was evaluated on. -/
def prepareSingleOperation : Session CancellationReason (Option Item × Option Item) :=
  match op.op with
  | .put _ item condition => preparePut cfg op txnId txnTimestamp item condition
  | .delete _ key condition => prepareDelete cfg op txnId txnTimestamp key condition
  | .update _ key actions maps condition =>
    prepareUpdate cfg op txnId txnTimestamp key actions maps condition
  | .conditionCheck _ key condition =>
    prepareConditionCheck cfg op txnId txnTimestamp key condition

end

structure PrepareProgress where
  reasons : List CancellationReason
  computed : List (Option Item × Option Item)
  anyFailed : Bool

section

variable (cfg : CassandraEngine) (txnId : Uuid) (txnTimestamp : Int)

def prepareInOrder {ε : Type} :
    List (TransactOp × Nat) → PrepareProgress → Session ε PrepareProgress
  | [], progress => pure progress
  | (op, i) :: order, progress => do
    match ← (prepareSingleOperation cfg op txnId txnTimestamp).attempt with
    | .ok images =>
      prepareInOrder order { progress with computed := progress.computed.set i images }
    | .error reason =>
      prepareInOrder order
        { progress with reasons := progress.reasons.set i reason, anyFailed := true }

def prepareOrder (ops : List TransactOp) : List (TransactOp × Nat) :=
  ops.zipIdx.insertionSort
    fun a b => cfg.orderText a.1.tableId a.1.key ≤ cfg.orderText b.1.tableId b.1.key

def executePreparePhase (ops : List TransactOp) :
    Session (List CancellationReason) (List (Option Item × Option Item)) := do
  let progress ← prepareInOrder cfg txnId txnTimestamp (prepareOrder cfg ops)
    ⟨ops.map fun _ => .none, ops.map fun _ => (none, none), false⟩
  if progress.anyFailed then fail progress.reasons else pure progress.computed

/-! ## COMMIT -/

def databaseError (_ : String) : TransactionError := .internal "Database error"

def nowMicros : Session TransactionError Int := ask TransactionError.internal .nowMicros

def commitLwt (key : RowKey) (mutation : Mutation) : Session TransactionError Unit := do
  let applied ← lwt databaseError key (.preparedBy txnId) mutation
  if applied then pure () else fail (.internal "Transaction conflict during commit")

def commitPutOrUpdate (op : TransactOp) (finalItem : Item) (nextVersion : Int) :
    Session TransactionError Unit := do
  let row ← lift (rowKey cfg op finalItem)
  commitLwt txnId row (.commit finalItem nextVersion txnTimestamp)

def commitConditionCheck (op : TransactOp) (key : Item) : Session TransactionError Unit := do
  let row ← lift (rowKey cfg op key)
  let _ ← lwt databaseError row (.plantedBy txnId) .delete
  pure ()

def updatePartitionMaxDelete (part : String × String) : Session TransactionError Unit := do
  let applied : Bool ← ask databaseError (.setMaxDelete part txnTimestamp)
  if applied then pure ()
  else do
    let _ ← ask databaseError (.raiseMaxDelete part txnTimestamp)
    pure ()

def commitPut (op : TransactOp) (item : Item) : Session TransactionError Unit := do
  let row ← fetchRowForTransaction cfg op item (some txnId)
  let nextVersion ← lift (nextRowVersionAt row.version (← nowMicros))
  commitPutOrUpdate cfg txnId txnTimestamp op item nextVersion

def commitUpdate (op : TransactOp) (key : Item) (actions : List UpdateAction)
    (maps : ExpressionMaps) (preparedItem : Option Item) : Session TransactionError Unit := do
  match preparedItem with
  | none => commitConditionCheck cfg txnId op key
  | some _ => do
    let row ← fetchRowForTransaction cfg op key (some txnId)
    let finalItem ← lift ((applyUpdate cfg.bigDecimal maps actions (row.item.getD key)).mapError
      fun e => .internal e.message)
    let nextVersion ← lift (nextRowVersionAt row.version (← nowMicros))
    commitPutOrUpdate cfg txnId txnTimestamp op finalItem nextVersion

def commitDelete (op : TransactOp) (key : Item) : Session TransactionError Unit := do
  let row ← fetchRowForTransaction cfg op key (some txnId)
  let _ ← lift (deleteStamp row.version (← nowMicros))
  let rowKey ← lift (rowKey cfg op key)
  updatePartitionMaxDelete txnTimestamp rowKey.partition
  commitLwt txnId rowKey .delete

def commitSingleOperation (op : TransactOp) (preparedItem : Option Item) :
    Session TransactionError Unit :=
  match op.op with
  | .put _ item _ => commitPut cfg txnId txnTimestamp op item
  | .update _ key actions maps _ =>
    commitUpdate cfg txnId txnTimestamp op key actions maps preparedItem
  | .delete _ key _ => commitDelete cfg txnId txnTimestamp op key
  | .conditionCheck _ key _ => commitConditionCheck cfg txnId op key

def updateLedgerState (state : TransactionState) : Session TransactionError Unit :=
  ask databaseError (.updateLedgerState txnId state)

def updateLedgerBlob (itemsBlob : List LedgerOp) : Session TransactionError Unit :=
  ask databaseError (.updateLedgerBlob txnId itemsBlob)

def deleteLedgerEntry : Session TransactionError Unit :=
  ask databaseError (.deleteLedger txnId)

/-- Apply the members in request order; the first that fails ends the phase. -/
def commitAll : List (TransactOp × Option Item) → Session TransactionError Unit
  | [] => pure ()
  | (op, preparedItem) :: members => do
    commitSingleOperation cfg txnId txnTimestamp op preparedItem
    commitAll members

def executeCommitPhase (ops : List TransactOp) (preparedItems : List (Option Item)) :
    Session TransactionError Unit := do
  updateLedgerState txnId .committing
  commitAll cfg txnId txnTimestamp (ops.zip preparedItems)
  deleteLedgerEntry txnId

/-! ## ROLLBACK -/

def rollbackSingleOperation (op : TransactOp) : Session TransactionError Unit := do
  let existing ← fetchItemForTransaction cfg op op.key (some txnId)
  match existing with
  | none => pure ()
  | some _ => do
    let row ← lift (rowKey cfg op op.key)
    let deleted ← lwt databaseError row (.plantedBy txnId) .delete
    if deleted then pure ()
    else do
      let _ ← lwt databaseError row (.preparedBy txnId) .clear
      pure ()

/-- Undo the members in request order; the first that fails ends the phase. -/
def rollbackAll : List TransactOp → Session TransactionError Unit
  | [] => pure ()
  | op :: ops => do
    rollbackSingleOperation cfg txnId op
    rollbackAll ops

def executeRollbackPhase (ops : List TransactOp) : Session TransactionError Unit := do
  updateLedgerState txnId .cancelling
  rollbackAll cfg txnId ops
  deleteLedgerEntry txnId

end

/-! ## The coordinator -/

section

variable (cfg : CassandraEngine) (txnId : Uuid) (startedAt : Int)

def ledgerKind : TransactWriteOp → LedgerKind
  | .put _ _ _ => .put
  | .delete _ _ _ => .delete
  | .update _ _ _ _ _ => .update
  | .conditionCheck _ _ _ => .check

def ledgerSkText (value : AttributeValue) : String :=
  match value with
  | .s s => s
  | .n n => n
  | .b b => cfg.base64.encode b
  | _ => ""

def ledgerOp (op : TransactOp) : Except StorageError LedgerOp := do
  let pk ← compositePkToText cfg.base64 op.key op.keyInfo.keySchema
  let itemData := match op.op with
    | .put _ item _ => some item
    | _ => none
  match skInfo op.keyInfo.keySchema op.keyInfo.attributeDefinitions with
  | none => pure ⟨ledgerKind op.op, op.tableId, pk, none, none, itemData, none⟩
  | some (skName, skType) =>
    match OrdMap.get? op.key skName with
    | none => throw (.internal "missing sort key")
    | some skValue =>
      pure ⟨ledgerKind op.op, op.tableId, pk, some skType, some (ledgerSkText cfg skValue),
        itemData, none⟩

def initialLedgerOps (ops : List TransactOp) : Except StorageError (List LedgerOp) :=
  ops.mapM (ledgerOp cfg)

/-- Fill in the item an Update writes and the image every member was evaluated on. -/
def LedgerOp.filled (op : LedgerOp) (images : Option Item × Option Item) : LedgerOp :=
  { op with itemData := images.1.or op.itemData, preCommitItemData := images.2 }

structure Idempotency where
  accountId : String
  token : String
  fingerprint : String

def answerToken (fingerprint stored : String) : TransactionError :=
  if stored == fingerprint then .idempotentReplay else .idempotentMismatch

def selectToken (context accountId token : String) : Session TransactionError (Option String) :=
  ask (fun e => .internal (context ++ ": " ++ e)) (.selectToken accountId token)

def checkIdempotencyToken (idempotency : Idempotency) : Session TransactionError Unit := do
  let ⟨accountId, token, fingerprint⟩ := idempotency
  match ← selectToken "check_idempotency_token" accountId token with
  | some stored => fail (answerToken fingerprint stored)
  | none => do
    let applied : Bool ← ask databaseError (.insertToken accountId token fingerprint)
    if applied then pure ()
    else do
      match ← selectToken "check_idempotency_token recheck" accountId token with
      | some stored => fail (answerToken fingerprint stored)
      | none => pure ()

/-- Go on after an error, which is only logged. -/
def ignoring (p : Session TransactionError Unit) : Session TransactionError Unit := do
  let _ ← p.attempt
  pure ()

def deleteIdempotencyToken (idempotency : Idempotency) : Session TransactionError Unit :=
  ignoring (ask databaseError (.deleteToken idempotency.accountId idempotency.token))

def writeLedgerEntry (ledgerOps : List LedgerOp) : Session TransactionError Unit := do
  let applied : Bool ← ask databaseError (.insertLedger txnId .preparing startedAt ledgerOps)
  if applied then pure () else fail (.internal "Transaction ID already exists")

def reserveToken (accountId : String) : Option Idempotency → Session TransactionError Unit
  | none => pure ()
  | some idempotency =>
    if idempotency.accountId ≠ accountId then
      fail (.validation "Idempotency account does not match transaction account")
    else checkIdempotencyToken idempotency

def releaseToken : Option Idempotency → Session TransactionError Unit
  | none => pure ()
  | some idempotency => deleteIdempotencyToken idempotency

def cancellation (reasons : List CancellationReason) : TransactionError :=
  match resolveKeyFaults reasons with
  | .ok reasons => .transactionCanceled reasons
  | .error message => .validation message

def runTransaction (ops : List TransactOp) (idempotency : Option Idempotency) :
    Session TransactionError Unit := do
  let ledgerOps ← lift (initialLedgerOps cfg ops)
  writeLedgerEntry txnId startedAt ledgerOps
  match ← (executePreparePhase cfg txnId startedAt ops).attempt with
  | .ok computed => do
    updateLedgerBlob txnId (ledgerOps.zipWith LedgerOp.filled computed)
    executeCommitPhase cfg txnId startedAt ops (computed.map (·.1))
  | .error reasons => do
    -- an error of the rollback is only logged
    ignoring (executeRollbackPhase cfg txnId ops)
    releaseToken idempotency
    fail (cancellation reasons)

def transactWriteItems (ops : List TransactOp) (idempotency : Option Idempotency) :
    Session TransactionError Unit :=
  match ops with
  | [] => pure ()
  | first :: rest =>
    if rest.any (fun op => op.accountId != first.accountId) then
      fail (.validation "Cross-account transactions not supported")
    else do
      reserveToken first.accountId idempotency
      runTransaction cfg txnId startedAt (first :: rest) idempotency

end

/-! ## Recovery

The worker finds the rows of a stale ledger entry by the texts in it, and commits or undoes each
operation by the recorded state. -/

section

variable (cfg : CassandraEngine)

def ledgerSkToSortKey (skCol : ScalarAttributeType) (skVal : String) :
    Except StorageError SortKeyValue :=
  match skCol with
  | .s => .ok (.s skVal)
  | .n =>
    match cfg.bigDecimal.parse skVal with
    | some d => .ok (.n d)
    | none => .error (.internal "invalid numeric sk in ledger: ")
  | .b =>
    match cfg.base64.decode skVal with
    | some b => .ok (.b b)
    | none => .error (.internal "invalid binary sk in ledger: ")

def ledgerRowKey (op : LedgerOp) : Except StorageError RowKey :=
  match op.skCol, op.skVal with
  | some skCol, some skVal => do
    let sk ← ledgerSkToSortKey cfg skCol skVal
    pure ⟨op.tableId, op.pk, some sk⟩
  | _, _ => .ok ⟨op.tableId, op.pk, none⟩

def readVersionByPk (key : RowKey) : Session TransactionError (Option Int) := do
  let row ← selectRow key
  pure (row.bind (·.version))

def landedCommitVersion (key : RowKey) (txnTimestamp : Int) (itemData : Item) :
    Session TransactionError (Option Int) := do
  match ← selectRow key with
  | none => pure none
  | some row =>
    if row.preparedTxnId.isSome || row.lastCommittedTxnTimestamp != some txnTimestamp then
      pure none
    else if row.itemData == some itemData then pure row.version
    else pure none

def LedgerOp.writesNothing (op : LedgerOp) : Bool :=
  match op.kind with
  | .check => true
  | .update => op.itemData.isNone
  | _ => false

variable (txnId : Uuid) (txnTimestamp : Int)

def missingItemData (op : LedgerOp) : TransactionError :=
  .internal ("ledger op " ++ (if op.kind = .put then "PUT" else "UPDATE") ++
    " missing item_data for " ++ toString txnId)

def recoverCommitItem (op : LedgerOp) (key : RowKey) : Session TransactionError (Option Int) := do
  match op.itemData with
  | none => fail (missingItemData txnId op)
  | some itemData => do
    let version ← readVersionByPk key
    let nextVersion ← lift (nextRowVersionAt version (← nowMicros))
    let applied ← lwt databaseError key (.preparedBy txnId)
      (.commit itemData nextVersion txnTimestamp)
    if applied then pure (some nextVersion)
    else landedCommitVersion key txnTimestamp itemData

def recoverCommitDelete (key : RowKey) : Session TransactionError (Option Int) := do
  let version ← readVersionByPk key
  let stamp ← lift (deleteStamp version (← nowMicros))
  updatePartitionMaxDelete txnTimestamp key.partition
  let applied ← lwt databaseError key (.preparedBy txnId) .delete
  pure (if applied then some stamp else none)

def recoverCommitOp (op : LedgerOp) : Session TransactionError (Option Int) := do
  let key ← lift (ledgerRowKey cfg op)
  if op.writesNothing then do
    let _ ← lwt databaseError key (.plantedBy txnId) .delete
    pure none
  else
    match op.kind with
    | .delete => recoverCommitDelete txnId txnTimestamp key
    | _ => recoverCommitItem txnId txnTimestamp op key

def recoverRollbackOp (op : LedgerOp) : Session TransactionError Unit := do
  let key ← lift (ledgerRowKey cfg op)
  let deleted ← lwt databaseError key (.plantedBy txnId) .delete
  if deleted then pure ()
  else do
    let _ ← lwt databaseError key (.preparedBy txnId) .clear
    pure ()

def recoverCommitAll : List LedgerOp → Session TransactionError Unit
  | [] => pure ()
  | op :: ops => do
    let _ ← recoverCommitOp cfg txnId txnTimestamp op
    recoverCommitAll ops

def recoverRollbackAll : List LedgerOp → Session TransactionError Unit
  | [] => pure ()
  | op :: ops => do
    recoverRollbackOp cfg txnId op
    recoverRollbackAll ops

structure LedgerEntry where
  state : TransactionState
  startedAt : Int
  itemsBlob : List LedgerOp

def readLedgerEntry : Session TransactionError (Option LedgerEntry) := do
  let row : Option LedgerRow ← ask (fun e => .internal ("read_ledger_entry: " ++ e))
    (.selectLedger txnId)
  match row with
  | none => pure none
  | some ⟨some state, some startedAt, some itemsBlob⟩ => pure (some ⟨state, startedAt, itemsBlob⟩)
  | some _ => fail (.internal "Database error")

def recoverTransaction : Session TransactionError Unit := do
  match ← readLedgerEntry txnId with
  | none => pure ()
  | some entry => do
    if entry.state = .committing then recoverCommitAll cfg txnId entry.startedAt entry.itemsBlob
    else recoverRollbackAll cfg txnId entry.itemsBlob
    deleteLedgerEntry txnId

end

end ExtendDb.Cassandra
