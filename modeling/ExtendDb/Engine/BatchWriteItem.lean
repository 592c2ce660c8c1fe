import ExtendDb.Theory.Journal
import ExtendDb.Validation.Nested

/-!
# BatchWriteItem

The handler checks counts, request shapes and attribute names of the whole request first.
-/

namespace ExtendDb

open Journal

inductive StorageWrite where
  | put (keyInfo : TableKeyInfo) (item : Item)
  | delete (keyInfo : TableKeyInfo) (key : Item)
deriving DecidableEq

/-- `OperationContext`, over a storage engine with state `σ`.  Storage errors are taken after
`storage_err_to_dynamo`. -/
structure OperationContext (σ : Type) where
  limits : LimitsConfig
  floatText : FloatText
  tableKeyInfo : String → Result TableKeyInfo
  storage : StorageWrite → σ → Result Unit × σ

/-- Handlers: their own checks reject, the storage engine fails. -/
abbrev Handler (σ : Type) := Journal.Program σ StorageWrite DynamoDbError DynamoDbError

/-! ## Count limits -/

def maxBatchGetKeys : Nat := 100
def maxBatchWriteItems : Nat := 25

inductive BatchOperation where
  | batchGetItem
  | batchWriteItem
deriving DecidableEq

def BatchOperation.name : BatchOperation → String
  | .batchGetItem => "BatchGetItem"
  | .batchWriteItem => "BatchWriteItem"

/-- The limit on tables, on requests of one table and on requests in total. -/
def BatchOperation.limit : BatchOperation → Nat
  | .batchGetItem => maxBatchGetKeys
  | .batchWriteItem => maxBatchWriteItems

def writeRequestsRepr (count : Nat) : String :=
  ", ".intercalate (List.replicate count "WriteRequest")

def perTableCountError (op : BatchOperation) (tableName : String) (count : Nat) : DynamoDbError :=
  match op with
  | .batchGetItem =>
    let bound := if count = 0 then "greater than or equal to 1" else "less than or equal to 100"
    .validationException ("1 validation error detected: Value at 'RequestItems." ++ tableName ++
        ".member.Keys' failed to satisfy constraint: Member must have length " ++ bound)
  | .batchWriteItem =>
    .validationException ("1 validation error detected: Value '\x7b" ++ tableName ++ "=[" ++
        writeRequestsRepr count ++ "]\x7d' at 'requestItems' failed to satisfy constraint: " ++
        "Map value must satisfy constraint: [Member must have length less than or equal to 25, " ++
        "Member must have length greater than or equal to 1]")

def emptyBatchError : BatchOperation → DynamoDbError
  | .batchGetItem =>
    .validationException
      ("1 validation error detected: Value at 'RequestItems' failed to satisfy constraint: " ++
        "Member must have length greater than or equal to 1")
  | .batchWriteItem =>
    .validationException "The requestItems parameter is required for BatchWriteItem"

def tooManyTablesError (op : BatchOperation) (tables : List (String × Option Nat)) :
    DynamoDbError :=
  match op with
  | .batchGetItem =>
    .validationException
      ("1 validation error detected: Value at 'RequestItems' failed to satisfy constraint: " ++
        "Member must have length less than or equal to 100")
  | .batchWriteItem =>
    let map := ", ".intercalate
      (tables.map fun t => t.1 ++ "=[" ++ writeRequestsRepr (t.2.getD 0) ++ "]")
    .validationException
      ("1 validation error detected: Value '\x7b" ++ map ++ "\x7d' at 'requestItems' failed to " ++
        "satisfy constraint: Member must have length less than or equal to 25")

def checkBatchCounts (op : BatchOperation) (tables : List (String × Option Nat)) : Result Unit := do
  if tables.isEmpty then
    throw (emptyBatchError op)
  if tables.length > op.limit then
    throw (tooManyTablesError op tables)
  tables.forM fun t =>
    match t.2 with
    | some count => if count > op.limit then throw (perTableCountError op t.1 count) else pure ()
    | none => pure ()
  if (tables.filterMap Prod.snd).sum > op.limit then
    throw (.validationException ("Too many items requested for the " ++ op.name ++ " call"))
  tables.forM fun t => if t.2 = some 0 then throw (perTableCountError op t.1 0) else pure ()

/-! ## The handler -/

structure WriteRequest where
  putRequest : Option Item
  deleteRequest : Option Item
deriving DecidableEq

/-- Tables with their requests, in the order the handler visits them. -/
abbrev RequestItems := List (String × List WriteRequest)

def validateWriteRequestShape (wr : WriteRequest) : Result Unit :=
  match wr.putRequest, wr.deleteRequest with
  | none, none | some _, some _ =>
    .error (.validationException
      ("Supplied AttributeValue is empty, must contain exactly one of the supported datatypes"))
  | _, _ => .ok ()

def extractWriteKey (wr : WriteRequest) (keySchema : List KeySchemaElement) : Item :=
  match wr.putRequest, wr.deleteRequest with
  | some item, _ => extractKey item keySchema
  | none, some key => key
  | none, none => []

def validateNoDuplicateKeys (reqs : List WriteRequest) (keySchema : List KeySchemaElement) :
    Result Unit := do
  let _ ← reqs.foldlM (fun seen wr =>
    let key := extractWriteKey wr keySchema
    if key ∈ seen then
      .error (.validationException "Provided list of item keys contains duplicates")
    else
      .ok (seen ++ [key])) ([] : List Item)
  .ok ()

section

variable {σ : Type} (ctx : OperationContext σ)

def checkBatchPut (keyInfo : TableKeyInfo) (item : Item) : Result Unit := do
  validateBatchItemKeys item keyInfo.keySchema keyInfo.attributeDefinitions
  validateItemNestingDepth item
  validateItemSize item ctx.limits.maxItemSizeBytes
  validateKeySizes item keyInfo.keySchema ctx.limits
  validateVectorWrite ctx.floatText item keyInfo.vectorIndexes keyInfo.attributeDefinitions

def checkBatchDelete (keyInfo : TableKeyInfo) (key : Item) : Result Unit :=
  validateBatchKeyOnly key keyInfo.keySchema keyInfo.attributeDefinitions

/-- One pass of the inner loop. -/
def writeBatchRequest (keyInfo : TableKeyInfo) (wr : WriteRequest) : Handler σ Unit :=
  match wr.putRequest, wr.deleteRequest with
  | some item, _ => do
    check (checkBatchPut ctx keyInfo item)
    write ctx.storage (.put keyInfo item)
  | none, some key => do
    check (checkBatchDelete keyInfo key)
    write ctx.storage (.delete keyInfo key)
  | none, none => pure ()

/-- One pass of the outer loop. -/
def writeBatchTable (table : String × List WriteRequest) : Handler σ Unit := do
  let keyInfo ← fetch (ctx.tableKeyInfo table.1)
  check (validateNoDuplicateKeys table.2 keyInfo.keySchema)
  table.2.forM (writeBatchRequest ctx keyInfo)

def checkBatchRequest (requestItems : RequestItems) : Result Unit := do
  checkBatchCounts .batchWriteItem (requestItems.map fun t => (t.1, some t.2.length))
  requestItems.forM fun t => t.2.forM validateWriteRequestShape
  requestItems.forM fun t => (t.2.filterMap (·.putRequest)).forM fun item =>
    validateAttributeNameSizes item ctx.limits .batchRequest

def handleBatchWriteItem (requestItems : RequestItems) : Handler σ Unit := do
  check (checkBatchRequest ctx requestItems)
  requestItems.forM (writeBatchTable ctx)

/-! ## The handler as a line of checks and writes -/

abbrev BatchStep := Step DynamoDbError DynamoDbError StorageWrite

def requestSteps (keyInfo : TableKeyInfo) (wr : WriteRequest) : List BatchStep :=
  match wr.putRequest, wr.deleteRequest with
  | some item, _ => [.check (checkBatchPut ctx keyInfo item), .write (.put keyInfo item)]
  | none, some key => [.check (checkBatchDelete keyInfo key), .write (.delete keyInfo key)]
  | none, none => []

def tableSteps (table : String × List WriteRequest) : List BatchStep :=
  match ctx.tableKeyInfo table.1 with
  | .error e => [.fetch (.error e)]
  | .ok keyInfo =>
    .check (validateNoDuplicateKeys table.2 keyInfo.keySchema) ::
      table.2.flatMap (requestSteps ctx keyInfo)

def batchSteps (requestItems : RequestItems) : List BatchStep :=
  .check (checkBatchRequest ctx requestItems) :: requestItems.flatMap (tableSteps ctx)

theorem writeBatchRequest_eq (keyInfo wr) :
    writeBatchRequest ctx keyInfo wr = performAll ctx.storage (requestSteps ctx keyInfo wr) := by
  unfold writeBatchRequest requestSteps
  split <;> simp [performAll, perform]

theorem writeBatchTable_eq (table) :
    writeBatchTable ctx table = performAll ctx.storage (tableSteps ctx table) := by
  unfold writeBatchTable tableSteps
  cases ctx.tableKeyInfo table.1 with
  | error e => simp [performAll, perform, fetch]
  | ok keyInfo =>
    show (do check _; table.2.forM (writeBatchRequest ctx keyInfo)) = _
    rw [funext (writeBatchRequest_eq ctx keyInfo), ← performAll_flatMap]
    rfl

theorem handleBatchWriteItem_eq (requestItems) : handleBatchWriteItem ctx requestItems =
      performAll ctx.storage (batchSteps ctx requestItems) := by
  unfold handleBatchWriteItem batchSteps
  rw [funext (writeBatchTable_eq ctx), ← performAll_flatMap]
  rfl

/-- A batch rejects before it writes exactly when, along its checks and writes in visiting order,
no failing check comes behind a write that everything before it let through. -/
theorem handleBatchWriteItem_rejectsBeforeWriting_iff (requestItems : RequestItems) (s : σ) :
    RejectsBeforeWriting (handleBatchWriteItem ctx requestItems) s ↔
      ¬ LateRejection ctx.storage (batchSteps ctx requestItems) s := by
  rw [handleBatchWriteItem_eq, rejectsBeforeWriting_iff]

end

/-! ## A rejected batch that has written -/

def rowStorage (w : StorageWrite) (rows : List (String × Item)) :
    Result Unit × List (String × Item) :=
  let without (keyInfo : TableKeyInfo) (key : Item) :=
    rows.filter fun r => !(r.1 == keyInfo.tableName && extractKey r.2 keyInfo.keySchema == key)
  match w with
  | .put keyInfo item =>
    (.ok (), without keyInfo (extractKey item keyInfo.keySchema) ++ [(keyInfo.tableName, item)])
  | .delete keyInfo key => (.ok (), without keyInfo key)

def singleTableContext : OperationContext (List (String × Item)) where
  limits := .default
  floatText := ⟨fun _ => true, fun _ => none⟩
  tableKeyInfo name :=
    if name = "t" then .ok singleKeyTable
    else .error (.resourceNotFoundException "Requested resource not found")
  storage := rowStorage

def putsWithLateMissingKey : RequestItems :=
  [("t", [⟨some [("pk", .s "a")], none⟩, ⟨some [("v", .s "b")], none⟩])]

/-- The first put is stored, then the batch is rejected for the second. -/
theorem handleBatchWriteItem_rejects_after_writing :
    exec (handleBatchWriteItem singleTableContext putsWithLateMissingKey) ⟨[], []⟩ =
      (.error (.rejected (missingKeyErr "pk")),
        ⟨[("t", [("pk", .s "a")])], [.put singleKeyTable [("pk", .s "a")]]⟩) ∧
    ¬ RejectsBeforeWriting (handleBatchWriteItem singleTableContext putsWithLateMissingKey) [] := by
  have hexec : exec (handleBatchWriteItem singleTableContext putsWithLateMissingKey) ⟨[], []⟩ =
      (.error (.rejected (missingKeyErr "pk")),
        ⟨[("t", [("pk", .s "a")])], [.put singleKeyTable [("pk", .s "a")]]⟩) := by
    decide +kernel
  refine ⟨hexec, fun hclean => ?_⟩
  have hw := hclean _ _ hexec
  cases hw

end ExtendDb
