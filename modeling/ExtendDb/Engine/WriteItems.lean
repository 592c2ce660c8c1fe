import ExtendDb.Storage.Store
import ExtendDb.Validation.Nested

/-!
# PutItem, UpdateItem and TransactWriteItems

The handlers from the parsed request on: the checks of the item, the key and the placeholder values,
then the write.
-/

namespace ExtendDb

structure EngineConfig where
  limits : LimitsConfig
  tableKeyInfo : String → Result TableKeyInfo
  storage : StorageConfig

/-! ## PutItem -/

structure PutItemInput where
  tableName : String
  item : Item
  expressionAttributeValues : List (String × AttributeValue)
  condition : Option Condition
  requestChecks : Result Unit

def validatePutItem (item : Item) (limits : LimitsConfig) (keyInfo : TableKeyInfo) :
    Result Unit := do
  validateItemKeys item keyInfo.keySchema keyInfo.attributeDefinitions
  validateItemNumbers item
  validateItemNestingDepth item
  validateItemSize item limits.maxItemSizeBytes
  validateKeySizes item keyInfo.keySchema limits

def handlePutItem (cfg : EngineConfig) (input : PutItemInput) (s : Store) : Result Store := do
  validateAttributeNameSizes input.item cfg.limits .singleItem
  input.requestChecks
  let keyInfo ← cfg.tableKeyInfo input.tableName
  validatePutItem input.item cfg.limits keyInfo
  validateAttributeValuesNestingDepth (input.expressionAttributeValues.map Prod.snd)
  validateVectorWrite cfg.storage.floatText input.item keyInfo.vectorIndexes
    keyInfo.attributeDefinitions
  putItem s keyInfo input.item input.condition

/-! ## UpdateItem -/

/-- An entry of the legacy `AttributeUpdates`. -/
structure AttributeValueUpdate where
  value : Option AttributeValue
  action : String

/-- The two forms of an update: a parsed `UpdateExpression` with its names and values, or the legacy
`AttributeUpdates`, which the handler refuses beside an expression. -/
inductive UpdateDirective where
  | expression (actions : List UpdateAction) (maps : ExpressionMaps)
  | attributeUpdates (updates : List (String × AttributeValueUpdate))

structure UpdateItemInput where
  tableName : String
  key : Item
  update : UpdateDirective
  condition : Option Condition
  requestChecks : Result Unit

def missingUpdateValueErr (action attrName : String) : DynamoDbError :=
  .validationException
    ("One or more parameter values were invalid: Value must be specified for " ++ action ++
      " action on attribute " ++ attrName)

/-- One legacy entry, with the placeholder number it gets. -/
def desugarOne (idx : Nat) (attrName : String) (update : AttributeValueUpdate) :
    Result UpdateAction :=
  let path := [PathElement.attr ("#_an" ++ toString idx)]
  let value := Expr.placeholder ("_au" ++ toString idx)
  let action := update.action.toUpper
  if action = "PUT" then
    if update.value.isSome then .ok (.set path value)
    else .error (missingUpdateValueErr "PUT" attrName)
  else if action = "DELETE" then
    if update.value.isSome then .ok (.delete path value) else .ok (.remove path)
  else if action = "ADD" then
    if update.value.isSome then .ok (.add path value)
    else .error (missingUpdateValueErr "ADD" attrName)
  else
    .error (.validationException
      ("1 validation error detected: Value '" ++ action ++ "' at 'attributeUpdates." ++ attrName ++
        ".member.action' failed to satisfy constraint: Member must satisfy enum value set: " ++
        "[ADD, PUT, DELETE]"))

/-- The order of the clauses in the expression the legacy form is turned into. -/
def clauseOrder : List UpdateAction → List UpdateAction := fun actions =>
  actions.filter (fun | .set _ _ => true | _ => false) ++
    actions.filter (fun | .remove _ => true | _ => false) ++
    actions.filter (fun | .add _ _ => true | _ => false) ++
    actions.filter fun | .delete _ _ => true | _ => false

def desugarAttributeUpdates (updates : List (String × AttributeValueUpdate)) :
    Result (List UpdateAction × ExpressionMaps) := do
  let numbered := updates.zipIdx
  let actions ← numbered.mapM fun u => desugarOne u.2 u.1.1 u.1.2
  let names := OrdMap.ofList (numbered.map fun u => ("_an" ++ toString u.2, u.1.1))
  let values := OrdMap.ofList (numbered.filterMap fun u =>
    u.1.2.value.map fun v => ("_au" ++ toString u.2, v))
  pure (clauseOrder actions, ⟨names, values⟩)

/-- The values a request supplies are valid numbers, in the order of their placeholders. -/
def validateExpressionAttributeValueNumbers (values : List (String × AttributeValue)) :
    Result Unit :=
  values.forM fun e =>
    match validateAttributeNumber e.2 with
    | .ok _ => .ok ()
    | .error (.validationException inner) =>
      .error (.validationException
        ("ExpressionAttributeValues contains invalid value: " ++ inner ++ " for key :" ++ e.1))
    | .error other => .error other

def validateUpdateItem (key : Item) (update : UpdateDirective) (limits : LimitsConfig)
    (keyInfo : TableKeyInfo) : Result Unit := do
  validateKeyOnly key keyInfo.keySchema keyInfo.attributeDefinitions
  validateKeySizes key keyInfo.keySchema limits
  match update with
  | .expression _ maps => validateExpressionAttributeValueNumbers maps.values
  | .attributeUpdates updates =>
    validateAttributeValuesNestingDepth (updates.filterMap (·.2.value))
    validateListNumbers (updates.filterMap (·.2.value))

def validateNoKeyUpdates (actions : List UpdateAction) (keyInfo : TableKeyInfo)
    (maps : ExpressionMaps) : Result Unit :=
  actions.forM fun action =>
    match action.path with
    | .attr name :: _ => do
      let resolved ← resolveNameRef name maps
      keyInfo.keySchema.forM fun ks =>
        if ks.attributeName = resolved then
          throw (.validationException
            ("One or more parameter values were invalid: Cannot update attribute " ++
              ks.attributeName ++ ". This attribute is part of the key"))
        else pure ()
    | _ => pure ()

def UpdateDirective.effective : UpdateDirective → Result (List UpdateAction × ExpressionMaps)
  | .expression actions maps => .ok (actions, maps)
  | .attributeUpdates updates => desugarAttributeUpdates updates

def UpdateDirective.checkValueDepth : UpdateDirective → Result Unit
  | .expression _ maps => validateAttributeValuesNestingDepth (maps.values.map Prod.snd)
  | .attributeUpdates _ => .ok ()

def handleUpdateItem (cfg : EngineConfig) (input : UpdateItemInput) (s : Store) : Result Store := do
  let (actions, maps) ← input.update.effective
  input.requestChecks
  let keyInfo ← cfg.tableKeyInfo input.tableName
  validateUpdateItem input.key input.update cfg.limits keyInfo
  input.update.checkValueDepth
  validateNoKeyUpdates actions keyInfo maps
  updateItem cfg.storage s keyInfo input.key actions maps input.condition

/-! ## TransactWriteItems

The handler prepares every member, refuses two members on one item, an oversized request, oversized
keys and malformed vectors, and hands the members to the storage engine as one write. -/

def maxTransactItems : Nat := 100

inductive TransactOperation where
  | put (tableName : String) (item : Item) (condition : Option Condition)
  | delete (tableName : String) (key : Item) (condition : Option Condition)
  | update (tableName : String) (key : Item) (actions : List UpdateAction)
      (maps : ExpressionMaps) (condition : Option Condition)
  | conditionCheck (tableName : String) (key : Item) (condition : Condition)

structure TransactWriteItem where
  operation : TransactOperation
  expressionChecks : Result Unit

def checkTransactCount (count : Nat) : Result Unit :=
  if count = 0 then
    .error (.validationException
      ("1 validation error detected: Value '[]' at 'transactItems' failed to satisfy constraint: " ++
        "Member must have length greater than or equal to 1"))
  else if count > maxTransactItems then
    .error (.validationException ("1 validation error detected: Value '[" ++
        ", ".intercalate (List.replicate count "TransactWriteItem") ++
        "]' at 'transactItems' failed to satisfy constraint: " ++
        "Member must have length less than or equal to 100"))
  else
    .ok ()

def validateMemberAttributeNameSizes (limits : LimitsConfig) (twi : TransactWriteItem) :
    Result Unit :=
  match twi.operation with
  | .put _ item _ => validateAttributeNameSizes item limits .transactionMember
  | _ => .ok ()

mutual

def collectValuePlaceholders : Expr → List String
  | .placeholder name => [name]
  | .path _ => []
  | .compare left _ right | .arithmetic left _ right =>
    collectValuePlaceholders left ++ collectValuePlaceholders right
  | .and left right | .or left right =>
    collectValuePlaceholders left ++ collectValuePlaceholders right
  | .not inner => collectValuePlaceholders inner
  | .function _ args => collectArgPlaceholders args
  | .between operand low high =>
    collectValuePlaceholders operand ++ collectValuePlaceholders low ++
      collectValuePlaceholders high
  | .in operand list => collectValuePlaceholders operand ++ collectArgPlaceholders list

def collectArgPlaceholders : List Expr → List String
  | [] => []
  | e :: es => collectValuePlaceholders e ++ collectArgPlaceholders es

end

def checkSetPlaceholderDepth (actions : List UpdateAction) (maps : ExpressionMaps) : Result Unit :=
  let placeholders := actions.flatMap (fun
    | .set _ value => collectValuePlaceholders value
    | _ => [])
  validateAttributeValuesNestingDepth (placeholders.filterMap (OrdMap.get? maps.values))

def prepareWriteOp (cfg : EngineConfig) (twi : TransactWriteItem) : Result TransactWriteOp :=
  match twi.operation with
  | .put tableName item condition => do
    let keyInfo ← cfg.tableKeyInfo tableName
    validateItemNestingDepth item
    validateItemSize item cfg.limits.maxItemSizeBytes
    validateKeyNotEmpty item keyInfo.keySchema
    twi.expressionChecks
    pure (.put keyInfo item condition)
  | .delete tableName key condition => do
    let keyInfo ← cfg.tableKeyInfo tableName
    validateKeyNotEmpty key keyInfo.keySchema
    twi.expressionChecks
    pure (.delete keyInfo key condition)
  | .update tableName key actions maps condition => do
    let keyInfo ← cfg.tableKeyInfo tableName
    validateKeyNotEmpty key keyInfo.keySchema
    validateNoKeyUpdates actions keyInfo maps
    checkSetPlaceholderDepth actions maps
    twi.expressionChecks
    pure (.update keyInfo key actions maps condition)
  | .conditionCheck tableName key condition => do
    let keyInfo ← cfg.tableKeyInfo tableName
    validateKeyNotEmpty key keyInfo.keySchema
    twi.expressionChecks
    pure (.conditionCheck keyInfo key condition)

namespace TransactWriteOp

def keyInfo : TransactWriteOp → TableKeyInfo
  | .put keyInfo _ _ | .delete keyInfo _ _ | .update keyInfo _ _ _ _ | .conditionCheck keyInfo _ _ =>
    keyInfo

def itemOrKey : TransactWriteOp → Item
  | .put _ item _ => item
  | .delete _ key _ | .update _ key _ _ _ | .conditionCheck _ key _ => key

def canonicalTarget : TransactWriteOp → String × Item
  | .put keyInfo item _ => (keyInfo.tableName, extractKey item keyInfo.keySchema)
  | .delete keyInfo key _ | .update keyInfo key _ _ _ | .conditionCheck keyInfo key _ =>
    (keyInfo.tableName, key)

/-- The size a member counts for in the request limit. -/
def itemSize : TransactWriteOp → Nat
  | .update _ key _ maps _ =>
    itemSizeBytes key + (maps.values.map fun e => attributeValueSize e.2).sum
  | op => itemSizeBytes op.itemOrKey

end TransactWriteOp

def prepareAll (cfg : EngineConfig) (items : List TransactWriteItem) :
    Result (List TransactWriteOp) :=
  items.foldlM (fun prepared twi => do
    let op ← prepareWriteOp cfg twi
    if op.canonicalTarget ∈ prepared.map (·.canonicalTarget) then
      throw (.validationException
        "Transaction request cannot include multiple operations on one item")
    else pure (prepared ++ [op])) []

def assignedVectorAttributes (actions : List UpdateAction) (maps : ExpressionMaps) : Item :=
  actions.foldl (fun assigned action =>
    match action with
    | .set [.attr name] (.placeholder placeholder) =>
      let resolved := ((stripPrefix '#' name).bind (OrdMap.get? maps.names)).getD name
      match OrdMap.get? maps.values placeholder with
      | some value => OrdMap.insert assigned resolved value
      | none => assigned
    | _ => assigned) []

def vectorCheck (ft : FloatText) : TransactWriteOp → Result Unit
  | .put keyInfo item _ =>
    validateVectorWrite ft item keyInfo.vectorIndexes keyInfo.attributeDefinitions
  | .update keyInfo _ actions maps _ =>
    validateVectorWrite ft (assignedVectorAttributes actions maps) keyInfo.vectorIndexes
      keyInfo.attributeDefinitions
  | _ => .ok ()

def cancelUnless (check : TransactWriteOp → Result Unit) (ops : List TransactWriteOp) :
    Result Unit :=
  if ops.all (fun op => (check op).isOk) then
    .ok ()
  else
    .error (transactionCanceledErr (ops.map fun op =>
      match check op with
      | .ok _ => .none
      | .error e => .validationError e.message))

def handleTransactWriteItems (cfg : EngineConfig) (items : List TransactWriteItem) (s : Store) :
    Result Store := do
  checkTransactCount items.length
  items.forM (validateMemberAttributeNameSizes cfg.limits)
  let prepared ← prepareAll cfg items
  if (prepared.map (·.itemSize)).sum > 4 * 1024 * 1024 then
    throw (.validationException "Transaction item size has exceeded the 4 MB limit")
  cancelUnless
    (fun op => validateKeySizeLimits op.itemOrKey op.keyInfo.keySchema cfg.limits) prepared
  cancelUnless (vectorCheck cfg.storage.floatText) prepared
  transactWriteItems cfg.storage s prepared

end ExtendDb
