import ExtendDb.Expression.KeyOrder
import ExtendDb.Engine.ReadPage

/-!
# `ExclusiveStartKey` of a Query

The checks of a start key against the key schema and against the key condition, and the test for a
page that ends at the far end of its sort key range.
-/

namespace ExtendDb

open Fallible

def combinedLekKeySchema (baseKeySchema : List KeySchemaElement) (indexInfo : Option IndexInfo) :
    List KeySchemaElement :=
  match indexInfo with
  | none => baseKeySchema
  | some idx =>
    idx.keySchema.foldl (fun combined ks =>
      if combined.any (fun k => k.attributeName == ks.attributeName) then combined
      else combined ++ [ks]) baseKeySchema

def checkExclusiveStartKey (startKey : Item) (required : List KeySchemaElement)
    (attributeDefinitions : List AttributeDefinition) (errorMessage : String) : Result Unit := do
  let invalid := DynamoDbError.validationException errorMessage
  required.forM fun ks =>
    if (OrdMap.get? startKey ks.attributeName).isSome then .ok () else .error invalid
  if startKey.length = required.length then pure () else throw invalid
  required.forM fun ks =>
    match declaredType attributeDefinitions ks.attributeName,
      OrdMap.get? startKey ks.attributeName with
    | some declared, some supplied =>
      if declared.matches supplied then .ok () else .error invalid
    | _, _ => .error invalid

def queryInvalidStartKeyMsg : String := "The provided starting key is invalid"

def queryStartKeyOutsideBoundariesMsg : String :=
  "The provided starting key is outside query boundaries based on provided conditions"

def queryExclusiveStartKeyInvalidMsg : String := "The provided exclusive start key is invalid"

def queryStartKeyRangePredicateMsg : String :=
  "The provided starting key does not match the range key predicate"

def queryAtMostOneRowMsg : String := "The query can return at most one row and cannot be restarted"

def validateQueryExclusiveStartKey (startKey : Item) (keyInfo : TableKeyInfo)
    (indexInfo : Option IndexInfo) : Result Unit :=
  checkExclusiveStartKey startKey (combinedLekKeySchema keyInfo.keySchema indexInfo)
    keyInfo.attributeDefinitions queryInvalidStartKeyMsg

structure QueryReadShape where
  keySchema : List KeySchemaElement
  onIndex : Bool
  forward : Bool
deriving DecidableEq

def QueryReadShape.isHashOnlyTable (shape : QueryReadShape) : Bool :=
  !shape.onIndex && !shape.keySchema.any fun k => k.keyType == .range

/-! ## The partition -/

def conditionAttributeName (path : List PathElement) (maps : ExpressionMaps) : Option String :=
  resolvePathAttrName path maps.names

inductive Partition where
  | same
  | differs
  /-- A condition value is undefined or of another type than the start key. -/
  | unknown
deriving DecidableEq

def wantedAndSupplied (startKey : Item) (maps : ExpressionMaps) (e : KeyEquality) :
    Option (AttributeValue × AttributeValue) := do
  let name ← conditionAttributeName e.1 maps
  let wanted ← placeholderValue e.2 maps
  let supplied ← OrdMap.get? startKey name
  pure (wanted, supplied)

def comparePartition (startKey : Item) (maps : ExpressionMaps) : List KeyEquality → Bool → Partition
  | [], unknown => if unknown then .unknown else .same
  | e :: rest, unknown =>
    match wantedAndSupplied startKey maps e with
    | some (wanted, supplied) =>
      if supplied.typeTag = wanted.typeTag then
        if supplied ≠ wanted then .differs else comparePartition startKey maps rest unknown
      else comparePartition startKey maps rest true
    | none => comparePartition startKey maps rest true

def partitionState (startKey : Item) (keyCondition : KeyCondition) (maps : ExpressionMaps) :
    Partition :=
  comparePartition startKey maps keyCondition.pkEqualities false

/-! ## The sort key range -/

def sortKeyPredicate : SortKeyCondition → Expr
  | .compare path op value => .compare (.path path) op value
  | .between path low high => .between (.path path) low high
  | .beginsWith path value => .function "begins_with" [.path path, value]

def sortKeyIsEvaluable (sk : SortKeyCondition) (startKey : Item) (maps : ExpressionMaps) : Bool :=
  match (conditionAttributeName sk.path maps).bind (OrdMap.get? startKey) with
  | none => false
  | some supplied =>
    sk.operands.all fun bound =>
      (placeholderValue bound.2 maps).any fun v => v.typeTag == supplied.typeTag

inductive FarEnd where
  /-- `sk = value` with the key equal to the value. -/
  | equality
  /-- `begins_with` in reverse with the key equal to the prefix. -/
  | reversePrefix
  /-- The inclusive bound at the end of iteration order. -/
  | bound
deriving DecidableEq

def farEndBound : SortKeyCondition → Bool → Option (Expr × FarEnd)
  | .compare _ .eq value, _ => some (value, .equality)
  | .compare _ .le value, true | .compare _ .ge value, false => some (value, .bound)
  | .between _ _ high, true => some (high, .bound)
  | .between _ low _, false => some (low, .bound)
  | .beginsWith _ value, false => some (value, .reversePrefix)
  | _, _ => none

section

variable (bd : BigDecimalCrate)

def farEnd (key : Item) (keyCondition : KeyCondition)
    (maps : ExpressionMaps) (shape : QueryReadShape) : Option FarEnd := do
  guard (!shape.onIndex)
  let sk ← keyCondition.skCondition
  guard (sortKeyIsEvaluable sk key maps)
  let (bound, kind) ← farEndBound sk shape.forward
  let atBound := Expr.compare (.path sk.path) .eq bound
  guard ((evaluateCondition bd key maps atBound).toOption = some true)
  pure kind

def failsRangePredicate (startKey : Item) (keyCondition : KeyCondition)
    (maps : ExpressionMaps) : Bool :=
  (keyCondition.skCondition.filter (sortKeyIsEvaluable · startKey maps)).any fun sk =>
    (evaluateCondition bd startKey maps (sortKeyPredicate sk)).toOption == some false

def validateQueryStartKeyBounds (startKey : Item)
    (keyCondition : KeyCondition) (maps : ExpressionMaps) (shape : QueryReadShape) :
    Result Unit := do
  if failsRangePredicate bd startKey keyCondition maps then
    throw (.validationException queryStartKeyRangePredicateMsg)
  let held := partitionState startKey keyCondition maps
  match farEnd bd startKey keyCondition maps shape, held with
  | some .bound, _ => throw (.validationException queryStartKeyRangePredicateMsg)
  | some .equality, .same => throw (.validationException queryExclusiveStartKeyInvalidMsg)
  | some .reversePrefix, .same => throw (.validationException queryStartKeyOutsideBoundariesMsg)
  | _, _ => pure ()
  if shape.isHashOnlyTable && held != .unknown then
    throw (.validationException queryExclusiveStartKeyInvalidMsg)
  if held = .differs then
    throw (.validationException (if keyCondition.skCondition.isSome then queryAtMostOneRowMsg
      else queryStartKeyOutsideBoundariesMsg))

def pageEndsAtFarEnd (lastKey : Item) (keyCondition : KeyCondition)
    (maps : ExpressionMaps) (shape : QueryReadShape) : Bool :=
  shape.isHashOnlyTable || (farEnd bd lastKey keyCondition maps shape).isSome

end

/-! ## The pages

`handle_query` from its checks of `Limit` and `ExclusiveStartKey` on, and the client that sends each
`LastEvaluatedKey` back as the next start key. -/

def validateQuerySelectIndexSupport (select : Option Select) (indexInfo : Option IndexInfo) :
    Result Unit :=
  match indexInfo with
  | none => .ok ()
  | some idx =>
    if select = some .allAttributes ∧ idx.indexType = .gsi ∧
        idx.projection.projectionType ≠ .all then
      validationErr ("One or more parameter values were invalid: Select type ALL_ATTRIBUTES is " ++
        "not supported for global secondary index " ++ idx.indexName ++
        " because its projection type is not ALL")
    else .ok ()

/-- A Query with its key condition resolved and its filter and projection compiled.  The maps are
those of the key condition and those of the filter. -/
structure QueryRequest where
  keyInfo : TableKeyInfo
  indexInfo : Option IndexInfo
  keyCondition : KeyCondition
  effectiveMaps : ExpressionMaps
  combinedMaps : ExpressionMaps
  filter : Option Expr
  projection : Option (Item → Item)
  select : Option Select
  scanIndexForward : Bool

namespace QueryRequest

variable (req : QueryRequest)

def queryKeySchema : List KeySchemaElement :=
  match req.indexInfo with
  | some idx => idx.keySchema
  | none => req.keyInfo.keySchema

def shape : QueryReadShape where
  keySchema := req.queryKeySchema
  onIndex := req.indexInfo.isSome
  forward := req.scanIndexForward

def lekKeySchema : List KeySchemaElement :=
  combinedLekKeySchema req.keyInfo.keySchema req.indexInfo

def post : PostRead where
  filter := req.filter
  projection := req.projection
  maps := req.combinedMaps
  lekKeySchema := req.lekKeySchema
  select := req.select
  indexProj := if req.select = some .allProjectedAttributes then req.indexInfo else none
  baseKeySchema := req.keyInfo.keySchema

def validateStartKey (bd : BigDecimalCrate) (startKey : Item) : Result Unit := do
  validateQueryExclusiveStartKey startKey req.keyInfo req.indexInfo
  validateQueryStartKeyBounds bd startKey req.keyCondition req.effectiveMaps req.shape

def validatePage (bd : BigDecimalCrate) (limit : Option Int) (startKey : Option Item) :
    Result Unit := do
  if startKey.isNone then validateQuerySelectIndexSupport req.select req.indexInfo
  if limit.any (· < 1) then
    throw (.validationException ("1 validation error detected: Value at 'Limit' failed to " ++
      "satisfy constraint: Member must have value greater than or equal to 1"))
  match startKey with
  | none => pure ()
  | some key =>
    req.validateStartKey bd key
    validateQuerySelectIndexSupport req.select req.indexInfo

def dropFarEndKey (bd : BigDecimalCrate) (result : PostReadResult) : PostReadResult :=
  { result with
    lastEvaluatedKey := result.lastEvaluatedKey.filter (fun key =>
      !pageEndsAtFarEnd bd key req.keyCondition req.effectiveMaps req.shape) }

end QueryRequest

section

variable {σ : Type} (bd : BigDecimalCrate) (budget : Nat) (fetch : Fetch σ) (req : QueryRequest)

def queryPage (fuel : Nat) (limit : Option Int) (startKey : Option Item) (s : σ) :
    Option (Result (PostReadResult × σ)) :=
  match req.validatePage bd limit startKey with
  | .error e => some (.error e)
  | .ok () =>
    (readPage bd budget limit req.post fetch fuel startKey s).map fun outcome =>
      (fun page => (req.dropFarEndKey bd page.1.post, page.2)) <$> outcome

/-- The pages a client gets that asks on from every `LastEvaluatedKey` until there is none, and the
error that stops it if there is one; page `i` has the limit `limits i`. -/
def pagedQuery (limits : Nat → Option Int) : Nat → Nat → Option Item → σ →
    Option (List PostReadResult × Option DynamoDbError)
  | 0, _, _, _ => none
  | fuel + 1, i, startKey, s =>
    match queryPage bd budget fetch req (fuel + 1) (limits i) startKey s with
    | none => none
    | some (.error e) => some ([], some e)
    | some (.ok (page, s)) =>
      match page.lastEvaluatedKey with
      | none => some ([page], none)
      | some key =>
        (pagedQuery limits fuel (i + 1) (some key) s).map fun later =>
          (page :: later.1, later.2)

end

end ExtendDb
