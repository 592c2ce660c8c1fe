import ExtendDb.Validation.Item
import ExtendDb.Expression.KeyCondition

/-!
# The key condition of a Query

What `handle_query` does with a `KeyConditionExpression`: parse it, assign its clauses to the key
attributes of the table or index and check the types of their values.
-/

namespace ExtendDb

open Fallible

structure ExpressionLimits where
  maxExpressionTokens : Nat
  maxExpressionLengthBytes : Nat
  enforceReservedKeywords : Bool
deriving DecidableEq

def ExpressionLimits.default : ExpressionLimits where
  maxExpressionTokens := 4096
  maxExpressionLengthBytes := 4096
  enforceReservedKeywords := true

def ExpressionKind.sizeErrorIncludesLength : ExpressionKind → Bool
  | .filter | .condition => true
  | _ => false

def checkExpressionSize (expr : String) (kind : ExpressionKind) (limits : ExpressionLimits) :
    Result Unit :=
  if expr.utf8ByteSize > limits.maxExpressionLengthBytes then
    validationErr ("Invalid " ++ kind.asStr ++
      ": Expression size has exceeded the maximum allowed size;" ++
      if kind.sizeErrorIncludesLength then " expression size: " ++ toString expr.utf8ByteSize
      else "")
  else .ok ()

def stripTextPrefix (head text : String) : Option String :=
  if head.toList.isPrefixOf text.toList then
    some (String.ofList (text.toList.drop head.toList.length))
  else none

def prefixExpressionError (kind : ExpressionKind) : DynamoDbError → DynamoDbError
  | .validationException msg =>
    match stripTextPrefix "Invalid ConditionExpression:" msg with
    | some rest => .validationException ("Invalid " ++ kind.asStr ++ ":" ++ rest)
    | none =>
      match stripTextPrefix "Invalid expression:" msg with
      | some rest => .validationException ("Invalid " ++ kind.asStr ++ ":" ++ rest)
      | none =>
        if (stripTextPrefix "Invalid " msg).isSome ||
            (stripTextPrefix "1 validation" msg).isSome then
          .validationException msg
        else .validationException ("Invalid " ++ kind.asStr ++ ": " ++ msg)
  | err => err

def parseKeyConditionExpr (isReserved : String → Bool) (expr : String)
    (limits : ExpressionLimits) : Result KeyCondition := do
  checkExpressionSize expr .keyCondition limits
  Except.mapError (prefixExpressionError .keyCondition) (do
    let tokens ← tokenizeFor expr limits.maxExpressionTokens .keyCondition
    if limits.enforceReservedKeywords then validateNoReservedWords isReserved tokens
    parseKeyCondition tokens)

def resolvePathAttrName (path : List PathElement) (names : List (String × String)) :
    Option String :=
  match path.head? with
  | some (.attr name) =>
    match stripPrefix '#' name with
    | some refName => OrdMap.get? names refName
    | none => some name
  | _ => none

def checkKeyValueType (attributeDefinitions : List AttributeDefinition) (maps : ExpressionMaps)
    (path : List PathElement) (expr : Expr) : Result Unit :=
  match resolvePathAttrName path maps.names with
  | none => .ok ()
  | some attr =>
    match declaredType attributeDefinitions attr, expr with
    | some ty, .placeholder name =>
      match OrdMap.get? maps.values name with
      | none => .ok ()
      | some value =>
        if ty.matches value then .ok ()
        else validationErr ("One or more parameter values were invalid: " ++
          "Condition parameter type does not match schema type")
    | _, _ => .ok ()

def refuseBeginsWithOnNumber (keyCondition : KeyCondition)
    (attributeDefinitions : List AttributeDefinition) (maps : ExpressionMaps) : Result Unit :=
  match keyCondition.skCondition with
  | some (.beginsWith path _) =>
    match resolvePathAttrName path maps.names with
    | some attr =>
      if attributeDefinitions.any (fun d => d.attributeName == attr && d.attributeType == .n) then
        .error (keyConditionErr ("Incorrect operand type for operator or function; " ++
          "operator or function: begins_with, operand type: N"))
      else .ok ()
    | none => .ok ()
  | _ => .ok ()

def typeDefinitions (keyInfo : TableKeyInfo) : List AttributeDefinition :=
  if isMultipartKeySchema keyInfo.keySchema then
    keyInfo.attributeDefinitions.filter fun d =>
      keyInfo.keySchema.any fun ks => ks.attributeName == d.attributeName
  else keyInfo.attributeDefinitions

def checkPartitionKeyNamed (keyInfo : TableKeyInfo) (keyCondition : KeyCondition)
    (maps : ExpressionMaps) : Result Unit :=
  if isMultipartKeySchema keyInfo.keySchema then .ok ()
  else
    let pkAttr := (keyInfo.keySchema.head?.map (·.attributeName)).getD ""
    if resolvePathAttrName keyCondition.pkPath maps.names = some pkAttr then .ok ()
    else validationErr ("Query condition missed key schema element: " ++ pkAttr)

def queryKeyCondition (isReserved : String → Bool) (limits : ExpressionLimits)
    (keyInfo : TableKeyInfo) (expr : String) (maps : ExpressionMaps) : Result KeyCondition := do
  let parsed ← parseKeyConditionExpr isReserved expr limits
  let keyCondition ← parsed.resolveKeySchemaWith keyInfo.keySchema maps.names
    (checkKeyValueType (typeDefinitions keyInfo) maps)
  refuseBeginsWithOnNumber keyCondition keyInfo.attributeDefinitions maps
  checkPartitionKeyNamed keyInfo keyCondition maps
  pure keyCondition

end ExtendDb
