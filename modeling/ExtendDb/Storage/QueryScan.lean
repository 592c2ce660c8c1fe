import ExtendDb.Expression.KeyCondition
import ExtendDb.Storage.NumberKey
import ExtendDb.Storage.KeyText

/-!
# Row selection of the SQLite backend

The `WHERE` clause that `query_impl` builds from a key condition, and the rows it keeps.  A SQL
fragment is modelled by the comparisons it makes between a column and the values bound to it.
-/

namespace ExtendDb

open Fallible

inductive SortKeyValue where
  | s (v : String)
  | n (v : BigDecimal)
  | b (v : Bytes)

def parseSk (bd : BigDecimalCrate) (value : AttributeValue) (skType : ScalarAttributeType) :
    Except StorageError SortKeyValue :=
  match skType, value with
  | .s, .s s => .ok (.s s)
  | .n, .n n =>
    match bd.parse n with
    | some d => .ok (.n d)
    | none => .error (.internal "invalid numeric sort key: ")
  | .b, .b b => .ok (.b b)
  | _, _ => .error (.internal "sort key type mismatch")

inductive BoundValue where
  | text (v : String)
  | blob (v : Bytes)
deriving DecidableEq

def skBound (bd : BigDecimalCrate) : SortKeyValue → BoundValue
  | .s s => .text s
  | .n d => .text (encodeOrderableNumber bd d)
  | .b b => .blob b

def BoundValue.cmp : BoundValue → BoundValue → Ordering
  | .text s, .text t => Utf8.compareBytes s t
  | .text _, .blob _ => .lt
  | .blob _, .text _ => .gt
  | .blob a, .blob b => compare a b

def skInfo (keySchema : List KeySchemaElement) (attrDefs : List AttributeDefinition) :
    Option (String × ScalarAttributeType) := do
  let element ← keySchema.find? fun ks => ks.keyType = .range
  let ty ← declaredType attrDefs element.attributeName
  pure (element.attributeName, ty)

def allSortKeyInfo (keySchema : List KeySchemaElement) (attrDefs : List AttributeDefinition) :
    List (String × ScalarAttributeType) :=
  (rangeKeyElements keySchema).filterMap fun ks =>
    (declaredType attrDefs ks.attributeName).map (ks.attributeName, ·)

/-! ## Conditions -/

def resolveExprToAv (expr : Expr) (maps : ExpressionMaps) : Except StorageError AttributeValue :=
  match expr with
  | .placeholder name =>
    (maps.resolveValue name).mapError fun e => .validation e.message
  | _ => .error (.internal "expected placeholder in key condition")

def resolveAttrName (path : List PathElement) (maps : ExpressionMaps) : Option String :=
  match path.head? with
  | some (.attr name) =>
    match stripPrefix '#' name with
    | some reference => OrdMap.get? maps.names reference
    | none => some name
  | _ => none

/-- The smallest byte string above every one with this prefix: the last byte below `0xFF`
incremented and the rest dropped; `none` when there is no such byte. -/
def binaryPrefixUpperBound : Bytes → Option Bytes
  | [] => none
  | b :: rest =>
    match binaryPrefixUpperBound rest with
    | some upper => some (b :: upper)
    | none => if b < 0xFF then some [b + 1] else none

/-- The highest code point, `char(1114111)`. -/
def maxChar : Char := Char.ofNat 1114111

def buildSkSqlAndBinds (bd : BigDecimalCrate) (cond : SortKeyCondition)
    (skType : ScalarAttributeType) (maps : ExpressionMaps) :
    Except StorageError (List (CompareOp × BoundValue)) :=
  match cond with
  | .compare _ op value => do
    let sk ← parseSk bd (← resolveExprToAv value maps) skType
    pure [(op, skBound bd sk)]
  | .between _ low high => do
    let lowSk ← parseSk bd (← resolveExprToAv low maps) skType
    let highSk ← parseSk bd (← resolveExprToAv high maps) skType
    pure [(.ge, skBound bd lowSk), (.le, skBound bd highSk)]
  | .beginsWith _ value => do
    match ← parseSk bd (← resolveExprToAv value maps) skType with
    | .b b =>
      match binaryPrefixUpperBound b with
      | some upper => pure [(.ge, .blob b), (.lt, .blob upper)]
      | none => pure [(.ge, .blob b)]
    | .s s => pure [(.ge, .text s), (.lt, .text (s.push maxChar))]
    | .n _ => throw (.validation "begins_with is not supported on numeric sort keys")

/-! ## Rows -/

structure StoredRow where
  item : Item
  pk : String
  sks : List BoundValue

def storeRow (bd : BigDecimalCrate) (base64 : Base64Engine) (keySchema : List KeySchemaElement)
    (attrDefs : List AttributeDefinition) (item : Item) : Except StorageError StoredRow := do
  let pk ← compositePkToText base64 item keySchema
  let sks ← (allSortKeyInfo keySchema attrDefs).mapM fun (name, ty) => do
    match OrdMap.get? item name with
    | none => throw (.internal ("missing sort key " ++ name))
    | some value => skBound bd <$> parseSk bd value ty
  pure ⟨item, pk, sks⟩

/-- The `WHERE` clause: the partition and comparisons of sort key columns by position. -/
structure RowFilter where
  pk : String
  tests : List (Nat × CompareOp × BoundValue)

namespace RowFilter

def columnPasses (row : StoredRow) (test : Nat × CompareOp × BoundValue) : Bool :=
  match row.sks[test.1]? with
  | some value => test.2.1.accepts (value.cmp test.2.2)
  | none => false

def keeps (filter : RowFilter) (row : StoredRow) : Bool :=
  row.pk == filter.pk && filter.tests.all (columnPasses row)

end RowFilter

def conditionPkText (base64 : Base64Engine) (kc : KeyCondition) (maps : ExpressionMaps) :
    Except StorageError String := do
  let first ← pkToText base64 (← resolveExprToAv kc.pkValue maps)
  if kc.extraPkConditions.isEmpty then pure first
  else
    let rest ← kc.extraPkConditions.mapM fun e => do
      pkToText base64 (← resolveExprToAv e.2 maps)
    pure (encodeNetstringComposite (first :: rest))

def rangeColumn (sks : List (String × ScalarAttributeType)) (maps : ExpressionMaps)
    (path : List PathElement) : Option (Nat × ScalarAttributeType) := do
  let name ← resolveAttrName path maps
  let pos ← sks.findIdx? fun sk => sk.1 == name
  let sk ← sks[pos]?
  pure (pos, sk.2)

def sortColumn (keySchema : List KeySchemaElement) (attrDefs : List AttributeDefinition)
    (maps : ExpressionMaps) (cond : SortKeyCondition) : Option (Nat × ScalarAttributeType) :=
  (rangeColumn (allSortKeyInfo keySchema attrDefs) maps cond.path).or
    ((skInfo keySchema attrDefs).map fun info => (0, info.2))

def columnTests (bd : BigDecimalCrate) (maps : ExpressionMaps) (cond : SortKeyCondition)
    (column : Option (Nat × ScalarAttributeType)) :
    Except StorageError (List (Nat × CompareOp × BoundValue)) :=
  match column with
  | none => .ok []
  | some (pos, ty) => do
    let tests ← buildSkSqlAndBinds bd cond ty maps
    pure (tests.map fun test => (pos, test))

def queryFilter (bd : BigDecimalCrate) (base64 : Base64Engine) (keySchema : List KeySchemaElement)
    (attrDefs : List AttributeDefinition) (kc : KeyCondition) (maps : ExpressionMaps) :
    Except StorageError RowFilter := do
  let pk ← conditionPkText base64 kc maps
  let skTests ← kc.skCondition.toList.mapM fun cond =>
    columnTests bd maps cond (sortColumn keySchema attrDefs maps cond)
  let extraTests ← kc.extraSkConditions.mapM fun e =>
    columnTests bd maps e.condition (rangeColumn (allSortKeyInfo keySchema attrDefs) maps e.1)
  pure ⟨pk, skTests.flatten ++ extraTests.flatten⟩

def queryRows (bd : BigDecimalCrate) (base64 : Base64Engine) (keySchema : List KeySchemaElement)
    (attrDefs : List AttributeDefinition) (kc : KeyCondition) (maps : ExpressionMaps)
    (items : List Item) : Except StorageError (List Item) := do
  let rows ← items.mapM (storeRow bd base64 keySchema attrDefs)
  let filter ← queryFilter bd base64 keySchema attrDefs kc maps
  pure ((rows.filter filter.keeps).map (·.item))

end ExtendDb
