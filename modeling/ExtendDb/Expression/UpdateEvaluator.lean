import ExtendDb.BigDecimal
import ExtendDb.Expression.Resolver

/-!
# Update evaluation

`apply_update` runs the actions of an update expression on an item: every SET with its value read
from the item as it was before the statement, then every REMOVE, ADD and DELETE.
-/

namespace ExtendDb

open OrdMap OrdSet

def incorrectTypeErr : DynamoDbError :=
  .validationException "An operand in the update expression has an incorrect data type"

def invalidNumericErr : DynamoDbError :=
  .validationException "Invalid numeric value in expression"

def invalidPathErr : DynamoDbError :=
  .validationException "The document path provided in the update expression is invalid for update"

def missingAttributeErr : DynamoDbError :=
  .validationException
    "The provided expression refers to an attribute that does not exist in the item"

section

variable (bd : BigDecimalCrate)

def parseNumber (text : String) : Result BigDecimal :=
  match bd.parse text with
  | some d => .ok d
  | none => .error invalidNumericErr

/-- Print a computed number after checking that it is in range; the text is stored as printed. -/
def storeNumber (d : BigDecimal) : Result AttributeValue :=
  match validateAndNormalizeNumber (bd.toString d) with
  | .ok _ => .ok (.n (bd.toString d))
  | .error _ => .error overflowErr

def BigDecimalCrate.compute : ArithOp → BigDecimal → BigDecimal → BigDecimal
  | .add => bd.add
  | .sub => bd.sub

/-- `N + N` or `N - N`. -/
def evaluateArithmetic (left right : AttributeValue) (op : ArithOp) : Result AttributeValue :=
  match left, right with
  | .n l, .n r => do
    let ld ← parseNumber bd l
    let rd ← parseNumber bd r
    storeNumber bd (bd.compute op ld rd)
  | _, _ => .error incorrectTypeErr

def existingValue (arg : Expr) (item : Item) (maps : ExpressionMaps) :
    Result (Option AttributeValue) :=
  match arg with
  | .path elements => resolvePath elements item maps
  | _ => .ok none

def appendLists (left right : AttributeValue) : Result AttributeValue :=
  match left, right with
  | .l a, .l b => .ok (.l (a ++ b))
  | _, _ => .error incorrectTypeErr

def evaluateSetValue (item : Item) (maps : ExpressionMaps) : Expr → Result AttributeValue
  | .placeholder name => maps.resolveValueFor name "UpdateExpression"
  | .path elements => do
    match ← resolvePath elements item maps with
    | some v => pure v
    | none => throw missingAttributeErr
  | .arithmetic left op right => do
    let lv ← evaluateSetValue item maps left
    let rv ← evaluateSetValue item maps right
    evaluateArithmetic bd lv rv op
  | .function "if_not_exists" [path, value] => do
    match ← existingValue path item maps with
    | some existing => pure existing
    | none => evaluateSetValue item maps value
  | .function "if_not_exists" _ => .error (.validationException
      "Invalid UpdateExpression: if_not_exists requires exactly two arguments")
  | .function "list_append" [left, right] => do
    let lv ← evaluateSetValue item maps left
    let rv ← evaluateSetValue item maps right
    appendLists lv rv
  | .function "list_append" _ => .error (.validationException
      "Invalid UpdateExpression: list_append requires exactly two arguments")
  | .function name _ => .error (.validationException
      ("Invalid UpdateExpression: unknown function '" ++ name ++ "'"))
  | _ => .error (.validationException "Invalid UpdateExpression: unsupported value expression")
termination_by structural e => e

end

/-! ## Walks -/

def descendOrCreate (maps : ExpressionMaps) (k : Item → Result Item) :
    List PathElement → AttributeValue → Result AttributeValue
  | [], .m map => do
    let map' ← k map
    pure (.m map')
  | [], _ => .error invalidPathErr
  | .attr ref :: rest, current => do
    let name ← resolveNameRef ref maps
    match current with
    | .m map => do
      let child ← descendOrCreate maps k rest ((get? map name).getD (.m []))
      pure (.m (insert map name child))
    | _ => throw invalidPathErr
  | .index idx :: rest, .l list =>
    match list[idx]? with
    | some entry => do
      let entry' ← descendOrCreate maps k rest entry
      pure (.l (list.set idx entry'))
    | none => .error missingAttributeErr
  | .index _ :: _, _ => .error invalidPathErr

def navigateToParentMapOrCreate (item : Item) (path : List PathElement) (maps : ExpressionMaps)
    (k : Item → Result Item) : Result Item :=
  match path with
  | [] | [_] => k item
  | first :: rest => do
    let firstName ← resolveElementName first maps
    let current := (get? item firstName).getD (.m [])
    let child ← descendOrCreate maps k rest.dropLast current
    pure (insert item firstName child)

def descend (maps : ExpressionMaps) (k : Item → Result Item) :
    List PathElement → AttributeValue → Result AttributeValue
  | [], .m map => do
    let map' ← k map
    pure (.m map')
  | [], current => .ok current
  | .attr ref :: rest, current => do
    let name ← resolveNameRef ref maps
    match current with
    | .m map =>
      match get? map name with
      | some next => do
        let child ← descend maps k rest next
        pure (.m (insert map name child))
      | none => pure (.m map)
    | _ => pure current
  | .index idx :: rest, .l list =>
    match list[idx]? with
    | some entry => do
      let entry' ← descend maps k rest entry
      pure (.l (list.set idx entry'))
    | none => .ok (.l list)
  | .index _ :: _, current => .ok current

def navigateToParentMap (item : Item) (path : List PathElement) (maps : ExpressionMaps)
    (k : Item → Result Item) : Result Item :=
  match path with
  | [] | [_] => k item
  | first :: rest => do
    let firstName ← resolveElementName first maps
    match get? item firstName with
    | some current => do
      let child ← descend maps k rest.dropLast current
      pure (insert item firstName child)
    | none => pure item

def setNested (maps : ExpressionMaps) (value : AttributeValue) :
    List PathElement → AttributeValue → Result AttributeValue
  | [], _ => .error invalidPathErr
  | [.attr ref], .m map => do
    let name ← resolveNameRef ref maps
    pure (.m (insert map name value))
  | [.index idx], .l list =>
    -- an index past the end appends
    if idx < list.length then .ok (.l (list.set idx value)) else .ok (.l (list ++ [value]))
  | [_], _ => .error invalidPathErr
  | .attr ref :: rest, .m map => do
    let name ← resolveNameRef ref maps
    match get? map name with
    | some entry => do
      let entry' ← setNested maps value rest entry
      pure (.m (insert map name entry'))
    | none => throw invalidPathErr
  | .index idx :: rest, .l list =>
    match list[idx]? with
    | some entry => do
      let entry' ← setNested maps value rest entry
      pure (.l (list.set idx entry'))
    | none => .error missingAttributeErr
  | _, _ => .error invalidPathErr

def setPath (item : Item) (path : List PathElement) (value : AttributeValue)
    (maps : ExpressionMaps) : Result Item :=
  match path with
  | [] => .error (.validationException "Invalid UpdateExpression: empty path")
  | [first] => do
    let firstName ← resolveElementName first maps
    pure (insert item firstName value)
  | first :: rest => do
    let firstName ← resolveElementName first maps
    match get? item firstName with
    | some current => do
      let child ← setNested maps value rest current
      pure (insert item firstName child)
    | none => throw invalidPathErr

def removeNested (maps : ExpressionMaps) : List PathElement → AttributeValue → Result AttributeValue
  | [], current => .ok current
  | [.attr ref], .m map => do
    let name ← resolveNameRef ref maps
    pure (.m (erase map name))
  | [.index idx], .l list => .ok (.l (list.eraseIdx idx))
  | [_], current => .ok current
  | .attr ref :: rest, .m map => do
    let name ← resolveNameRef ref maps
    match get? map name with
    | some next => do
      let next' ← removeNested maps rest next
      pure (.m (insert map name next'))
    | none => pure (.m map)
  | .index idx :: rest, .l list =>
    match list[idx]? with
    | some entry => do
      let entry' ← removeNested maps rest entry
      pure (.l (list.set idx entry'))
    | none => .ok (.l list)
  | _, current => .ok current

def removePath (item : Item) (path : List PathElement) (maps : ExpressionMaps) : Result Item :=
  match path with
  | [] => .ok item
  | [first] => do
    let firstName ← resolveElementName first maps
    pure (erase item firstName)
  | first :: rest => do
    let firstName ← resolveElementName first maps
    match get? item firstName with
    | some current => do
      let child ← removeNested maps rest current
      pure (insert item firstName child)
    | none => pure item

/-! ## Actions -/

def addedValue (bd : BigDecimalCrate) :
    Option AttributeValue → AttributeValue → Result AttributeValue
  | none, .n v => .ok (.n v)
  | none, .ss v => .ok (.ss v)
  | none, .ns v => .ok (.ns v)
  | none, .bs v => .ok (.bs v)
  | some (.n existing), .n added => do
    let ed ← parseNumber bd existing
    let ad ← parseNumber bd added
    storeNumber bd (bd.add ed ad)
  | some (.ss existing), .ss added => .ok (.ss (union existing added))
  | some (.ns existing), .ns added => .ok (.ns (union existing added))
  | some (.bs existing), .bs added => .ok (.bs (union existing added))
  | _, _ => .error incorrectTypeErr

def lastAttrName (path : List PathElement) (maps : ExpressionMaps) (action : String) :
    Result String :=
  match path.getLast? with
  | some element => resolveElementName element maps
  | none => .error (.validationException ("Empty path in " ++ action))

def applyAdd (bd : BigDecimalCrate) (item : Item) (path : List PathElement)
    (value : AttributeValue) (maps : ExpressionMaps) : Result Item :=
  navigateToParentMapOrCreate item path maps fun target => do
    let attrName ← lastAttrName path maps "ADD"
    let newValue ← addedValue bd (get? target attrName) value
    pure (insert target attrName newValue)

def remainingValue : AttributeValue → AttributeValue → Result (Option AttributeValue)
  | .ss existing, .ss removed =>
    let remaining := difference existing removed
    .ok (if remaining.isEmpty then none else some (.ss remaining))
  | .ns existing, .ns removed =>
    let remaining := difference existing removed
    .ok (if remaining.isEmpty then none else some (.ns remaining))
  | .bs existing, .bs removed =>
    let remaining := difference existing removed
    .ok (if remaining.isEmpty then none else some (.bs remaining))
  | _, _ => .error incorrectTypeErr

def applyDelete (item : Item) (path : List PathElement) (value : AttributeValue)
    (maps : ExpressionMaps) : Result Item :=
  navigateToParentMap item path maps fun target => do
    let attrName ← lastAttrName path maps "DELETE"
    match get? target attrName with
    | none => pure target
    | some existing => do
      match ← remainingValue existing value with
      | some remaining => pure (insert target attrName remaining)
      | none => pure (erase target attrName)

/-! ## Statements -/

section

variable (bd : BigDecimalCrate) (maps : ExpressionMaps)

def setStep (snapshot item : Item) : UpdateAction → Result Item
  | .set path value => do
    let resolved ← evaluateSetValue bd snapshot maps value
    setPath item path resolved maps
  | _ => .ok item

def removeStep (item : Item) : UpdateAction → Result Item
  | .remove path => removePath item path maps
  | _ => .ok item

def addStep (item : Item) : UpdateAction → Result Item
  | .add path value => do
    let resolved ← evaluateSetValue bd item maps value
    applyAdd bd item path resolved maps
  | _ => .ok item

def deleteStep (item : Item) : UpdateAction → Result Item
  | .delete path value => do
    let resolved ← evaluateSetValue bd item maps value
    applyDelete item path resolved maps
  | _ => .ok item

def applyUpdate (actions : List UpdateAction) (item : Item) : Result Item := do
  let afterSet ← actions.foldlM (setStep bd maps item) item
  let afterRemove ← actions.foldlM (removeStep maps) afterSet
  let afterAdd ← actions.foldlM (addStep bd maps) afterRemove
  actions.foldlM (deleteStep bd maps) afterAdd

theorem applyUpdate_set (path value item) : applyUpdate bd maps [.set path value] item =
      (do setPath item path (← evaluateSetValue bd item maps value) maps) := by
  simp [applyUpdate, setStep, removeStep, addStep, deleteStep, ← Fallible.pure_eq_ok]

theorem applyUpdate_add (path value item) : applyUpdate bd maps [.add path value] item =
      (do applyAdd bd item path (← evaluateSetValue bd item maps value) maps) := by
  simp [applyUpdate, setStep, removeStep, addStep, deleteStep, ← Fallible.pure_eq_ok]

end

end ExtendDb
