import ExtendDb.Types.AttributeValue
import ExtendDb.Theory.Fallible
import ExtendDb.Error

/-!
# Expressions

The tree shared by condition, filter, key-condition and update expressions, the resolution of
`#name` references and `:value` placeholders, and the walk of a document path through an item.
-/

namespace ExtendDb

open OrdMap

inductive PathElement where
  | attr (name : String)
  | index (idx : Nat)
deriving DecidableEq

inductive CompareOp where
  | eq | ne | lt | le | gt | ge
deriving DecidableEq

def CompareOp.accepts : CompareOp → Ordering → Bool
  | .eq, o => o == .eq
  | .ne, o => o != .eq
  | .lt, o => o == .lt
  | .le, o => o != .gt
  | .gt, o => o == .gt
  | .ge, o => o != .lt

inductive ArithOp where
  | add | sub
deriving DecidableEq

inductive Expr where
  | path (elements : List PathElement)
  | placeholder (name : String)
  | compare (left : Expr) (op : CompareOp) (right : Expr)
  | and (left right : Expr)
  | or (left right : Expr)
  | not (inner : Expr)
  | function (name : String) (args : List Expr)
  | arithmetic (left : Expr) (op : ArithOp) (right : Expr)
  | between (operand low high : Expr)
  | in (operand : Expr) (list : List Expr)
deriving BEq

inductive UpdateAction where
  | set (path : List PathElement) (value : Expr)
  | remove (path : List PathElement)
  | add (path : List PathElement) (value : Expr)
  | delete (path : List PathElement) (value : Expr)

def UpdateAction.path : UpdateAction → List PathElement
  | .set path _ | .remove path | .add path _ | .delete path _ => path

def UpdateAction.removesOnly : UpdateAction → Bool
  | .remove _ | .delete _ _ => true
  | .set _ _ | .add _ _ => false

/-- An update made of these actions writes nothing when the item does not exist. -/
def removesOnly (actions : List UpdateAction) : Bool :=
  !actions.isEmpty && actions.all UpdateAction.removesOnly

/-! ## Names, placeholders and document paths -/

/-- The `ExpressionAttributeNames` and `ExpressionAttributeValues` of a request, keyed without
their `#` and `:`. -/
structure ExpressionMaps where
  names : List (String × String)
  values : List (String × AttributeValue)

namespace ExpressionMaps

def resolveName (maps : ExpressionMaps) (nameRef : String) : Result String :=
  match get? maps.names nameRef with
  | some name => .ok name
  | none => .error (.validationException
      ("An expression attribute name used in the document path is not defined; attribute name: #"
        ++ nameRef))

def resolveValue (maps : ExpressionMaps) (placeholder : String) : Result AttributeValue :=
  match get? maps.values placeholder with
  | some v => .ok v
  | none => .error (.validationException
      ("An expression attribute value used in expression is not defined; attribute value: :"
        ++ placeholder))

def resolveValueFor (maps : ExpressionMaps) (placeholder exprType : String) :
    Result AttributeValue :=
  match get? maps.values placeholder with
  | some v => .ok v
  | none => .error (.validationException ("Invalid " ++ exprType ++
        ": An expression attribute value used in expression is not defined; attribute value: :"
        ++ placeholder))

end ExpressionMaps

def stripPrefix (c : Char) (s : String) : Option String :=
  match s.toList with
  | d :: rest => if d = c then some (String.ofList rest) else none
  | [] => none

def resolveNameRef (name : String) (maps : ExpressionMaps) : Result String :=
  match stripPrefix '#' name with
  | some refName => maps.resolveName refName
  | none => .ok name

def resolveElementName (element : PathElement) (maps : ExpressionMaps) : Result String :=
  match element with
  | .attr name => resolveNameRef name maps
  | .index _ => .error (.validationException "Invalid expression: path cannot start with an index")

def walkPath (maps : ExpressionMaps) :
    List PathElement → AttributeValue → Result (Option AttributeValue)
  | [], current => .ok (some current)
  | .attr name :: rest, current => do
    let resolved ← resolveNameRef name maps
    match current with
    | .m map =>
      match get? map resolved with
      | some v => walkPath maps rest v
      | none => pure none
    | _ => pure none
  | .index idx :: rest, .l list =>
    match list[idx]? with
    | some v => walkPath maps rest v
    | none => .ok none
  | .index _ :: _, _ => .ok none

def resolvePath (elements : List PathElement) (item : Item) (maps : ExpressionMaps) :
    Result (Option AttributeValue) :=
  match elements with
  | [] => .ok none
  | first :: rest => do
    let firstName ← resolveElementName first maps
    match get? item firstName with
    | some current => walkPath maps rest current
    | none => pure none

end ExtendDb
