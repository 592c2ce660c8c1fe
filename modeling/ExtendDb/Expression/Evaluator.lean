import Mathlib.Data.List.Infix
import ExtendDb.BigDecimal
import ExtendDb.Types.KeySchema
import ExtendDb.Expression.Resolver

/-!
# Condition expression evaluator

Evaluation of condition, filter and key-condition expressions against an item.
-/

namespace ExtendDb

section

variable (bd : BigDecimalCrate)

def ExpressionMaps.getParsedNumeric (maps : ExpressionMaps) (name : String) : Option BigDecimal :=
  match OrdMap.get? maps.values name with
  | some (.n n) => bd.parse n
  | _ => none

def placeholderNumeric (numerics : String → Option BigDecimal) : Expr → Option BigDecimal
  | .placeholder name => numerics name
  | _ => none

def compareValues (left right : AttributeValue) (op : CompareOp)
    (leftParsed rightParsed : Option BigDecimal) : Bool :=
  match left, right with
  | .s l, .s r => op.accepts (Utf8.compareBytes l r)
  | .n l, .n r =>
    match leftParsed.or (bd.parse l), rightParsed.or (bd.parse r) with
    | some ld, some rd => op.accepts (bd.cmp ld rd)
    | _, _ => false
  | .b l, .b r => op.accepts (compare l r)
  | l, r => if l = r then op == .eq || op == .le || op == .ge else op == .ne

end

def conditionErr {α : Type} (msg : String) : Result α :=
  .error (.validationException ("Invalid ConditionExpression: " ++ msg))

/-- The UTF-16 code units of a text. -/
def utf16Length (s : String) : Nat :=
  (s.toList.map fun c => if c.toNat < 0x10000 then 1 else 2).sum

def sizeOfValue : AttributeValue → Option Nat
  | .s s => some (utf16Length s)
  | .b b => some b.length
  | .l l => some l.length
  | .m m => some m.length
  | .ss s | .ns s | .bs s => some s.length
  | .n _ | .bool _ | .null => none

mutual

def resolveToValue (item : Item) (maps : ExpressionMaps) : Expr → Result (Option AttributeValue)
  | .path elements => resolvePath elements item maps
  | .placeholder name => some <$> maps.resolveValue name
  | .function name args =>
    if name = "size" then evaluateSize item maps args
    else conditionErr "expected path or value"
  | _ => conditionErr "expected path or value"

def evaluateSize (item : Item) (maps : ExpressionMaps) : List Expr → Result (Option AttributeValue)
  | [arg] => do
    let value ← resolveToValue item maps arg
    pure ((value.bind sizeOfValue).map fun size => .n (toString size))
  | _ => conditionErr "size requires exactly one argument"

end

def formatAttributeValue : AttributeValue → String
  | .s s => "S:" ++ s
  | .n n => "N:" ++ n
  | .b _ => "B:<binary>"
  | v => v.typeTag ++ ":<value>"

def containsCheck (container operand : AttributeValue) : Bool :=
  match container, operand with
  | .s s, .s sub => decide (sub.toList <:+: s.toList)
  | .b bytes, .b sub => decide (sub <:+: bytes)
  | .ss set, .s val | .ns set, .n val => decide (val ∈ set)
  | .bs set, .b val => decide (val ∈ set)
  | .l list, val => decide (val ∈ list)
  | _, _ => false

/-- A path in an error text, its `#name` references resolved where they can be. -/
def pathText (maps : ExpressionMaps) (path : List PathElement) : String :=
  let part : PathElement → String
    | .attr a => ((stripPrefix '#' a).bind (OrdMap.get? maps.names)).getD a
    | .index i => "[" ++ toString i ++ "]"
  "[" ++ ".".intercalate (path.map part) ++ "]"

def operandText (maps : ExpressionMaps) : Expr → String
  | .path p => pathText maps p
  | _ => ""

def attributeTypeOperand : Option AttributeValue → Result String
  | some (.s typeStr) => .ok typeStr
  | _ => conditionErr "attribute_type second argument must be a string"

/-- Only strings and bytes have prefixes. -/
def checkBeginsWithOperand : Option AttributeValue → Result Unit
  | none | some (.s _) | some (.b _) => .ok ()
  | some p => conditionErr ("Incorrect operand type for operator or function; operator or " ++
      "function: begins_with, operand type: " ++ p.typeTag)

def beginsWithCheck : Option AttributeValue → Option AttributeValue → Bool
  | some (.s s), some (.s p) => p.toList.isPrefixOf s.toList
  | some (.b s), some (.b p) => p.isPrefixOf s
  | _, _ => false

def evaluateFunction (item : Item) (maps : ExpressionMaps) (name : String) (args : List Expr) :
    Result Bool :=
  match name, args with
  | "attribute_exists", [path] => Option.isSome <$> resolveToValue item maps path
  | "attribute_exists", _ => conditionErr "attribute_exists requires exactly one argument"
  | "attribute_not_exists", [path] => Option.isNone <$> resolveToValue item maps path
  | "attribute_not_exists", _ => conditionErr "attribute_not_exists requires exactly one argument"
  | "attribute_type", [path, type] => do
    let val ← resolveToValue item maps path
    let typeVal ← resolveToValue item maps type
    match val with
    | none => pure false
    | some v =>
      let typeStr ← attributeTypeOperand typeVal
      pure (v.typeTag == typeStr)
  | "attribute_type", _ => conditionErr "attribute_type requires exactly two arguments"
  | "begins_with", [path, operand] => do
    let val ← resolveToValue item maps path
    let value ← resolveToValue item maps operand
    checkBeginsWithOperand value
    pure (beginsWithCheck val value)
  | "begins_with", _ => conditionErr "begins_with requires exactly two arguments"
  | "contains", [container, operand] =>
    if container == operand then
      conditionErr ("The first operand must be distinct from the remaining operands for this " ++
        "operator or function; operator: contains, first operand: " ++
        operandText maps container)
    else do
      let val ← resolveToValue item maps container
      let value ← resolveToValue item maps operand
      match val, value with
      | some v, some o => pure (containsCheck v o)
      | _, _ => pure false
  | "contains", _ => conditionErr "contains requires exactly two arguments"
  -- a number, so no condition by itself
  | "size", _ => conditionErr "size function must be used in a comparison"
  | _, _ => conditionErr ("unknown function '" ++ name ++ "'")

section

variable (bd : BigDecimalCrate) (numerics : String → Option BigDecimal) (item : Item)
  (maps : ExpressionMaps)

def checkBetweenBounds (low high : Expr) (lo hi : Option AttributeValue) : Result Unit :=
  match low, high, lo, hi with
  | .placeholder _, .placeholder _, some l, some h =>
    let bounds := "; lower bound operand: AttributeValue: \x7b" ++ formatAttributeValue l ++
      "\x7d, upper bound operand: AttributeValue: \x7b" ++ formatAttributeValue h ++ "\x7d"
    if l.typeTag ≠ h.typeTag then
      conditionErr ("The BETWEEN operator requires same data type for lower and upper bounds" ++
        bounds)
    else if compareValues bd l h .gt (placeholderNumeric numerics low)
        (placeholderNumeric numerics high) then
      conditionErr ("The BETWEEN operator requires upper bound to be greater than or equal to " ++
        "lower bound" ++ bounds)
    else .ok ()
  | _, _, _, _ => .ok ()

def evaluateIn (value : AttributeValue) (parsed : Option BigDecimal) : List Expr → Result Bool
  | [] => .ok false
  | candidate :: rest => do
    let candidateValue ← resolveToValue item maps candidate
    match candidateValue with
    | some c =>
      if compareValues bd value c .eq parsed (placeholderNumeric numerics candidate) then
        pure true
      else evaluateIn value parsed rest
    | none => evaluateIn value parsed rest

/-- Evaluation with the numbers in `numerics` for those of placeholders. -/
def evaluateWith : Expr → Result Bool
  | .compare left op right => do
    let lv ← resolveToValue item maps left
    let rv ← resolveToValue item maps right
    match lv, rv with
    | some l, some r =>
      pure (compareValues bd l r op (placeholderNumeric numerics left)
        (placeholderNumeric numerics right))
    | _, _ => pure (op == .ne)
  | .and left right => do
    if ← evaluateWith left then evaluateWith right else pure false
  | .or left right => do
    if ← evaluateWith left then pure true else evaluateWith right
  | .not inner => do
    let b ← evaluateWith inner
    pure !b
  | .function name args => evaluateFunction item maps name args
  | .between operand low high => do
    let val ← resolveToValue item maps operand
    let lo ← resolveToValue item maps low
    let hi ← resolveToValue item maps high
    checkBetweenBounds bd numerics low high lo hi
    match val, lo, hi with
    | some v, some l, some h =>
      let vpn := placeholderNumeric numerics operand
      pure (compareValues bd v l .ge vpn (placeholderNumeric numerics low) &&
        compareValues bd v h .le vpn (placeholderNumeric numerics high))
    | _, _, _ => pure false
  | .in operand list => do
    let val ← resolveToValue item maps operand
    match val with
    | none => pure false
    | some v => evaluateIn bd numerics item maps v (placeholderNumeric numerics operand) list
  | _ => conditionErr "unexpected expression type"

end

def evaluateCondition (bd : BigDecimalCrate) (item : Item) (maps : ExpressionMaps) :
    Expr → Result Bool :=
  evaluateWith bd (maps.getParsedNumeric bd) item maps

end ExtendDb
