import Mathlib.Data.List.Sort
import ExtendDb.Types.KeySchema
import ExtendDb.Expression.KeyClause

/-!
# Key conditions

The AND-ed clauses of a `KeyConditionExpression` as the condition on the partition key and the
conditions on the sort key: first by form alone, then, once the key schema is known, by the
attribute each clause names.
-/

namespace ExtendDb

open Fallible

inductive SortKeyCondition where
  | compare (path : List PathElement) (op : CompareOp) (value : Expr)
  | between (path : List PathElement) (low high : Expr)
  | beginsWith (path : List PathElement) (value : Expr)

namespace SortKeyCondition

def path : SortKeyCondition → List PathElement
  | .compare path _ _ | .between path _ _ | .beginsWith path _ => path

def operands : SortKeyCondition → List (List PathElement × Expr)
  | .compare path _ value => [(path, value)]
  | .between path low high => [(path, low), (path, high)]
  | .beginsWith path value => [(path, value)]

end SortKeyCondition

abbrev KeyEquality := List PathElement × Expr

def KeyEquality.condition (e : KeyEquality) : SortKeyCondition := .compare e.1 .eq e.2

/-- Parsed key condition.  On a single-attribute key schema the extra conditions are those of
surplus clauses; on a multi-attribute one those of the further HASH and RANGE attributes. -/
structure KeyCondition where
  pkPath : List PathElement
  pkValue : Expr
  extraPkConditions : List KeyEquality
  skCondition : Option SortKeyCondition
  extraSkConditions : List KeyEquality

/-! ## Classification by form -/

def rawToSk : RawClause → SortKeyCondition
  | .eq path value => .compare path .eq value
  | .compare path op value => .compare path op value
  | .between path low high => .between path low high
  | .beginsWith path value => .beginsWith path value

def classifySingle : RawClause → Result KeyCondition
  | .eq path value => .ok ⟨path, value, [], none, []⟩
  | _ => .error (keyConditionErr "partition key condition must use equality (=)")

def classifyPair : RawClause → RawClause → Result KeyCondition
  | .eq path value, sk | sk, .eq path value => .ok ⟨path, value, [], some (rawToSk sk), []⟩
  | _, _ => .error (keyConditionErr "one condition must be an equality on the partition key")

def splitClauses : List RawClause → Option SortKeyCondition →
    Result (List KeyEquality × Option SortKeyCondition)
  | [], nonEq => .ok ([], nonEq)
  | .eq path value :: rest, nonEq => do
    let (eqClauses, nonEq) ← splitClauses rest nonEq
    pure ((path, value) :: eqClauses, nonEq)
  | other :: rest, nonEq =>
    if nonEq.isSome then
      .error (keyConditionErr "at most one non-equality condition is allowed")
    else splitClauses rest (some (rawToSk other))

def classifyMulti (clauses : List RawClause) : Result KeyCondition := do
  let (eqClauses, nonEq) ← splitClauses clauses none
  match eqClauses with
  | [] => throw (keyConditionErr
      "at least one equality condition on a partition key attribute is required")
  | (pkPath, pkValue) :: rest =>
    match nonEq with
    | some sk => pure ⟨pkPath, pkValue, rest, some sk, []⟩
    | none =>
      -- the last equality may be the sort key's
      pure ⟨pkPath, pkValue, rest.dropLast, rest.getLast?.map KeyEquality.condition, []⟩

def parseKeyCondition (tokens : List Token) : Result KeyCondition := do
  match ← parseClauses tokens with
  | [clause] => classifySingle clause
  | [a, b] => classifyPair a b
  | clauses => classifyMulti clauses

/-! ## Classification by name -/

def resolvePathAttr (path : List PathElement) (names : List (String × String)) : Result String :=
  match path.head? with
  | some (.attr name) =>
    match stripPrefix '#' name with
    | some refName =>
      match OrdMap.get? names refName with
      | some resolved => .ok resolved
      | none => .error (keyConditionErr
          ("An expression attribute name used in the document path is not defined; " ++
            "attribute name: #" ++ refName))
    | none => .ok name
  | _ => .error (.validationException "Invalid key condition path")

namespace KeyCondition

/-- On a single-attribute key schema: swap two equalities if the one taken for the partition key
does not name it. -/
def resolvePkSk (kc : KeyCondition) (pkAttr : String) (names : List (String × String)) :
    Result KeyCondition :=
  match kc.skCondition with
  | some (.compare skPath .eq skValue) =>
    match kc.pkPath.head? with
    | some (.attr _) => do
      let pkName ← resolvePathAttr kc.pkPath names
      if pkName = pkAttr then pure kc
      else
        pure { kc with
          pkPath := skPath
          pkValue := skValue
          skCondition := some (.compare kc.pkPath .eq kc.pkValue) }
    | _ => .ok kc
  | _ => .ok kc

/-- Every equality, whichever field the parser put it in. -/
def equalities (kc : KeyCondition) : List KeyEquality :=
  (kc.pkPath, kc.pkValue) :: kc.extraPkConditions ++ kc.extraSkConditions ++
    match kc.skCondition with
    | some (.compare path .eq value) => [(path, value)]
    | _ => []

def nonEquality (kc : KeyCondition) : Option SortKeyCondition :=
  match kc.skCondition with
  | some (.compare _ .eq _) => none
  | sk => sk

end KeyCondition

/-- The clauses of a condition by the kind of attribute each names, an equality on a key attribute
with the position of the attribute. -/
structure AssignedClauses where
  hashEqs : List (Nat × KeyEquality)
  rangeEqs : List (Nat × KeyEquality)
  otherEqs : List KeyEquality
  nonEq : Option SortKeyCondition
  nonEqPos : Option Nat
  nonEqHashPos : Option Nat

def assignEqualities (hashAttrs rangeAttrs : List String) (names : List (String × String)) :
    List KeyEquality →
      Result (List (Nat × KeyEquality) × List (Nat × KeyEquality) × List KeyEquality)
  | [] => .ok ([], [], [])
  | e :: rest => do
    let attr ← resolvePathAttr e.1 names
    let (hashEqs, rangeEqs, otherEqs) ← assignEqualities hashAttrs rangeAttrs names rest
    match hashAttrs.idxOf? attr with
    | some pos => pure ((pos, e) :: hashEqs, rangeEqs, otherEqs)
    | none =>
      match rangeAttrs.idxOf? attr with
      | some pos => pure (hashEqs, (pos, e) :: rangeEqs, otherEqs)
      | none => pure (hashEqs, rangeEqs, e :: otherEqs)

def sortByPosition (eqs : List (Nat × KeyEquality)) : List (Nat × KeyEquality) :=
  eqs.insertionSort fun e f => e.1 ≤ f.1

/-- Two entries next to each other have one position. -/
def repeatsPosition : List (Nat × KeyEquality) → Bool
  | e :: f :: rest => e.1 == f.1 || repeatsPosition (f :: rest)
  | _ => false

def hasPosition (eqs : List (Nat × KeyEquality)) (pos : Nat) : Bool := eqs.any (·.1 == pos)

def withoutEquality (attrs : List String) (eqs : List (Nat × KeyEquality)) : List String :=
  (attrs.zipIdx.filter fun a => !hasPosition eqs a.2).map (·.1)

def validationErr {α : Type} (msg : String) : Result α := .error (.validationException msg)

namespace AssignedClauses

section

variable (a : AssignedClauses)

def checkOnePerKey : Result Unit :=
  if repeatsPosition a.hashEqs || repeatsPosition a.rangeEqs ||
      a.nonEqPos.any (hasPosition a.rangeEqs) || a.nonEqHashPos.any (hasPosition a.hashEqs) then
    .error (keyConditionErr "KeyConditionExpressions must only contain one condition per key")
  else .ok ()

def checkCount (keyAttributeCount : Nat) : Result Unit :=
  let conditionCount :=
    a.hashEqs.length + a.rangeEqs.length + a.otherEqs.length + a.nonEq.toList.length
  if conditionCount > keyAttributeCount then
    validationErr ("The number of query conditions (" ++ toString conditionCount ++
      ") exceeds the number of key attributes defined in the schema (" ++
      toString keyAttributeCount ++ ")")
  else .ok ()

def checkHashCovered (hashAttrs : List String) : Result Unit :=
  match withoutEquality hashAttrs a.hashEqs with
  | [] => .ok ()
  | missing => validationErr ("HASH key attributes " ++ ", ".intercalate missing ++
      " must have equality conditions specified in the query")

def checkRangeRun (rangeAttrs : List String) : Result Unit :=
  match (a.rangeEqs.map (·.1) ++ a.nonEqPos.toList).max? with
  | none => .ok ()
  | some lastPos =>
    match withoutEquality (rangeAttrs.take lastPos) a.rangeEqs with
    | [] => .ok ()
    | missing => validationErr ("RANGE key attributes " ++ ", ".intercalate missing ++
        " must have equality conditions specified in the query because a condition is present " ++
        "on key attribute " ++ rangeAttrs.getD lastPos "")

def checkValues (valueCheck : List PathElement → Expr → Result Unit) : Result Unit :=
  ((a.hashEqs ++ a.rangeEqs).map (·.2) ++ a.otherEqs ++
    a.nonEq.toList.flatMap SortKeyCondition.operands).forM fun e => valueCheck e.1 e.2

def checkKeyAttributes (hashAttrs rangeAttrs : List String) : Result Unit :=
  if !a.otherEqs.isEmpty || (a.nonEq.isSome && a.nonEqPos.isNone && a.nonEqHashPos.isNone) then
    let missing := rangeAttrs.zipIdx.find? fun r =>
      !hasPosition a.rangeEqs r.2 && a.nonEqPos != some r.2
    validationErr ("Query condition missed key schema element: " ++
      ((missing.map (·.1)).getD (hashAttrs.headD "")))
  else .ok ()

end

end AssignedClauses

namespace KeyCondition

section

variable (kc : KeyCondition)

def nonEqualityAttr (names : List (String × String)) : Result (Option String) :=
  match kc.nonEquality with
  | some sk => some <$> resolvePathAttr sk.path names
  | none => pure none

def assign (hashAttrs rangeAttrs : List String)
    (names : List (String × String)) : Result AssignedClauses := do
  let (hashEqs, rangeEqs, otherEqs) ← assignEqualities hashAttrs rangeAttrs names kc.equalities
  let nonEqAttr ← kc.nonEqualityAttr names
  pure {
    hashEqs := sortByPosition hashEqs
    rangeEqs := sortByPosition rangeEqs
    otherEqs
    nonEq := kc.nonEquality
    nonEqPos := nonEqAttr.bind (rangeAttrs.idxOf? ·)
    nonEqHashPos := nonEqAttr.bind (hashAttrs.idxOf? ·) }

def ofAssigned (a : AssignedClauses) : KeyCondition :=
  let (pkPath, pkValue) := ((a.hashEqs.map (·.2)).head?).getD (kc.pkPath, kc.pkValue)
  let rangeEqs := a.rangeEqs.map (·.2)
  { pkPath
    pkValue
    extraPkConditions := (a.hashEqs.map (·.2)).tail
    skCondition := a.nonEq.or (rangeEqs.head?.map KeyEquality.condition)
    extraSkConditions := if a.nonEq.isSome then rangeEqs else rangeEqs.tail }

def resolveMultipartWith (hashAttrs rangeAttrs : List String)
    (names : List (String × String)) (valueCheck : List PathElement → Expr → Result Unit) :
    Result KeyCondition :=
  if hashAttrs.length ≤ 1 ∧ rangeAttrs.length ≤ 1 then .ok kc
  else do
    let a ← kc.assign hashAttrs rangeAttrs names
    a.checkOnePerKey
    a.checkCount (hashAttrs.length + rangeAttrs.length)
    a.checkHashCovered hashAttrs
    a.checkRangeRun rangeAttrs
    a.checkValues valueCheck
    a.checkKeyAttributes hashAttrs rangeAttrs
    pure (kc.ofAssigned a)

def operands : List (List PathElement × Expr) :=
  (kc.pkPath, kc.pkValue) :: kc.extraPkConditions ++ kc.extraSkConditions ++
    kc.skCondition.toList.flatMap SortKeyCondition.operands

def forEachClause (f : List PathElement → Expr → Result Unit) : Result Unit :=
  kc.operands.forM fun e => f e.1 e.2

def resolveKeySchemaWith (keySchema : List KeySchemaElement)
    (names : List (String × String)) (valueCheck : List PathElement → Expr → Result Unit) :
    Result KeyCondition :=
  if isMultipartKeySchema keySchema then
    kc.resolveMultipartWith ((hashKeyElements keySchema).map (·.attributeName))
      ((rangeKeyElements keySchema).map (·.attributeName)) names valueCheck
  else do
    kc.forEachClause valueCheck
    match keySchema.find? (fun ks => ks.keyType = .hash) with
    | some hash => kc.resolvePkSk hash.attributeName names
    | none => pure kc

end

end KeyCondition

end ExtendDb
