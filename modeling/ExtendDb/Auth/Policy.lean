import Mathlib.Algebra.GroupWithZero.Nat
import Mathlib.Data.List.Infix

/-!
# Policy evaluation

Policy documents against a request context.  A context may report a key as one that the service
populates but that it cannot resolve; a statement that depends on such a key fails closed.
-/

namespace ExtendDb.Auth

inductive ConditionOperator where
  | stringEquals | stringNotEquals | stringEqualsIgnoreCase | stringNotEqualsIgnoreCase
  | stringLike | stringNotLike
  | numericEquals | numericNotEquals | numericLessThan | numericLessThanEquals
  | numericGreaterThan | numericGreaterThanEquals
  | dateEquals | dateNotEquals | dateLessThan | dateLessThanEquals
  | dateGreaterThan | dateGreaterThanEquals
  | bool
  | null
  | arnEquals | arnNotEquals | arnLike | arnNotLike
  | ipAddress | notIpAddress
  | forAllValues (inner : ConditionOperator)
  | forAnyValue (inner : ConditionOperator)
  | ifExists (inner : ConditionOperator)
deriving DecidableEq

namespace ConditionOperator

def isArn : ConditionOperator → Bool
  | arnEquals | arnNotEquals | arnLike | arnNotLike => true
  | _ => false

def isNegative : ConditionOperator → Bool
  | stringNotEquals | stringNotEqualsIgnoreCase | numericNotEquals | dateNotEquals | stringNotLike
  | arnNotEquals | arnNotLike | notIpAddress => true
  | _ => false

def base : ConditionOperator → ConditionOperator
  | forAllValues inner | forAnyValue inner | ifExists inner => inner.base
  | other => other

def operatorExpandsVariables : ConditionOperator → Bool
  | forAllValues inner | forAnyValue inner | ifExists inner => inner.operatorExpandsVariables
  | stringEquals | stringNotEquals | stringEqualsIgnoreCase | stringNotEqualsIgnoreCase
  | stringLike | stringNotLike => true
  | other => other.isArn

def unwrapIfExists : ConditionOperator → Bool × ConditionOperator
  | ifExists inner => (true, inner)
  | other => (false, other)

end ConditionOperator

structure Condition where
  operator : ConditionOperator
  key : String
  values : List String
deriving DecidableEq

inductive Effect where
  | allow | deny
deriving DecidableEq

inductive ActionMatch where
  | actions (patterns : List String)
  | notActions (patterns : List String)
deriving DecidableEq

inductive ResourceMatch where
  | resources (patterns : List String)
  | notResources (patterns : List String)
deriving DecidableEq

structure Statement where
  effect : Effect
  actionMatch : ActionMatch
  resourceMatch : ResourceMatch
  conditions : List Condition
deriving DecidableEq

structure PolicyDocument where
  version : Option String
  statements : List Statement
deriving DecidableEq

def PolicyDocument.expandsPolicyVariables (policy : PolicyDocument) : Bool :=
  policy.version = some "2012-10-17"

/-- What the evaluation reads of a request. -/
structure ConditionContext where
  resolveKey : String → Option (List String)
  isMultivaluedKey : String → Bool
  isUnresolvableKey : String → Bool
  bareNegatedMatchesAbsentMultivaluedKey : String → Bool

def ConditionContext.isUnresolvable (context : ConditionContext) (key : String) : Bool :=
  (context.resolveKey key).isNone && context.isUnresolvableKey key

inductive Token where
  | star | question | colon
  | unit (code : Nat)
deriving DecidableEq

def Token.written (code : Nat) : Token :=
  if code = '*'.toNat then .star
  else if code = '?'.toNat then .question
  else if code = ':'.toNat then .colon
  else .unit code

inductive Part where
  | text (written : String)
  | escape (byte : Char)
  | key (name : String) (default : Option String)
deriving DecidableEq

inductive ConditionValue where
  | literal (text : String)
  | expanded (text : String) (tokens : List Token)
  | unresolved
deriving DecidableEq

def ConditionValue.text : ConditionValue → Option String
  | literal text | expanded text _ => some text
  | unresolved => none

structure PolicyTexts where
  parts : String → List Part
  encodeUtf16 : String → List Nat
  wildcardMatchIgnoreCase : String → String → Bool
  arnMatch : String → String → Bool
  arnMatchTokens : List Token → String → Bool
  isArn : String → Bool
  compareSingle : ConditionOperator → String → ConditionValue → Bool

/-- Whether a text has a `$` before an opening brace. -/
def containsVariable (value : String) : Bool :=
  decide (['$', '\x7b'] <:+: value.toList)

/-! ### Variables -/

inductive Missing where
  | absent | unresolvable
deriving DecidableEq

def orDefault (default : Option String) : Except Missing String :=
  match default with
  | some text => .ok text
  | none => .error .absent

/-- The request's value for a variable. -/
def resolve (name : String) (default : Option String) (context : ConditionContext) :
    Except Missing String :=
  let values := context.resolveKey name
  if values.isNone && context.isUnresolvableKey name then .error .unresolvable
  else if context.isMultivaluedKey name then
    match values with
    | some _ => .error .absent
    | none => orDefault default
  else
    match values with
    | some values => .ok (values.head?.getD "")
    | none => orDefault default

section

variable (texts : PolicyTexts)

def expandTokensFrom (context : ConditionContext) :
    List Part → List Token → Bool → Except Missing (List Token)
  | [], tokens, unresolvable => if unresolvable then .error .unresolvable else .ok tokens
  | .text written :: rest, tokens, unresolvable =>
    expandTokensFrom context rest (tokens ++ (texts.encodeUtf16 written).map .written) unresolvable
  | .escape byte :: rest, tokens, unresolvable =>
    expandTokensFrom context rest (tokens ++ [.unit byte.toNat]) unresolvable
  | .key name default :: rest, tokens, unresolvable =>
    match resolve name default context with
    | .ok value =>
      expandTokensFrom context rest (tokens ++ (texts.encodeUtf16 value).map .unit) unresolvable
    | .error .unresolvable => expandTokensFrom context rest tokens true
    | .error .absent => .error .absent

def expandTokens (pattern : String) (context : ConditionContext) : Except Missing (List Token) :=
  expandTokensFrom texts context (texts.parts pattern) [] false

def resourcePatternMatches (pattern resourceArn : String) (expand : Bool)
    (context : ConditionContext) : Bool :=
  if !expand || !containsVariable pattern then texts.arnMatch pattern resourceArn
  else match expandTokens texts pattern context with
    | .ok tokens => texts.arnMatchTokens tokens resourceArn
    | .error _ => false

def resourcePatternIsUnresolvable (pattern : String) (expand : Bool) (context : ConditionContext) :
    Bool :=
  expand && containsVariable pattern && match expandTokens texts pattern context with
    | .error .unresolvable => true
    | _ => false

def variableKeyNames (value : String) : List String :=
  (texts.parts value).filterMap fun part => match part with
    | .key name _ => some name
    | _ => none

def expandConditionFrom (context : ConditionContext) :
    List Part → String → List Token → ConditionValue
  | [], text, tokens => .expanded text tokens
  | .text written :: rest, text, tokens =>
    expandConditionFrom context rest (text ++ written)
      (tokens ++ (texts.encodeUtf16 written).map .written)
  | .escape byte :: rest, text, tokens =>
    expandConditionFrom context rest (text.push byte) (tokens ++ [.unit byte.toNat])
  | .key name default :: rest, text, tokens =>
    match resolve name default context with
    | .ok value =>
      expandConditionFrom context rest (text ++ value)
        (tokens ++ (texts.encodeUtf16 value).map .unit)
    | .error _ => .unresolved

def expandConditionValue (value : String) (expand : Bool) (context : ConditionContext) :
    ConditionValue :=
  if !expand || !containsVariable value then .literal value
  else expandConditionFrom texts context (texts.parts value) "" []

def arnValueLacksFields (value : String) : Bool :=
  containsVariable value && ((texts.parts value).map fun part => match part with
    | .text text => text.toList.count ':'
    | _ => 0).sum < 5

/-! ### Conditions -/

def nullHolds (policyValue : String) (keyAbsent : Bool) : Bool :=
  if containsVariable policyValue then !keyAbsent
  else (policyValue == "true" && keyAbsent) || (policyValue == "false" && !keyAbsent)

section

variable (op : ConditionOperator)

def valueMatches (policyValues : List ConditionValue) (cv : String) : Bool :=
  if op.isNegative then policyValues.all (texts.compareSingle op cv)
  else policyValues.any (texts.compareSingle op cv)

def evaluateSingleValueCondition (contextValues : List String)
    (policyValues : List ConditionValue) : Bool :=
  contextValues.all (valueMatches texts op policyValues)

def arnOperatorSeesNonArn (contextValues : List String) : Bool :=
  op.isArn && !contextValues.all texts.isArn

def expandsVariables (version2012 : Bool) : Bool :=
  version2012 && op.operatorExpandsVariables

end

def evaluateConditionWith (condition : Condition) (version2012 : Bool)
    (context : ConditionContext) : Bool :=
  let contextValues := context.resolveKey condition.key
  let isMultivalued := context.isMultivaluedKey condition.key
  let expand := expandsVariables condition.operator version2012
  let expandedValues := condition.values.map (expandConditionValue texts · expand context)
  match condition.operator with
  | .null => (expandedValues.head?.bind ConditionValue.text).any (nullHolds · contextValues.isNone)
  | .forAllValues inner =>
    match contextValues with
    | none => true
    | some vals => vals.all (valueMatches texts inner.unwrapIfExists.2 expandedValues)
  | .forAnyValue inner =>
    match contextValues with
    | none => inner.unwrapIfExists.1
    | some vals =>
      if arnOperatorSeesNonArn texts inner.unwrapIfExists.2 vals then false
      else vals.any (valueMatches texts inner.unwrapIfExists.2 expandedValues)
  | .ifExists inner =>
    match contextValues with
    | none => true
    | some vals =>
      if isMultivalued then false else evaluateSingleValueCondition texts inner vals expandedValues
  | other =>
    match contextValues with
    | none => other.isNegative &&
        (!isMultivalued || context.bareNegatedMatchesAbsentMultivaluedKey condition.key)
    | some vals =>
      if isMultivalued then false else evaluateSingleValueCondition texts other vals expandedValues

inductive ConditionMatch where
  | isMatch | noMatch | unresolvable
deriving DecidableEq

def readsUnresolvableVariable (condition : Condition) (context : ConditionContext) : Bool :=
  condition.values.any fun value => (variableKeyNames texts value).any context.isUnresolvable

def evaluateConditionMatch (condition : Condition) (version2012 : Bool)
    (context : ConditionContext) : ConditionMatch :=
  if context.isUnresolvable condition.key || (expandsVariables condition.operator version2012 &&
      readsUnresolvableVariable texts condition context) then .unresolvable
  else if condition.operator.base.isArn && condition.values.any (arnValueLacksFields texts) then
    .unresolvable
  else if evaluateConditionWith texts condition version2012 context then .isMatch
  else .noMatch

def evaluateConditionsFrom (version2012 : Bool) (context : ConditionContext) :
    List Condition → Bool → ConditionMatch
  | [], anyUnresolvable => if anyUnresolvable then .unresolvable else .isMatch
  | condition :: rest, anyUnresolvable =>
    match evaluateConditionMatch texts condition version2012 context with
    | .isMatch => evaluateConditionsFrom version2012 context rest anyUnresolvable
    | .noMatch => .noMatch
    | .unresolvable => evaluateConditionsFrom version2012 context rest true

def evaluateStatementConditions (conditions : List Condition) (version2012 : Bool)
    (context : ConditionContext) : ConditionMatch :=
  evaluateConditionsFrom texts version2012 context conditions false

/-! ### Statements -/

def actionMatches (statement : Statement) (requestAction : String) : Bool :=
  match statement.actionMatch with
  | .actions patterns => patterns.any (texts.wildcardMatchIgnoreCase · requestAction)
  | .notActions patterns => !patterns.any (texts.wildcardMatchIgnoreCase · requestAction)

section

variable (policy : PolicyDocument) (statement : Statement)

def resourceMatches (requestResource : String) (context : ConditionContext) : Bool :=
  let expand := policy.expandsPolicyVariables
  let anyMatch := fun (patterns : List String) =>
    patterns.any (resourcePatternMatches texts · requestResource expand context)
  let unresolvable := fun (patterns : List String) =>
    patterns.any (resourcePatternIsUnresolvable texts · expand context)
  let deny := decide (statement.effect = .deny)
  match statement.resourceMatch with
  | .resources patterns => anyMatch patterns || (deny && unresolvable patterns)
  | .notResources patterns => !anyMatch patterns && (deny || !unresolvable patterns)

def statementConditions (context : ConditionContext) : ConditionMatch :=
  evaluateStatementConditions texts statement.conditions policy.expandsPolicyVariables context

def denyConditionsApply (context : ConditionContext) : Bool :=
  decide (statementConditions texts policy statement context ≠ .noMatch)

def allowConditionsGrant (context : ConditionContext) : Bool :=
  decide (statementConditions texts policy statement context = .isMatch)

end

def denyApplies (action resourceArn : String) (context : ConditionContext)
    (policy : PolicyDocument) (statement : Statement) : Bool :=
  statement.effect = .deny && actionMatches texts statement action &&
    resourceMatches texts policy statement resourceArn context &&
    denyConditionsApply texts policy statement context

def allowGrants (action resourceArn : String) (context : ConditionContext)
    (policy : PolicyDocument) (statement : Statement) : Bool :=
  statement.effect = .allow && actionMatches texts statement action &&
    resourceMatches texts policy statement resourceArn context &&
    allowConditionsGrant texts policy statement context

inductive AuthzDecision where
  | allow | deny
deriving DecidableEq

def evaluateWith (identityPolicies : List PolicyDocument)
    (permissionsBoundary sessionPolicy : Option PolicyDocument) (action resourceArn : String)
    (context : ConditionContext) : AuthzDecision :=
  let allPolicies := identityPolicies ++ permissionsBoundary.toList ++ sessionPolicy.toList
  let grants := fun (policy : PolicyDocument) =>
    policy.statements.any (allowGrants texts action resourceArn context policy)
  if allPolicies.any fun policy =>
      policy.statements.any (denyApplies texts action resourceArn context policy) then .deny
  else if !permissionsBoundary.all grants then .deny
  else if !sessionPolicy.all grants then .deny
  else if identityPolicies.any grants then .allow
  else .deny

end

end ExtendDb.Auth
