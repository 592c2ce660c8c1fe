import ExtendDb.Theory.Fallible
import ExtendDb.Types.KeySchema
import ExtendDb.BigDecimal

/-!
# Key order of the backup format

`KeyOrder` is a table's key shape, able to compare the keys of two items and to check one: hash keys
compare as the bytes of their row text, range keys as bytes or as numbers.
-/

namespace ExtendDb

open Utf8 Fallible OrdMap

inductive SchemaFault where
  | undefinedAttribute (name : String)
  | definedTwice (name : String)
  | rangeBeforeHash
  | multiPart
  | noHashKey
  | rangeIsHash (name : String)
deriving DecidableEq

inductive KeyFault where
  | attributeCount (found expected : Nat)
  | missing (name : String)
  | empty (name : String)
  | notScalar (name : String)
  | wrongType (name : String) (actual declared : ScalarAttributeType)
  | invalidNumber (name value : String) (reason : DynamoDbError)
  | notNormalized (name value normalized : String)
  | unparsableNumber (name value : String)
  | undeclaredType (name : String) (declared : ScalarAttributeType)
deriving DecidableEq

inductive FormatError where
  | unorderableKeySchema (fault : SchemaFault)
  | invalidKey (fault : KeyFault)
deriving DecidableEq

def hashKeyText (base64 : Base64Engine) : AttributeValue → Option String
  | .s s => some s
  | .n n => some n
  | .b b => some (base64.encode b)
  | _ => none

def scalarType : AttributeValue → Option ScalarAttributeType
  | .s _ => some .s
  | .n _ => some .n
  | .b _ => some .b
  | _ => none

structure KeyOrder where
  hash : String × ScalarAttributeType
  range : Option (String × ScalarAttributeType)
deriving DecidableEq

namespace KeyOrder

def typeOf (attributeDefinitions : List AttributeDefinition) (name : String) :
    Except FormatError ScalarAttributeType :=
  match attributeDefinitions.filter (fun d => d.attributeName == name) with
  | [] => .error (.unorderableKeySchema (.undefinedAttribute name))
  | [d] => .ok d.attributeType
  | _ => .error (.unorderableKeySchema (.definedTwice name))

def resolveElement (attributeDefinitions : List AttributeDefinition)
    (slots : Option (String × ScalarAttributeType) × Option (String × ScalarAttributeType))
    (element : KeySchemaElement) :
    Except FormatError
      (Option (String × ScalarAttributeType) × Option (String × ScalarAttributeType)) := do
  let (hash, range) := slots
  if element.keyType = .range ∧ hash.isNone then
    throw (.unorderableKeySchema .rangeBeforeHash)
  match element.keyType with
  | .hash =>
    if hash.isSome then throw (.unorderableKeySchema .multiPart)
    let ty ← typeOf attributeDefinitions element.attributeName
    pure (some (element.attributeName, ty), range)
  | .range =>
    if range.isSome then throw (.unorderableKeySchema .multiPart)
    let ty ← typeOf attributeDefinitions element.attributeName
    pure (hash, some (element.attributeName, ty))

def resolve (keySchema : List KeySchemaElement)
    (attributeDefinitions : List AttributeDefinition) : Except FormatError KeyOrder := do
  let (hash, range) ← keySchema.foldlM (resolveElement attributeDefinitions) (none, none)
  match hash with
  | none => throw (.unorderableKeySchema .noHashKey)
  | some hash =>
    if range.any (fun r => r.1 == hash.1) then
      throw (.unorderableKeySchema (.rangeIsHash hash.1))
    pure ⟨hash, range⟩

end KeyOrder

def checkNotEmpty (name : String) : AttributeValue → Except FormatError Unit
  | .s s => if s.isEmpty then .error (.invalidKey (.empty name)) else .ok ()
  | .b b => if b.isEmpty then .error (.invalidKey (.empty name)) else .ok ()
  | _ => .ok ()

def checkScalarType (name : String) (ty : ScalarAttributeType) (value : AttributeValue) :
    Except FormatError Unit :=
  match scalarType value with
  | none => .error (.invalidKey (.notScalar name))
  | some actual =>
    if actual ≠ ty then .error (.invalidKey (.wrongType name actual ty)) else .ok ()

def checkNormalNumber (name : String) : AttributeValue → Except FormatError Unit
  | .n n =>
    match validateAndNormalizeNumber n with
    | .error e => .error (.invalidKey (.invalidNumber name n e))
    | .ok normalized =>
      if normalized ≠ n then .error (.invalidKey (.notNormalized name n normalized)) else .ok ()
  | _ => .ok ()

def checkKeyValue (name : String) (ty : ScalarAttributeType) (value : AttributeValue) :
    Except FormatError Unit := do
  checkNotEmpty name value
  checkScalarType name ty value
  checkNormalNumber name value

namespace KeyOrder

def attributes (order : KeyOrder) : List (String × ScalarAttributeType) :=
  order.hash :: order.range.toList

def validateKeyItem (order : KeyOrder) (key : Item) : Except FormatError Unit := do
  let expected := 1 + (if order.range.isSome then 1 else 0)
  if key.length ≠ expected then
    throw (.invalidKey (.attributeCount key.length expected))
  order.attributes.forM fun (name, ty) =>
    match get? key name with
    | none => throw (.invalidKey (.missing name))
    | some value => checkKeyValue name ty value

def hashText (base64 : Base64Engine) (item : Item) (hash : String × ScalarAttributeType) :
    Except FormatError String :=
  match get? item hash.1 with
  | none => .error (.invalidKey (.missing hash.1))
  | some value =>
    match scalarType value, hashKeyText base64 value with
    | some actual, some text =>
      if actual ≠ hash.2 then .error (.invalidKey (.wrongType hash.1 actual hash.2))
      else .ok text
    | _, _ => .error (.invalidKey (.notScalar hash.1))

def parseNumber (bd : BigDecimalCrate) (name n : String) : Except FormatError BigDecimal :=
  match bd.parse n with
  | some d => .ok d
  | none => .error (.invalidKey (.unparsableNumber name n))

def compare (bd : BigDecimalCrate) (base64 : Base64Engine) (order : KeyOrder) (a b : Item) :
    Except FormatError Ordering := do
  let ha ← hashText base64 a order.hash
  let hb ← hashText base64 b order.hash
  match compareBytes ha hb, order.range with
  | .eq, none => pure .eq
  | .eq, some (name, ty) =>
    match get? a name, get? b name with
    | some ra, some rb =>
      match ty, ra, rb with
      | .s, .s x, .s y => pure (compareBytes x y)
      | .b, .b x, .b y => pure (Ord.compare x y)
      | .n, .n x, .n y => do
        pure (bd.cmp (← parseNumber bd name x) (← parseNumber bd name y))
      | _, _, _ => throw (.invalidKey (.undeclaredType name ty))
    | _, _ => throw (.invalidKey (.missing name))
  | other, _ => pure other

end KeyOrder

/-! ## Checked keys -/

variable {name : String} {value : AttributeValue}

theorem checkScalarType_eq_ok {ty} :
    checkScalarType name ty value = .ok () ↔ scalarType value = some ty := by
  rw [checkScalarType]
  cases scalarType value with
  | none => simp
  | some actual =>
    by_cases hty : actual = ty
    all_goals simp

theorem checkNormalNumber_eq_ok {n} : checkNormalNumber name (.n n) = .ok () ↔ IsNormal n := by
  rw [checkNormalNumber, IsNormal]
  cases validateAndNormalizeNumber n with
  | error e => simp
  | ok normalized =>
    by_cases heq : normalized = n
    all_goals simp

theorem checkKeyValue_number
    (h : checkKeyValue name .n value = .ok ()) : ∃ n, value = .n n ∧ IsNormal n := by
  replace h := ok_of_check h
  obtain ⟨htype, hnormal⟩ := check_then_eq_ok.mp h
  rw [checkScalarType_eq_ok] at htype
  cases value <;> simp [scalarType] at htype
  exact ⟨_, rfl, checkNormalNumber_eq_ok.mp hnormal⟩

namespace KeyOrder

theorem validateKeyItem_ok {order : KeyOrder} {key} (h : order.validateKeyItem key = .ok ()) {attr}
    (hattr : attr ∈ order.attributes) :
    ∃ value, get? key attr.1 = some value ∧ checkKeyValue attr.1 attr.2 value = .ok () := by
  rw [validateKeyItem] at h
  by_cases hlen : key.length = 1 + (if order.range.isSome then 1 else 0)
  · simp only [hlen, ne_eq] at h
    have hchecked := forM_eq_ok.mp h attr hattr
    cases hget : get? key attr.1 with
    | none => simp [hget] at hchecked
    | some value =>
      rw [hget] at hchecked
      exact ⟨value, rfl, hchecked⟩
  · simp [hlen] at h

theorem hashText_ok (base64) {item : Item} {hash value} (hget : get? item hash.1 = some value)
    (hvalue : checkKeyValue hash.1 hash.2 value = .ok ()) :
    ∃ text, hashText base64 item hash = .ok text := by
  have h := ok_of_check hvalue
  have htype := checkScalarType_eq_ok.mp (check_then_eq_ok.mp h).1
  cases value <;> simp [scalarType] at htype <;>
    exact ⟨_, by simp [hashText, hget, scalarType, hashKeyText, htype]; rfl⟩

end KeyOrder

end ExtendDb
