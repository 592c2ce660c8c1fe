import Mathlib.Algebra.Order.BigOperators.Group.List
import Mathlib.Data.List.Infix
import ExtendDb.Theory.Fallible
import ExtendDb.Types.KeySchema
import ExtendDb.Validation.Number

/-!
# Item and key validation

The size of an item, and the checks a write request passes before its item or key reaches storage:
key attributes, key sizes, item size, nesting depth, numbers and attribute-name sizes.
-/

namespace ExtendDb

open DecimalText

/-- The UTF-8 bytes of a text, each as a character of its own. -/
def utf8Chars (s : String) : List Char :=
  s.toUTF8.data.toList.map fun b => Char.ofNat b.toNat

def parseI64OrZero (cs : List Char) : Int := (parseInteger 64 cs).getD 0

def splitAtFirst (p : Char → Bool) (cs : List Char) : List Char × List Char :=
  (splitOnce p cs).getD (cs, [])

def shiftPoint (intText fracText : List Char) (exponent : Int) : List Char × List Char :=
  let digits := intText ++ fracText
  let point : Int := intText.length + exponent
  if point ≤ 0 then
    ([], List.replicate (-point).toNat '0' ++ digits)
  else if (digits.length : Int) ≤ point then
    (digits ++ List.replicate (point - digits.length).toNat '0', [])
  else
    (digits.take point.toNat, digits.drop point.toNat)

def dynamodbNumberSize (n : String) : Nat :=
  let (negative, body) : Bool × List Char := match utf8Chars n with
    | '-' :: rest => (true, rest)
    | '+' :: rest => (false, rest)
    | rest => (false, rest)
  let (mantissa, exponentText) := splitAtFirst (fun c => c == 'e' || c == 'E') body
  let (intText, fracText) := splitAtFirst (· == '.') mantissa
  if !(intText ++ fracText).any (fun c => '1' ≤ c && c ≤ '9') then
    1
  else
    let parts := shiftPoint intText fracText (parseI64OrZero exponentText)
    let intPart := parts.1.dropWhile (· == '0')
    let fracPart := trimTrailing parts.2
    let intSignificant :=
      if fracPart.isEmpty then (trimTrailing intPart).length else intPart.length
    let fracSignificant :=
      if intPart.isEmpty then (fracPart.dropWhile (· == '0')).length else fracPart.length
    min 21 (1 + (intSignificant + 1) / 2 + (fracSignificant + 1) / 2 + negative.toNat)

mutual

def attributeValueSize : AttributeValue → Nat
  | .s v => v.utf8ByteSize
  | .n v => dynamodbNumberSize v
  | .b v => v.length
  | .bool _ | .null => 1
  | .l vs => 3 + listSize vs
  | .m es => 3 + entriesSize es
  | .ss vs => (vs.map String.utf8ByteSize).sum
  | .ns vs => (vs.map dynamodbNumberSize).sum
  | .bs vs => (vs.map List.length).sum

def listSize : List AttributeValue → Nat
  | [] => 0
  | v :: vs => attributeValueSize v + 1 + listSize vs

/-- One byte more than its name and value for every map entry. -/
def entriesSize : List (String × AttributeValue) → Nat
  | [] => 0
  | (k, v) :: es => k.utf8ByteSize + attributeValueSize v + 1 + entriesSize es

end

def itemSizeBytes (item : Item) : Nat :=
  (item.map fun e => e.1.utf8ByteSize + attributeValueSize e.2).sum

theorem one_le_dynamodbNumberSize (n) : 1 ≤ dynamodbNumberSize n := by
  have hmin (a b c : Nat) : 1 ≤ min 21 (1 + a + b + c) := by omega
  unfold dynamodbNumberSize
  dsimp only
  split <;> split <;> first | exact le_refl 1 | exact hmin ..

theorem attributeValueSize_le_itemSizeBytes {item name v} (h : (name, v) ∈ item) :
    attributeValueSize v ≤ itemSizeBytes item := by
  have hentry : name.utf8ByteSize + attributeValueSize v ∈
      item.map (fun e => e.1.utf8ByteSize + attributeValueSize e.2) :=
    List.mem_map.mpr ⟨_, h, rfl⟩
  exact le_trans (Nat.le_add_left _ _) (List.le_sum_of_mem hentry)

example : dynamodbNumberSize "100.5" = 4 := by decide
example : dynamodbNumberSize "-3.14159" = 6 := by decide

/-! ## The checks -/

structure LimitsConfig where
  maxItemSizeBytes : Nat
  maxPartitionKeySizeBytes : Nat
  maxSortKeySizeBytes : Nat
  maxAttributeNameBytes : Nat
deriving DecidableEq

def LimitsConfig.default : LimitsConfig where
  maxItemSizeBytes := 409600
  maxPartitionKeySizeBytes := 2048
  maxSortKeySizeBytes := 1024
  maxAttributeNameBytes := 65535

/-! ## Key attributes -/

def schemaMismatchErr : DynamoDbError :=
  .validationException "The provided key element does not match the schema"

def missingKeyErr (name : String) : DynamoDbError :=
  .validationException
    s!"One or more parameter values were invalid: Missing the key {name} in the item"

def validateKeyAttributeType (attrName : String) (value : AttributeValue)
    (attrDefs : List AttributeDefinition) : Result Unit :=
  match declaredType attrDefs attrName with
  | none => .ok ()
  | some expected =>
    if expected.matches value then
      .ok ()
    else
      .error (.validationException
        ("One or more parameter values were invalid: Type mismatch for key " ++ attrName ++
          " expected: " ++ expected.typeTag ++ " actual: " ++ value.typeTag))

def emptyKeyKind : AttributeValue → Option String
  | .s v => if v.isEmpty then some "string" else none
  | .b v => if v.isEmpty then some "binary" else none
  | _ => none

def validateNoEmptyKeyValue (attrName : String) (value : AttributeValue) : Result Unit :=
  match emptyKeyKind value with
  | some kind =>
    .error (.validationException
      ("One or more parameter values are not valid. The AttributeValue for a key attribute " ++
        "cannot contain an empty " ++ kind ++ " value. Key: " ++ attrName))
  | none => .ok ()

def requireKey (item : Item) (name : String) : Result AttributeValue :=
  match OrdMap.get? item name with
  | some value => .ok value
  | none => .error (missingKeyErr name)

def validateItemKeys (item : Item) (keySchema : List KeySchemaElement)
    (attrDefs : List AttributeDefinition) : Result Unit :=
  keySchema.forM fun ks => do
    let value ← requireKey item ks.attributeName
    validateKeyAttributeType ks.attributeName value attrDefs

def validateKeyOnly (key : Item) (keySchema : List KeySchemaElement)
    (attrDefs : List AttributeDefinition) : Result Unit :=
  if key.length ≠ keySchema.length then
    .error schemaMismatchErr
  else
    keySchema.forM fun ks => do
      let value ← requireKey key ks.attributeName
      validateKeyAttributeType ks.attributeName value attrDefs
      validateNoEmptyKeyValue ks.attributeName value

def remapKeyTypeMismatch : DynamoDbError → DynamoDbError
  | .validationException msg =>
    if "Type mismatch for key ".toList <:+: msg.toList then schemaMismatchErr
    else .validationException msg
  | err => err

def validateBatchKeyOnly (key : Item) (keySchema : List KeySchemaElement)
    (attrDefs : List AttributeDefinition) : Result Unit :=
  (validateKeyOnly key keySchema attrDefs).mapError remapKeyTypeMismatch

def validateBatchItemKeys (item : Item) (keySchema : List KeySchemaElement)
    (attrDefs : List AttributeDefinition) : Result Unit :=
  (validateItemKeys item keySchema attrDefs).mapError remapKeyTypeMismatch

/-! ## Sizes -/

def keyValueByteSize : AttributeValue → Nat
  | .s v | .n v => v.utf8ByteSize
  | .b v => v.length
  | _ => 0

def checkKeySize (ks : KeySchemaElement) (value : AttributeValue) (limits : LimitsConfig) :
    Result Unit :=
  let size := keyValueByteSize value
  match ks.keyType with
  | .hash =>
    if size > limits.maxPartitionKeySizeBytes then
      .error (.validationException
        ("One or more parameter values were invalid: Size of hashkey has exceeded the maximum " ++
          "size limit of" ++ toString limits.maxPartitionKeySizeBytes ++ " bytes"))
    else .ok ()
  | .range =>
    if size > limits.maxSortKeySizeBytes then
      .error (.validationException
        ("One or more parameter values were invalid: Aggregated size of all range keys has " ++
          "exceeded the size limit of " ++ toString limits.maxSortKeySizeBytes ++ " bytes"))
    else .ok ()

def forPresentKeys (item : Item) (keySchema : List KeySchemaElement)
    (check : KeySchemaElement → AttributeValue → Result Unit) : Result Unit :=
  keySchema.forM fun ks =>
    match OrdMap.get? item ks.attributeName with
    | some value => check ks value
    | none => .ok ()

def validateKeySizes (item : Item) (keySchema : List KeySchemaElement) (limits : LimitsConfig) :
    Result Unit :=
  forPresentKeys item keySchema fun ks value => do
    validateNoEmptyKeyValue ks.attributeName value
    checkKeySize ks value limits

def validateKeySizeLimits (item : Item) (keySchema : List KeySchemaElement)
    (limits : LimitsConfig) : Result Unit :=
  forPresentKeys item keySchema fun ks value => checkKeySize ks value limits

def validateKeyNotEmpty (item : Item) (keySchema : List KeySchemaElement) : Result Unit :=
  forPresentKeys item keySchema fun ks value => validateNoEmptyKeyValue ks.attributeName value

def validateItemSize (item : Item) (maxBytes : Nat) : Result Unit :=
  if itemSizeBytes item > maxBytes then
    .error (.validationException "Item size has exceeded the maximum allowed size")
  else
    .ok ()

/-! ## Sizing a number before it is validated -/

section

open List DecimalText

/-- How `dynamodb_number_size` ends without a size. -/
inductive SizeFault where
  | negationOverflow
  | outOfMemory (bytes : Nat)
  | charBoundary (index : Nat)
deriving DecidableEq

/-- The halves of the mantissa and the exponent. -/
def numberTexts (n : String) : List Char × List Char × Int :=
  let (mantissa, exponentText) :=
    splitAtFirst (fun c => c == 'e' || c == 'E') (stripSign (utf8Chars n)).2
  let (intText, fracText) := splitAtFirst (· == '.') mantissa
  (intText, fracText, parseI64OrZero exponentText)

/-- The fault of a text of so many bytes; an allocation has at most `isize::MAX`. -/
def allocate (memory : Fin (2 ^ 63 - 1)) (bytes : Int) : Option SizeFault :=
  if bytes ≤ memory.val then none else some (.outOfMemory bytes.toNat)

def isContinuation (c : Char) : Bool := 0x80 ≤ c.toNat && c.toNat < 0xC0

def shiftPointFault (memory : Fin (2 ^ 63 - 1)) (intText fracText : List Char) (exponent : Int) :
    Option SizeFault :=
  let digits := intText ++ fracText
  -- `saturating_add`
  let point := max (-2 ^ 63) (min (intText.length + exponent) (2 ^ 63 - 1))
  if point = -2 ^ 63 then some .negationOverflow
  else if point ≤ 0 then allocate memory (-point + digits.length)
  else if digits.length ≤ point then allocate memory point
  else if digits[point.toNat]?.any isContinuation then some (.charBoundary point.toNat)
  else none

def dynamodbNumberSizeFault (memory : Fin (2 ^ 63 - 1)) (n : String) : Option SizeFault :=
  let (intText, fracText, exponent) := numberTexts n
  (allocate memory (intText ++ fracText).length).or
    (if (intText ++ fracText).any (fun c => '1' ≤ c && c ≤ '9') then
      shiftPointFault memory intText fracText exponent
    else none)

/-- The digits fit, with the zeros in front or behind that the exponent asks for, and a point between
two of them is not within a character. -/
def Sizable (memory : Fin (2 ^ 63 - 1)) (intText fracText : List Char) (exponent : Int) : Prop :=
  (intText.length + exponent ≤ 0 → fracText.length - exponent ≤ memory.val) ∧
  (fracText.length ≤ exponent → intText.length + exponent ≤ memory.val) ∧
  (0 < intText.length + exponent → exponent < fracText.length →
    (intText ++ fracText)[(intText.length + exponent).toNat]?.any isContinuation = false)

/-- Sizing a text as it came goes through exactly when its digits fit into memory and, unless it is a
zero, they do with its exponent written out and no character is cut. -/
theorem dynamodbNumberSizeFault_eq_none_iff (memory : Fin (2 ^ 63 - 1)) (n : String) :
    dynamodbNumberSizeFault memory n = none ↔
      ((numberTexts n).1 ++ (numberTexts n).2.1).length ≤ memory.val ∧
      (((numberTexts n).1 ++ (numberTexts n).2.1).any (fun c => '1' ≤ c && c ≤ '9') = true →
        Sizable memory (numberTexts n).1 (numberTexts n).2.1 (numberTexts n).2.2) := by
  have hallocate (bytes : Int) : allocate memory bytes = none ↔ bytes ≤ memory.val := by
    simp [allocate]
  have hmemory := memory.isLt
  unfold dynamodbNumberSizeFault
  obtain ⟨intText, fracText, exponent⟩ := numberTexts n
  simp only [Option.or_eq_none_iff, hallocate, Nat.cast_le, ite_eq_right_iff]
  refine and_congr_right fun hfits => imp_congr_right fun _ => ?_
  rw [length_append] at hfits
  unfold shiftPointFault Sizable
  simp only [length_append]
  split_ifs with hmin hneg hpos hcut
  · simp only [false_iff]
    rintro ⟨hbelow, -⟩
    have := hbelow (by omega)
    omega
  · rw [hallocate]
    refine ⟨fun h => ⟨by omega, by omega, by omega⟩, fun ⟨hbelow, _⟩ => ?_⟩
    have := hbelow (by omega)
    omega
  · rw [hallocate]
    refine ⟨fun h => ⟨by omega, by omega, by omega⟩, fun ⟨_, habove, _⟩ => ?_⟩
    have := habove (by omega)
    omega
  all_goals rw [show max (-2 ^ 63) (min (intText.length + exponent) (2 ^ 63 - 1)) =
    intText.length + exponent by omega] at hcut
  · simp only [false_iff]
    exact fun ⟨_, _, hwhole⟩ => Bool.false_ne_true ((hwhole (by omega) (by omega)).symm.trans hcut)
  · refine ⟨fun h => ⟨by omega, by omega, fun _ _ => ?_⟩, fun _ => rfl⟩
    exact Bool.eq_false_iff.mpr hcut

/-- Texts that the deserializer leaves as they are. -/
theorem dynamodbNumberSizeFault_raw :
    ([".5E-9223372036854775808", "1E9223372036854775807", "1éE-1"].map fun n =>
      ((validateAndNormalizeNumber n).toOption, dynamodbNumberSizeFault ⟨2 ^ 48, by decide⟩ n)) =
    [(none, some .negationOverflow), (none, some (.outOfMemory (2 ^ 63 - 1))),
      (none, some (.charBoundary 2))] := by
  decide

end

/-! ## Vector indexes

Parsing a component as a 32-bit float and printing a 64-bit one are the standard library's;
`FloatText` stands for both. -/

structure FloatText where
  /-- `number.parse::<f32>()` succeeds with a finite value. -/
  finiteF32 : String → Bool
  /-- `number.parse::<f64>()` printed with `{:E}`, where it parses. -/
  scientificF64 : String → Option String

def maxHashKeySize : Nat := 2048
def maxInlineFilterSize : Nat := 10240

def invalidParameterValuesOnce : String := "One or more parameter values were invalid."

/-- The exponent of a printed float gets its `+`. -/
def withExponentSign (formatted : String) : String :=
  match splitOnce (· == 'E') formatted.toList with
  | some (mantissa, digits) =>
    match digits with
    | '-' :: _ | '+' :: _ => formatted
    | _ => String.ofList mantissa ++ "E+" ++ String.ofList digits
  | none => formatted

def validateVectorElement (ft : FloatText) (index : VectorIndexKeyInfo) (position : Nat) :
    AttributeValue → Result Unit
  | .n number =>
    if ft.finiteF32 number then
      .ok ()
    else
      let display := ((ft.scientificF64 number).map withExponentSign).getD number
      .error (.validationException (invalidParameterValuesOnce ++ " Invalid value for parameter " ++
          index.vectorAttributeName ++ "[" ++ toString position ++ "], Value: " ++ display ++
          " is outside valid range [-3.4028235E38, 3.4028235E38]. IndexName: " ++
          index.indexName))
  | other =>
    .error (.validationException (invalidParameterValuesOnce ++ " Invalid type for parameter " ++
        index.vectorAttributeName ++ "[" ++ toString position ++
        "], Expected: 32-bit floating point number, Actual: " ++ other.typeTag ++
        ". IndexName: " ++ index.indexName))

def validateVectorAttribute (ft : FloatText) (index : VectorIndexKeyInfo) :
    AttributeValue → Result Unit
  | .l elements =>
    if elements.length ≠ index.dimensions then
      .error (.validationException (invalidParameterValuesOnce ++ " Invalid size for parameter " ++
          index.vectorAttributeName ++ ", Expected: " ++ toString index.dimensions ++
          ", Actual: " ++ toString elements.length ++ " IndexName: " ++ index.indexName))
    else
      elements.zipIdx.forM fun e => validateVectorElement ft index e.2 e.1
  | _ =>
    .error (.validationException (invalidParameterValuesOnce ++ " Invalid type for parameter " ++
        index.vectorAttributeName ++
        ", Expected: 32-bit floating point number list IndexName: " ++ index.indexName))

def validateSearchSchemaAttribute (name : String) (elementType : SearchSchemaElementType)
    (value : AttributeValue) (attrDefs : List AttributeDefinition) (indexName : String) :
    Result Unit :=
  match (declaredType attrDefs name).filter (fun expected => !expected.matches value) with
  | some expected =>
    .error (.validationException
      ("One or more parameter values were invalid. Attribute '" ++ name ++
        "' type mismatch. Expected: " ++ expected.typeTag ++ ", Actual: " ++ value.typeTag ++
        ". IndexName: " ++ indexName))
  | none =>
    let size := attributeValueSize value
    match elementType, emptyKeyKind value with
    | .hash, some kind =>
      .error (.validationException
        ("One or more parameter values are not valid. A value specified for a secondary index " ++
          "key is not supported. The AttributeValue for a key attribute cannot contain an empty " ++
          kind ++ " value. IndexName: " ++ indexName ++ ", IndexKey: " ++ name))
    | .hash, none =>
      if size > maxHashKeySize then
        .error (.validationException
          ("One or more parameter values were invalid: Aggregate size for HASH key attributes " ++
            "exceeds the maximum of " ++ toString maxHashKeySize ++ " bytes"))
      else
        .ok ()
    | .inlineFilter, _ =>
      if size > maxInlineFilterSize then
        .error (.validationException
          ("One or more parameter values were invalid: Size limit exceeded for SearchSchema " ++
            "attribute '" ++ name ++ "': maximum " ++ toString maxInlineFilterSize ++ " bytes"))
      else
        .ok ()

def whenChanged (item before : Item) (name : String) (check : AttributeValue → Result Unit) :
    Result Unit :=
  match OrdMap.get? item name with
  | some value => if OrdMap.get? before name ≠ some value then check value else .ok ()
  | none => .ok ()

def validateVectorWriteChanged (ft : FloatText) (item before : Item)
    (vectorIndexes : List VectorIndexKeyInfo) (attrDefs : List AttributeDefinition) :
    Result Unit :=
  vectorIndexes.forM fun index => do
    whenChanged item before index.vectorAttributeName (validateVectorAttribute ft index)
    index.searchSchema.forM fun element =>
      whenChanged item before element.attributeName fun value =>
        validateSearchSchemaAttribute element.attributeName element.elementType value attrDefs
          index.indexName

def validateVectorWrite (ft : FloatText) (item : Item) (vectorIndexes : List VectorIndexKeyInfo)
    (attrDefs : List AttributeDefinition) : Result Unit :=
  validateVectorWriteChanged ft item [] vectorIndexes attrDefs

end ExtendDb
