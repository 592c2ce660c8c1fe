import ExtendDb.Types.AttributeValue

/-!
# Key schemas

The part of a table's metadata that the data operations read.
-/

namespace ExtendDb

open List OrdMap

inductive KeyType where
  | hash
  | range
deriving DecidableEq

structure KeySchemaElement where
  attributeName : String
  keyType : KeyType
deriving DecidableEq

inductive ScalarAttributeType where
  | s
  | n
  | b
deriving DecidableEq

structure AttributeDefinition where
  attributeName : String
  attributeType : ScalarAttributeType
deriving DecidableEq

inductive SearchSchemaElementType where
  | hash
  | inlineFilter
deriving DecidableEq

structure SearchSchemaElement where
  attributeName : String
  elementType : SearchSchemaElementType
deriving DecidableEq

structure VectorIndexKeyInfo where
  indexName : String
  dimensions : Nat
  vectorAttributeName : String
  searchSchema : List SearchSchemaElement
deriving DecidableEq

structure TableKeyInfo where
  tableName : String
  keySchema : List KeySchemaElement
  baseKeySchema : List KeySchemaElement
  attributeDefinitions : List AttributeDefinition
  vectorIndexes : List VectorIndexKeyInfo
deriving DecidableEq

inductive IndexType where
  | gsi | lsi | vector
deriving DecidableEq

inductive ProjectionType where
  | all | keysOnly | include
deriving DecidableEq

/-- Which attributes are copied into an index. -/
structure Projection where
  projectionType : ProjectionType
  nonKeyAttributes : Option (List String)
deriving DecidableEq

/-- A secondary index as Query reads it. -/
structure IndexInfo where
  indexName : String
  indexType : IndexType
  keySchema : List KeySchemaElement
  projection : Projection
deriving DecidableEq

def singleKeyTable : TableKeyInfo where
  tableName := "t"
  keySchema := [⟨"pk", .hash⟩]
  baseKeySchema := []
  attributeDefinitions := [⟨"pk", .s⟩]
  vectorIndexes := []

section

variable (keySchema : List KeySchemaElement)

def hashKeyElements : List KeySchemaElement :=
  keySchema.filter fun ks => ks.keyType = .hash

def rangeKeyElements : List KeySchemaElement :=
  keySchema.filter fun ks => ks.keyType = .range

def isMultipartKeySchema : Bool :=
  (hashKeyElements keySchema).length > 1 || (rangeKeyElements keySchema).length > 1

end

def extractKey (item : Item) (keySchema : List KeySchemaElement) : Item :=
  keySchema.foldl (fun key ks =>
    match get? item ks.attributeName with
    | some val => insert key ks.attributeName val
    | none => key) []

def extractKeyInto (item key : Item) (keySchema : List KeySchemaElement) : Item :=
  keySchema.foldl (fun key ks =>
    match get? item ks.attributeName with
    | some val => insert key ks.attributeName val
    | none => key) key

theorem get?_extractKeyInto (item key keySchema name) :
    get? (extractKeyInto item key keySchema) name = if name ∈ keySchema.map (·.attributeName) then
        (get? item name).or (get? key name)
      else get? key name := by
  induction keySchema generalizing key with
  | nil => rfl
  | cons ks rest ih =>
    rw [extractKeyInto, foldl_cons, ← extractKeyInto, ih]
    by_cases hname : ks.attributeName = name
    · subst hname
      cases hget : get? item ks.attributeName <;> simp
    · have hne : name ≠ ks.attributeName := .symm hname
      cases hget : get? item ks.attributeName <;>
        simp [get?_insert_of_ne _ _ hname, hne]

theorem get?_extractKey (item keySchema name) : get? (extractKey item keySchema) name =
      if name ∈ keySchema.map (·.attributeName) then get? item name else none := by
  change get? (extractKeyInto item [] keySchema) name = _
  rw [get?_extractKeyInto, get?_nil, Option.or_none]

theorem length_extractKey {item : Item} {keySchema}
    (hnames : (keySchema.map (·.attributeName)).Nodup)
    (hpresent : ∀ ks ∈ keySchema, (get? item ks.attributeName).isSome = true) :
    (extractKey item keySchema).length = keySchema.length := by
  have hinto : ∀ key : Item, (∀ ks ∈ keySchema, get? key ks.attributeName = none) →
      (extractKeyInto item key keySchema).length = key.length + keySchema.length := by
    induction keySchema with
    | nil => exact fun _ _ => rfl
    | cons ks rest ih =>
      intro key hnew
      rw [map_cons] at hnames
      obtain ⟨hks, hrest⟩ := nodup_cons.mp hnames
      obtain ⟨v, hv⟩ := Option.isSome_iff_exists.mp (hpresent ks (by simp))
      have hlength := length_insert v (hnew ks (by simp))
      rw [extractKeyInto, foldl_cons, ← extractKeyInto, hv,
        ih hrest (fun k hk => hpresent k (by simp [hk])), hlength, length_cons]
      · omega
      intro k hk
      have hne : ks.attributeName ≠ k.attributeName := by
        rintro heq
        exact hks (heq ▸ mem_map_of_mem hk)
      rw [get?_insert_of_ne _ _ hne]
      exact hnew k (by simp [hk])
  have hempty := hinto [] fun _ _ => rfl
  rw [length_nil, Nat.zero_add] at hempty
  exact hempty

def AttributeValue.typeTag : AttributeValue → String
  | .s _ => "S"
  | .n _ => "N"
  | .b _ => "B"
  | .ss _ => "SS"
  | .ns _ => "NS"
  | .bs _ => "BS"
  | .bool _ => "BOOL"
  | .null => "NULL"
  | .l _ => "L"
  | .m _ => "M"

def ScalarAttributeType.typeTag : ScalarAttributeType → String
  | .s => "S"
  | .n => "N"
  | .b => "B"

def ScalarAttributeType.matches : ScalarAttributeType → AttributeValue → Bool
  | .s, .s _ | .n, .n _ | .b, .b _ => true
  | _, _ => false

def declaredType (attrDefs : List AttributeDefinition) (name : String) :
    Option ScalarAttributeType :=
  (attrDefs.find? fun ad => ad.attributeName == name).map (·.attributeType)

end ExtendDb
