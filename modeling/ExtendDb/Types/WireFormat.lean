import ExtendDb.Types.AttributeValue
import ExtendDb.Theory.Fallible
import ExtendDb.Validation.NormalForm

/-!
# Attribute values as JSON

A value is an object with one entry, the type descriptor and its payload.
-/

namespace ExtendDb

open Fallible List

inductive JsonValue where
  | null
  | bool (b : Bool)
  | number (text : String)
  | string (s : String)
  | array (items : List JsonValue)
  | object (entries : List (String × JsonValue))

namespace JsonValue

def asStr : JsonValue → Option String
  | .string s => some s
  | _ => none

def asBool : JsonValue → Option Bool
  | .bool b => some b
  | _ => none

def asArray : JsonValue → Option (List JsonValue)
  | .array items => some items
  | _ => none

end JsonValue

structure CrateTexts where
  /-- base64's text for an input it refuses. -/
  base64Error : String → String
  /-- serde's text for a value that is no map. -/
  invalidType : JsonValue → String
  /-- A message as `serde_json::Error::custom` displays it. -/
  custom : String → String

/-! ## Writing -/

section

variable (base64 : Base64Engine)

mutual

def serialize : AttributeValue → JsonValue
  | .s v => .object [("S", .string v)]
  | .n v => .object [("N", .string v)]
  | .b v => .object [("B", .string (base64.encode v))]
  | .ss v => .object [("SS", .array (v.map .string))]
  | .ns v => .object [("NS", .array (v.map .string))]
  | .bs v => .object [("BS", .array (v.map fun b => .string (base64.encode b)))]
  | .bool v => .object [("BOOL", .bool v)]
  | .null => .object [("NULL", .bool true)]
  | .l v => .object [("L", .array (serializeList v))]
  | .m v => .object [("M", .object (serializeEntries v))]

def serializeList : List AttributeValue → List JsonValue
  | [] => []
  | v :: vs => serialize v :: serializeList vs

def serializeEntries : List (String × AttributeValue) → List (String × JsonValue)
  | [] => []
  | (name, v) :: es => (name, serialize v) :: serializeEntries es

end

end

/-! ## Reading -/

def emptyAttributeValue : String :=
  "Supplied AttributeValue is empty, must contain exactly one of the supported datatypes"

def multiAttributeValue : String :=
  "Supplied AttributeValue has more than one datatypes set, must contain exactly one of the " ++
    "supported datatypes"

def invalidParameter (what : String) : String :=
  "One or more parameter values were invalid: " ++ what

def normalizedOrRaw (n : String) : String :=
  match validateAndNormalizeNumber n with
  | .ok t => t
  | .error _ => n

def decodeSet {α : Type} [LinearOrder α] (notArray empty : String)
    (member : JsonValue → Except String α) (size : List JsonValue → Nat)
    (duplicates : String → String) (value : JsonValue) : Except String (List α) :=
  match value.asArray with
  | none => .error notArray
  | some arr =>
    if arr.isEmpty then .error empty
    else do
      let set ← OrdSet.ofList <$> arr.mapM member
      if size arr ≠ set.length then
        throw (invalidParameter (duplicates (", ".intercalate (arr.filterMap JsonValue.asStr))))
      else pure set

def stringSet (value : JsonValue) : Except String AttributeValue :=
  .ss <$> decodeSet "SS value must be an array" (invalidParameter "An string set  may not be empty")
    (fun v => match v.asStr with
      | some s => .ok s
      | none => .error (invalidParameter "An string set may not have a null string as a member"))
    (fun arr => (arr.filterMap JsonValue.asStr).length)
    (fun repr => "Input collection [" ++ repr ++ "] contains duplicates.") value

def numberSet (value : JsonValue) : Except String AttributeValue :=
  .ns <$> decodeSet "NS value must be an array" (invalidParameter "An number set  may not be empty")
    fun v => match v.asStr with
      | some s => .ok (normalizedOrRaw s)
      | none => .error emptyAttributeValue
    length (fun repr => "Input collection [" ++ repr ++ "] contains duplicates.") value

section

variable (base64 : Base64Engine) (texts : CrateTexts)

def decodeBase64 (b64 : String) : Except String Bytes :=
  match base64.decode b64 with
  | some bytes => .ok bytes
  | none => .error ("invalid base64: " ++ texts.base64Error b64)

def binarySet (value : JsonValue) : Except String AttributeValue :=
  .bs <$> decodeSet "BS value must be an array" (invalidParameter "Binary sets should not be empty")
    fun v => match v.asStr with
      | some b64 => decodeBase64 base64 texts b64
      | none => .error emptyAttributeValue
    length (fun repr => "Input collection [" ++ repr ++ "]of type BS contains duplicates.") value

mutual

def fromDescriptor (key : String) (value : JsonValue) : Except String AttributeValue :=
  match key with
  | "S" =>
    match value with
    | .string s => .ok (.s s)
    | _ => .error "S value must be a string"
  | "N" =>
    match value with
    | .string n => .ok (.n (normalizedOrRaw n))
    | _ => .error "N value must be a string"
  | "B" =>
    match value.asStr with
    | some b64 => .b <$> decodeBase64 base64 texts b64
    | none => .error "B value must be a base64 string"
  | "SS" => stringSet value
  | "NS" => numberSet value
  | "BS" => binarySet base64 texts value
  | "BOOL" =>
    match value.asBool with
    | some b => .ok (.bool b)
    | none => .error "BOOL value must be a boolean"
  | "NULL" =>
    match value.asBool with
    | some true => .ok .null
    | some false =>
      .error (invalidParameter "Null attribute value types must have the value of true")
    | none => .error "NULL value must be a boolean"
  | "L" =>
    match value with
    | .array arr => .l <$> fromNestedList arr
    | _ => .error "L value must be an array"
  | "M" =>
    match value with
    | .object obj => (fun es => .m (OrdMap.ofList es)) <$> fromNestedEntries obj
    | _ => .error "M value must be an object"
  | other => .error ("unknown AttributeValue type descriptor: " ++ other)

def fromNested (value : JsonValue) : Except String AttributeValue :=
  match value with
  | .object entries => (fromObject entries).mapError texts.custom
  | other => .error (texts.invalidType other)

def fromObject (entries : List (String × JsonValue)) : Except String AttributeValue :=
  match entries with
  | [] => .error emptyAttributeValue
  | [(key, value)] => fromDescriptor key value
  | _ :: _ :: _ => .error multiAttributeValue

def fromNestedList (arr : List JsonValue) : Except String (List AttributeValue) :=
  match arr with
  | [] => .ok []
  | v :: vs => do
    let first ← fromNested v
    let rest ← fromNestedList vs
    pure (first :: rest)

def fromNestedEntries (obj : List (String × JsonValue)) :
    Except String (List (String × AttributeValue)) :=
  match obj with
  | [] => .ok []
  | (k, v) :: es => do
    let first ← fromNested v
    let rest ← fromNestedEntries es
    pure ((k, first) :: rest)

end

def visitMap (entries : List (String × JsonValue)) : Except String AttributeValue :=
  match entries with
  | [] => .error emptyAttributeValue
  | (key, value) :: rest =>
    if rest.isEmpty then fromDescriptor base64 texts key value else .error multiAttributeValue

def deserialize (value : JsonValue) : Except String AttributeValue :=
  match value with
  | .object entries => visitMap base64 texts entries
  | other => .error (texts.invalidType other)

end

/-! ## Round trips -/

namespace AttributeValue

mutual

/-- `P` holds of the value and of everything inside it. -/
def Everywhere (P : AttributeValue → Prop) : AttributeValue → Prop
  | .l vs => P (.l vs) ∧ EverywhereInList P vs
  | .m es => P (.m es) ∧ EverywhereInEntries P es
  | v => P v

def EverywhereInList (P : AttributeValue → Prop) : List AttributeValue → Prop
  | [] => True
  | v :: vs => v.Everywhere P ∧ EverywhereInList P vs

def EverywhereInEntries (P : AttributeValue → Prop) : List (String × AttributeValue) → Prop
  | [] => True
  | (_, v) :: es => v.Everywhere P ∧ EverywhereInEntries P es

end

def Ordered : AttributeValue → Prop
  | .ss v | .ns v | .bs v => v.Pairwise (· < ·)
  | .m es => OrdMap.Ascending es
  | _ => True

def NonemptySet : AttributeValue → Prop
  | .ss v | .ns v | .bs v => v ≠ []
  | _ => True

variable {P : AttributeValue → Prop} {v : AttributeValue}

theorem Everywhere.self (h : v.Everywhere P) : P v := by
  cases v with
  | l vs | m es => exact h.1
  | _ => exact h

theorem Everywhere.of_mem_list {vs} (h : (l vs).Everywhere P) (hv : v ∈ vs) : v.Everywhere P := by
  replace h : EverywhereInList P vs := h.2
  induction vs with
  | nil => cases hv
  | cons w ws ih =>
    rcases mem_cons.mp hv with rfl | hv
    · exact h.1
    · exact ih hv h.2

theorem Everywhere.of_mem_map {es} (h : (m es).Everywhere P) {e} (he : e ∈ es) :
    e.2.Everywhere P := by
  replace h : EverywhereInEntries P es := h.2
  induction es with
  | nil => cases he
  | cons e' es ih =>
    rcases mem_cons.mp he with rfl | he
    · exact h.1
    · exact ih he h.2

end AttributeValue

open AttributeValue

section

variable {base64 : Base64Engine} {texts : CrateTexts}

theorem normalizedOrRaw_of_isNormal {t} (h : IsNormal t) : normalizedOrRaw t = t := by
  have hok : validateAndNormalizeNumber t = .ok t := h
  rw [normalizedOrRaw, hok]

theorem decodeSet_array {α : Type} [LinearOrder α] {notArray empty member size duplicates write}
    {xs : List α} (hne : xs ≠ []) (hxs : xs.Pairwise (· < ·))
    (hmember : ∀ x ∈ xs, member (write x) = .ok x) (hsize : size (xs.map write) = xs.length) :
    decodeSet notArray empty member size duplicates (.array (xs.map write)) = .ok xs := by
  have hmap : (xs.map write).mapM member = .ok xs := by
    rw [mapM_eq_ok, forall₂_map_left_iff]
    exact forall₂_same.mpr hmember
  have hlist : (xs.map write).isEmpty = false := by simpa using hne
  simp only [decodeSet, JsonValue.asArray, hlist, Bool.false_eq_true, if_false, hmap]
  change (if _ then _ else _) = _
  rw [OrdSet.ofList_of_ascending hxs, hsize, if_neg (by simp)]
  rfl

theorem length_filterMap_asStr (xs : List String) :
    ((xs.map JsonValue.string).filterMap JsonValue.asStr).length = xs.length := by
  simp [JsonValue.asStr]

variable (texts) in
theorem fromNestedList_serializeList {vs}
    (h : ∀ v ∈ vs, fromNested base64 texts (serialize base64 v) = .ok v) :
    fromNestedList base64 texts (serializeList base64 vs) = .ok vs := by
  induction vs with
  | nil => rfl
  | cons v vs ih =>
    rw [serializeList, fromNestedList, h v (by simp), ih fun w hw => h w (.tail _ hw)]
    rfl

variable (texts) in
theorem fromNestedEntries_serializeEntries {es}
    (h : ∀ e ∈ es, fromNested base64 texts (serialize base64 e.2) = .ok e.2) :
    fromNestedEntries base64 texts (serializeEntries base64 es) = .ok es := by
  induction es with
  | nil => rfl
  | cons e es ih =>
    rw [serializeEntries, fromNestedEntries, h e (by simp), ih fun w hw => h w (.tail _ hw)]
    rfl

theorem fromDescriptor_serialize (hbase64 : base64.Documented) {v : AttributeValue}
    (hordered : v.Everywhere Ordered)
    (hsets : v.Everywhere NonemptySet) (hnumbers : v.AllNumbers IsNormal) :
    ∃ key payload, serialize base64 v = .object [(key, payload)] ∧
      fromDescriptor base64 texts key payload = .ok v := by
  have hnested {w : AttributeValue} (h : ∃ key payload, serialize base64 w = .object [(key, payload)] ∧
      fromDescriptor base64 texts key payload = .ok w) :
      fromNested base64 texts (serialize base64 w) = .ok w := by
    obtain ⟨key, payload, hserialize, hread⟩ := h
    rw [hserialize, fromNested, fromObject, hread]
    rfl
  have hdecode (b : Bytes) : decodeBase64 base64 texts (base64.encode b) = .ok b := by
    rw [decodeBase64, hbase64.decode_encode]
  induction v using nested_induction with
  | leaf v hl hm =>
    cases v with
    | s v | bool v | null => exact ⟨_, _, rfl, rfl⟩
    | n v =>
      refine ⟨_, _, rfl, ?_⟩
      have hnormal := normalizedOrRaw_of_isNormal (allNumbers_n.mp hnumbers)
      simp [fromDescriptor, hnormal]
    | b v =>
      refine ⟨_, _, rfl, ?_⟩
      simp only [fromDescriptor, JsonValue.asStr, hdecode]
      rfl
    | ss v =>
      refine ⟨_, _, rfl, ?_⟩
      simp only [fromDescriptor, stringSet]
      rw [decodeSet_array hsets.self hordered.self (fun _ _ => rfl) (length_filterMap_asStr v)]
      rfl
    | ns v =>
      refine ⟨_, _, rfl, ?_⟩
      simp only [fromDescriptor, numberSet]
      rw [decodeSet_array hsets.self hordered.self (fun x hx => ?_) (length_map _)]
      · rfl
      · exact congrArg _ (normalizedOrRaw_of_isNormal (allNumbers_ns.mp hnumbers x hx))
    | bs v =>
      refine ⟨_, _, rfl, ?_⟩
      simp only [fromDescriptor, binarySet]
      rw [decodeSet_array hsets.self hordered.self (fun x _ => hdecode x) (length_map _)]
      rfl
    | l vs => exact absurd rfl (hl vs)
    | m es => exact absurd rfl (hm es)
  | list vs ih =>
    refine ⟨_, _, rfl, ?_⟩
    have hlist := fromNestedList_serializeList texts fun v hv =>
      hnested (ih v hv (hordered.of_mem_list hv) (hsets.of_mem_list hv)
        (allNumbers_l.mp hnumbers v hv))
    simp only [fromDescriptor, hlist]
    rfl
  | map es ih =>
    refine ⟨_, _, rfl, ?_⟩
    have hentries := fromNestedEntries_serializeEntries texts fun e he =>
      hnested (ih e he (hordered.of_mem_map he) (hsets.of_mem_map he)
        (allNumbers_m.mp hnumbers e he))
    have hascending : OrdMap.Ascending es := hordered.self
    simp only [fromDescriptor, hentries]
    change Except.ok (m (OrdMap.ofList es)) = _
    rw [OrdMap.ofList_of_ascending hascending]

end

/-- Values survive the wire, and the two readers accept the same JSON values with the same
results. -/
theorem deserialize_serialize (base64 : Base64Engine) (hbase64 : base64.Documented)
    (texts : CrateTexts) :
    (∀ v : AttributeValue, v.Everywhere AttributeValue.Ordered →
      v.Everywhere AttributeValue.NonemptySet → v.AllNumbers IsNormal →
      deserialize base64 texts (serialize base64 v) = .ok v) ∧
    ∀ value : JsonValue,
      (deserialize base64 texts value).toOption = (fromNested base64 texts value).toOption := by
  refine ⟨fun v hordered hsets hnumbers => ?_, fun value => ?_⟩
  · obtain ⟨key, payload, hserialize, hread⟩ :=
      fromDescriptor_serialize hbase64 hordered hsets hnumbers
    rw [hserialize, deserialize, visitMap, hread]
    rfl
  · cases value with
    | object entries =>
      rw [deserialize, fromNested]
      match entries with
      | [] => rfl
      | [(key, value)] =>
        rw [visitMap, fromObject]
        cases fromDescriptor base64 texts key value <;> rfl
      | _ :: _ :: _ => rfl
    | _ => rfl

/-- The theorem at a nested value. -/
theorem deserialize_serialize_nested :
    deserialize .standard ⟨fun _ => "", fun _ => "", id⟩ (serialize .standard
      (.m [("a", .l [.n "1.5", .ns ["10", "9"]]), ("b", .b [1, 2])])) =
      .ok (.m [("a", .l [.n "1.5", .ns ["10", "9"]]), ("b", .b [1, 2])]) := by
  refine (deserialize_serialize .standard Base64Engine.standard_documented _).1 _ ?_ ?_ (by decide)
  · simp only [Everywhere, EverywhereInEntries, EverywhereInList, Ordered, OrdMap.Ascending]
    decide
  · simp only [Everywhere, EverywhereInEntries, EverywhereInList, NonemptySet]
    decide

end ExtendDb
