import ExtendDb.Theory.Netstring
import ExtendDb.Validation.Item
import ExtendDb.BackupFormat.KeyOrder
import ExtendDb.BigDecimal.Value

/-!
# Row keys

The text under which the SQL backends keep a row's partition, the typed values of its sort key
columns, and what of an item an index row stores.
-/

namespace ExtendDb

open Fallible List Netstring OrdMap String

inductive StorageError where
  | internal (message : String)
  | validation (message : String)
deriving DecidableEq

def pkToText (base64 : Base64Engine) (value : AttributeValue) : Except StorageError String :=
  match hashKeyText base64 value with
  | some text => .ok text
  | none => .error (.internal "partition key must be S, N, or B")

/-- Several texts as one: `<len>:<value>,` for each, with the length in UTF-8 bytes. -/
def encodeNetstringComposite (parts : List String) : String :=
  parts.foldl (fun out p => out ++ toString p.utf8ByteSize ++ ":" ++ p ++ ",") ""

def hashPart (base64 : Base64Engine) (item : Item) (missing : String) (ks : KeySchemaElement) :
    Except StorageError String :=
  match get? item ks.attributeName with
  | none => .error (.internal missing)
  | some val => pkToText base64 val

def compositePkToText (base64 : Base64Engine) (item : Item) (keySchema : List KeySchemaElement) :
    Except StorageError String :=
  match hashKeyElements keySchema with
  | [ks] => hashPart base64 item "missing partition key" ks
  | hashElements => do
    let parts ← hashElements.mapM fun ks =>
      hashPart base64 item ("missing partition key attribute " ++ ks.attributeName) ks
    pure (encodeNetstringComposite parts)

def projectNames (item : Item) (names : List String) (projected : Item) : Item :=
  names.foldl (fun projected name =>
    match get? item name with
    | some v => insert projected name v
    | none => projected) projected

def projectItemForIndex (item : Item) (indexKs baseKs : List KeySchemaElement)
    (projection : Projection) : Item :=
  let keys := projectNames item ((baseKs ++ indexKs).map (·.attributeName)) []
  match projection.projectionType with
  | .all => item
  | .keysOnly => keys
  | .include => match projection.nonKeyAttributes with
    | some attrs => projectNames item attrs keys
    | none => keys

def itemHasIndexKeys (item : Item) (indexKs : List KeySchemaElement) : Bool :=
  indexKs.all fun ks => (get? item ks.attributeName).isSome

/-! ## Netstrings -/

theorem utf8ByteSize_eq_size (s : String) : s.utf8ByteSize = size Char.utf8Size s.toList := by
  obtain ⟨cs, rfl⟩ : ∃ cs, s = ofList cs := ⟨s.toList, ofList_toList.symm⟩
  induction cs with
  | nil => rfl
  | cons c cs ih =>
    rw [ofList_cons, utf8ByteSize_append, ih]
    simp [size]

theorem toList_encodeNetstringComposite (parts : List String) :
    (encodeNetstringComposite parts).toList = encode Char.utf8Size (parts.map toList) := by
  have hfold (out : String) :
      (parts.foldl (fun out p => out ++ toString p.utf8ByteSize ++ ":" ++ p ++ ",") out).toList =
        out.toList ++ encode Char.utf8Size (parts.map toList) := by
    induction parts generalizing out with
    | nil => simp [encode]
    | cons p ps ih =>
      rw [foldl_cons, ih]
      simp [encode, frame, ← utf8ByteSize_eq_size]
  exact hfold ""

theorem encodeNetstringComposite_inj {ps qs} :
    encodeNetstringComposite ps = encodeNetstringComposite qs ↔ ps = qs := by
  rw [← toList_inj, toList_encodeNetstringComposite, toList_encodeNetstringComposite,
    (encode_injective Char.utf8Size_pos).eq_iff]
  exact (map_injective_iff.mpr fun _ _ => toList_inj.mp).eq_iff

/-! ## Partition texts -/

/-- Two key values are the same value: equal strings, equal bytes or equal numbers. -/
def SameKeyValue : AttributeValue → AttributeValue → Prop
  | .s x, .s y => x = y
  | .n x, .n y => numberValue x = numberValue y
  | .b x, .b y => x = y
  | _, _ => False

def NormalKeyValue (v : AttributeValue) : Prop := ∀ n, v = .n n → IsNormal n

variable {ty : ScalarAttributeType}

theorem pkToText_eq_iff {base64} (hbase64 : Function.Injective base64.encode) {v w}
    (hv : ty.matches v = true) (hw : ty.matches w = true) (hnv : NormalKeyValue v)
    (hnw : NormalKeyValue w) :
    ∃ t u, pkToText base64 v = .ok t ∧ pkToText base64 w = .ok u ∧ (t = u ↔ SameKeyValue v w) := by
  cases ty with
  | s =>
    cases v <;> cases hv
    cases w <;> cases hw
    exact ⟨_, _, rfl, rfl, .rfl⟩
  | n =>
    cases v <;> cases hv
    cases w <;> cases hw
    refine ⟨_, _, rfl, rfl, fun h => congrArg numberValue h, fun h => ?_⟩
    exact IsNormal.eq_of_numberValue_eq (hnv _ rfl) (hnw _ rfl) h
  | b =>
    cases v <;> cases hv
    cases w <;> cases hw
    exact ⟨_, _, rfl, rfl, hbase64.eq_iff⟩

variable {attrDefs : List AttributeDefinition} {keySchema : List KeySchemaElement}

theorem validateItemKeys_ok {item} (h : validateItemKeys item keySchema attrDefs = .ok ()) {ks}
    (hks : ks ∈ keySchema) (hty : declaredType attrDefs ks.attributeName = some ty) :
    ∃ v, get? item ks.attributeName = some v ∧ ty.matches v = true := by
  obtain ⟨v, hv, htype⟩ := unbind (forM_eq_ok.mp h ks hks)
  refine ⟨v, ?_, ?_⟩
  · unfold requireKey at hv
    split at hv
    · rename_i hget
      cases hv
      exact hget
    · cases hv
  · rw [validateKeyAttributeType, hty] at htype
    by_cases hmatch : ty.matches v = true
    · exact hmatch
    · simp [hmatch] at htype

/-- Whatever `validate_key_only` accepts passes `validate_item_keys`. -/
theorem validateItemKeys_of_validateKeyOnly {key}
    (h : validateKeyOnly key keySchema attrDefs = .ok ()) :
    validateItemKeys key keySchema attrDefs = .ok () := by
  unfold validateKeyOnly at h
  split at h
  · cases h
  apply forM_eq_ok.mpr
  intro ks hks
  obtain ⟨v, hv, hrest⟩ := unbind (forM_eq_ok.mp h ks hks)
  exact bind_eq_ok.mpr ⟨v, hv, (check_then_eq_ok.mp hrest).1⟩

/-- Row identity is key identity: for every key schema whose HASH attributes are declared, two
valid keys with normal numbers have equal partition texts exactly when every HASH attribute has
the same value in both. -/
theorem compositePkToText_eq_iff (base64 : Base64Engine)
    (hbase64 : Function.Injective base64.encode) (keySchema : List KeySchemaElement)
    (attrDefs : List AttributeDefinition)
    (hdeclared : ∀ ks ∈ hashKeyElements keySchema,
      (declaredType attrDefs ks.attributeName).isSome = true) (key key' : Item)
    (hkey : validateItemKeys key keySchema attrDefs = .ok ())
    (hkey' : validateItemKeys key' keySchema attrDefs = .ok ())
    (hnormal : ∀ e ∈ key, NormalKeyValue e.2) (hnormal' : ∀ e ∈ key', NormalKeyValue e.2) :
    ∃ t t', compositePkToText base64 key keySchema = .ok t ∧
      compositePkToText base64 key' keySchema = .ok t' ∧
      (t = t' ↔ ∀ ks ∈ hashKeyElements keySchema, ∃ v v',
        get? key ks.attributeName = some v ∧ get? key' ks.attributeName = some v' ∧
          SameKeyValue v v') := by
  -- one attribute, whatever message a missing one would give
  have hpart (missing : KeySchemaElement → String) :
      ∀ ks ∈ hashKeyElements keySchema, ∃ t u, hashPart base64 key (missing ks) ks = .ok t ∧
        hashPart base64 key' (missing ks) ks = .ok u ∧ (t = u ↔ ∃ v v',
          get? key ks.attributeName = some v ∧ get? key' ks.attributeName = some v' ∧
            SameKeyValue v v') := by
    intro ks hks
    obtain ⟨ty, hty⟩ := Option.isSome_iff_exists.mp (hdeclared ks hks)
    obtain ⟨v, hv, hmatch⟩ := validateItemKeys_ok hkey (mem_of_mem_filter hks) hty
    obtain ⟨w, hw, hmatch'⟩ := validateItemKeys_ok hkey' (mem_of_mem_filter hks) hty
    obtain ⟨t, u, ht, hu, htu⟩ := pkToText_eq_iff hbase64 hmatch hmatch'
      (hnormal _ (mem_of_get? hv)) (hnormal' _ (mem_of_get? hw))
    refine ⟨t, u, by rw [hashPart, hv]; exact ht, by rw [hashPart, hw]; exact hu, ?_⟩
    simp [htu, hv, hw]
  unfold compositePkToText
  split
  · rename_i ks heq
    obtain ⟨t, u, ht, hu, htu⟩ := hpart (fun _ => "missing partition key") ks (by simp [heq])
    exact ⟨t, u, ht, hu, by simp [heq, htu]⟩
  · obtain ⟨ts, us, hts, hus, htus⟩ := mapM_agree_iff (forall₂_same.mpr
        (hpart fun ks => "missing partition key attribute " ++ ks.attributeName))
    refine ⟨encodeNetstringComposite ts, encodeNetstringComposite us, ?_, ?_, ?_⟩
    · rw [hts]
      rfl
    · rw [hus]
      rfl
    · rw [encodeNetstringComposite_inj, htus]

/-- Two HASH attributes, the first holding what looks like a frame of its own. -/
theorem compositePkToText_eq_iff_framed :
    ∃ t t', compositePkToText .standard [("a", .s "1:x,"), ("n", .n "5")]
          [⟨"a", .hash⟩, ⟨"n", .hash⟩] = .ok t ∧
      compositePkToText .standard [("a", .s "1:x,"), ("n", .n "-0.5")]
          [⟨"a", .hash⟩, ⟨"n", .hash⟩] = .ok t' ∧
      (t = t' ↔ ∀ ks ∈ hashKeyElements [⟨"a", .hash⟩, ⟨"n", .hash⟩], ∃ v v',
        get? [("a", .s "1:x,"), ("n", .n "5")] ks.attributeName = some v ∧
        get? [("a", .s "1:x,"), ("n", .n "-0.5")] ks.attributeName = some v' ∧
          SameKeyValue v v') := by
  have hnormal (n : String) (hn : IsNormal n) :
      ∀ e ∈ [("a", .s "1:x,"), ("n", .n n)], NormalKeyValue e.2 := by
    simp [NormalKeyValue, hn]
  exact compositePkToText_eq_iff .standard Base64Engine.standard_documented.encode_injective
    [⟨"a", .hash⟩, ⟨"n", .hash⟩] [⟨"a", .s⟩, ⟨"n", .n⟩] (by decide) _ _
    (validateItemKeys_of_validateKeyOnly (by decide))
    (validateItemKeys_of_validateKeyOnly (by decide))
    (hnormal "5" (by decide +kernel)) (hnormal "-0.5" (by decide +kernel))

end ExtendDb
