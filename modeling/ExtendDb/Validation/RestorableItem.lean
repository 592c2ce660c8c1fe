import ExtendDb.Engine.WriteItems
import ExtendDb.BackupFormat.KeyOrder

/-!
# Items a restore can write

`validate_restorable_item` is the check a backup job runs on every item it reads: the key attributes
in key-schema order, then one walk over the other attributes, then the size of the item.
-/

namespace ExtendDb

open Fallible List OrdMap

structure RestorableLimits where
  maxItemSizeBytes : Nat
  maxPartitionKeySizeBytes : Nat
  maxSortKeySizeBytes : Nat
  maxAttributeNameBytes : Nat
deriving DecidableEq

def RestorableLimits.ofConfig (limits : LimitsConfig) : RestorableLimits where
  maxItemSizeBytes := limits.maxItemSizeBytes
  maxPartitionKeySizeBytes := limits.maxPartitionKeySizeBytes
  maxSortKeySizeBytes := limits.maxSortKeySizeBytes
  maxAttributeNameBytes := limits.maxAttributeNameBytes

/-! ## The key attributes of a table -/

structure KeyAttribute where
  name : String
  ty : ScalarAttributeType
  keyType : KeyType
deriving DecidableEq

structure RestorableKeySchema where
  attributes : List KeyAttribute
deriving DecidableEq

namespace RestorableKeySchema

def resolveAttribute (attributeDefinitions : List AttributeDefinition) (element : KeySchemaElement) :
    Except SchemaFault KeyAttribute :=
  match attributeDefinitions.filter (fun d => d.attributeName == element.attributeName) with
  | [] => .error (.undefinedAttribute element.attributeName)
  | [d] => .ok ⟨element.attributeName, d.attributeType, element.keyType⟩
  | _ => .error (.definedTwice element.attributeName)

def resolve (keySchema : List KeySchemaElement) (attributeDefinitions : List AttributeDefinition) :
    Except SchemaFault RestorableKeySchema := do
  let attributes ← keySchema.mapM (resolveAttribute attributeDefinitions)
  pure ⟨attributes⟩

def isKey (key : RestorableKeySchema) (name : String) : Bool :=
  key.attributes.any fun a => a.name == name

def shownKey (key : RestorableKeySchema) (item : Item) : Item :=
  key.attributes.filterMap fun a => (get? item a.name).map (a.name, ·)

end RestorableKeySchema

/-! ## Refusals -/

inductive PathSegment where
  | attribute (name : String)
  | member (name : String)
  | index (i : Nat)
deriving DecidableEq

inductive RestorableItemReason where
  | invalidNumber (value : String) (reason : DynamoDbError)
  | keyMissing (name : String)
  | keyValue (fault : FormatError)
  | keyTooLong (name : String) (size : Nat) (keyType : KeyType) (max : Nat)
  | attributeNameTooLong (size max : Nat)
  | tooLarge (size max : Nat)
  | tooDeep
deriving DecidableEq

abbrev Refusal := List PathSegment × RestorableItemReason

structure RestorableItemError where
  key : Item
  path : List PathSegment
  reason : RestorableItemReason

/-! ## The check -/

def checkName (name : String) (limits : RestorableLimits) : Except RestorableItemReason Unit :=
  if name.utf8ByteSize > limits.maxAttributeNameBytes then
    .error (.attributeNameTooLong name.utf8ByteSize limits.maxAttributeNameBytes)
  else .ok ()

def number (n : String) : Except RestorableItemReason Unit :=
  match validateAndNormalizeNumber n with
  | .ok _ => .ok ()
  | .error e => .error (.invalidNumber n e)

def walkSet (path : List PathSegment) : Nat → List String → Except Refusal Unit
  | _, [] => .ok ()
  | i, n :: ns => do
    (number n).mapError (path ++ [.index i], ·)
    walkSet path (i + 1) ns

section

variable (limits : RestorableLimits)

mutual

/-- Visit a value and everything under it. -/
def walk : AttributeValue → List PathSegment → Nat → Except Refusal Unit
  | .n v, path, _ => (number v).mapError (path, ·)
  | .ns vs, path, _ => walkSet path 0 vs
  | .l vs, path, depth =>
    if depth + 1 ≥ maxItemNestingDepth then .error (path, .tooDeep)
    else walkList vs path 0 (depth + 1)
  | .m es, path, depth =>
    if depth + 1 ≥ maxItemNestingDepth then .error (path, .tooDeep)
    else walkEntries es path (depth + 1)
  | _, _, _ => .ok ()

def walkList : List AttributeValue → List PathSegment → Nat → Nat → Except Refusal Unit
  | [], _, _, _ => .ok ()
  | v :: vs, path, i, depth => do
    walk v (path ++ [.index i]) depth
    walkList vs path (i + 1) depth

def walkEntries : List (String × AttributeValue) → List PathSegment → Nat → Except Refusal Unit
  | [], _, _ => .ok ()
  | (name, v) :: es, path, depth => do
    (checkName name limits).mapError (path ++ [.member name], ·)
    walk v (path ++ [.member name]) depth
    walkEntries es path depth

end

def keyReason (ty : ScalarAttributeType) (value : AttributeValue) (fault : FormatError) :
    RestorableItemReason :=
  match value, ty with
  | .n n, .n =>
    match validateAndNormalizeNumber n with
    | .error e => .invalidNumber n e
    | .ok _ => .keyValue fault
  | _, _ => .keyValue fault

def checkKeyAttribute (item : Item) (attr : KeyAttribute) : Except RestorableItemReason Unit := do
  checkName attr.name limits
  match get? item attr.name with
  | none => .error (.keyMissing attr.name)
  | some value => do
    (checkKeyValue attr.name attr.ty value).mapError (keyReason attr.ty value)
    let max := match attr.keyType with
      | .hash => limits.maxPartitionKeySizeBytes
      | .range => limits.maxSortKeySizeBytes
    if keyValueByteSize value > max then
      .error (.keyTooLong attr.name (keyValueByteSize value) attr.keyType max)
    else .ok ()

def checkOther (key : RestorableKeySchema) (entry : String × AttributeValue) : Except Refusal Unit :=
  if key.isKey entry.1 then .ok ()
  else do
    (checkName entry.1 limits).mapError ([.attribute entry.1], ·)
    walk limits entry.2 [.attribute entry.1] 0

def validateRestorableItem (item : Item) (key : RestorableKeySchema) :
    Except RestorableItemError Unit :=
  let check : Except Refusal Unit := do
    key.attributes.forM fun attr =>
      (checkKeyAttribute limits item attr).mapError ([.attribute attr.name], ·)
    item.forM (checkOther limits key)
    if itemSizeBytes item > limits.maxItemSizeBytes then
      .error ([], .tooLarge (itemSizeBytes item) limits.maxItemSizeBytes)
    else .ok ()
  check.mapError fun refusal => ⟨key.shownKey item, refusal.1, refusal.2⟩

end

/-! ## What the walk accepts -/

open AttributeValue

variable {limits : LimitsConfig}

section

theorem number_eq_ok {n} : number n = .ok () ↔ IsValidNumber n := by
  rw [number, IsValidNumber]
  cases validateAndNormalizeNumber n with
  | ok t | error e => simp

theorem checkName_eq_ok {name} :
    checkName name (.ofConfig limits) = .ok () ↔ name.utf8ByteSize ≤ limits.maxAttributeNameBytes := by
  rw [checkName]
  split
  · rename_i h
    exact ⟨(fun hok => by cases hok), fun hle => absurd h (Nat.not_lt.mpr hle)⟩
  · rename_i h
    exact ⟨fun _ => Nat.not_lt.mp h, fun _ => rfl⟩

variable {path : List PathSegment}

theorem walkSet_eq_ok {i ns} : walkSet path i ns = .ok () ↔ ∀ n ∈ ns, IsValidNumber n := by
  induction ns generalizing i with
  | nil => simp [walkSet]
  | cons n ns ih =>
    rw [walkSet, check_then_eq_ok, mapError_eq_ok, number_eq_ok, ih, forall_mem_cons]

variable {P : AttributeValue → Prop} {vs : List AttributeValue}

theorem walkList_eq_ok {i d} (h : ∀ v ∈ vs, ∀ path, walk (.ofConfig limits) v path d = .ok () ↔ P v) :
    walkList (.ofConfig limits) vs path i d = .ok () ↔ ∀ v ∈ vs, P v := by
  induction vs generalizing i with
  | nil => simp [walkList]
  | cons v vs ih =>
    rw [walkList, check_then_eq_ok, h v (.head _), ih fun v hv => h v (.tail _ hv), forall_mem_cons]

variable {es : List (String × AttributeValue)}

theorem walkEntries_eq_ok {d}
    (h : ∀ e ∈ es, ∀ path, walk (.ofConfig limits) e.2 path d = .ok () ↔ P e.2) :
    walkEntries (.ofConfig limits) es path d = .ok () ↔
      ∀ e ∈ es, e.1.utf8ByteSize ≤ limits.maxAttributeNameBytes ∧ P e.2 := by
  induction es with
  | nil => simp [walkEntries]
  | cons e es ih =>
    rw [walkEntries, check_then_eq_ok, check_then_eq_ok, mapError_eq_ok, checkName_eq_ok,
      h e (.head _), ih fun e he => h e (.tail _ he),
      forall_mem_cons, and_assoc]

theorem listNameTooLarge_eq_false :
    listNameTooLarge vs limits = false ↔ ∀ v ∈ vs, nestedAttributeNameTooLarge v limits = false := by
  induction vs with
  | nil => simp [listNameTooLarge]
  | cons v vs ih => rw [listNameTooLarge, Bool.or_eq_false_iff, ih, forall_mem_cons]

theorem entryNameTooLarge_eq_false : entryNameTooLarge es limits = false ↔ ∀ e ∈ es,
      e.1.utf8ByteSize ≤ limits.maxAttributeNameBytes ∧
        nestedAttributeNameTooLarge e.2 limits = false := by
  induction es with
  | nil => simp [entryNameTooLarge]
  | cons e es ih =>
    rw [entryNameTooLarge, Bool.or_eq_false_iff, Bool.or_eq_false_iff, decide_eq_false_iff_not,
      Nat.not_lt, ih, forall_mem_cons]

/-- What the separate validators say of a value at level `d`. -/
@[mk_iff]
structure ValueAdmitted (limits : LimitsConfig) (d : Nat) (v : AttributeValue) : Prop where
  numbers : validateAttributeNumber v = .ok ()
  depth : checkAttributeValueDepth v d = .ok ()
  names : nestedAttributeNameTooLarge v limits = false

theorem walk_eq_ok {v d} :
    walk (.ofConfig limits) v path d = .ok () ↔ ValueAdmitted limits d v := by
  induction v using nested_induction generalizing path d with
  | leaf v hl hm =>
    have hiff : walk (.ofConfig limits) v path d = .ok () ↔ v.AllNumbers IsValidNumber := by
      cases v with
      | l vs => exact absurd rfl (hl vs)
      | m es => exact absurd rfl (hm es)
      | n t => rw [walk, mapError_eq_ok, number_eq_ok, allNumbers_n]
      | ns ts => rw [walk, walkSet_eq_ok, allNumbers_ns]
      | _ => simp [walk, AllNumbers, numbers]
    rw [hiff]
    refine ⟨fun h => ⟨validateAttributeNumber_eq_ok.mpr h, ?_, ?_⟩,
      fun h => validateAttributeNumber_eq_ok.mp h.numbers⟩
    all_goals
      cases v with
      | l vs => exact absurd rfl (hl vs)
      | m es => exact absurd rfl (hm es)
      | _ => rfl
  | list vs ih =>
    rw [walk]
    by_cases hdepth : d + 1 ≥ maxItemNestingDepth
    · rw [if_pos hdepth]
      refine ⟨(fun h => by cases h), fun h => ?_⟩
      have hrefused := h.depth
      rw [checkAttributeValueDepth, if_pos hdepth] at hrefused
      cases hrefused
    rw [if_neg hdepth, walkList_eq_ok fun v hv path => ih v hv, valueAdmitted_iff,
      validateAttributeNumber, validateListNumbers_eq_ok, checkAttributeValueDepth,
      if_neg hdepth, checkListDepth_eq_ok, nestedAttributeNameTooLarge, listNameTooLarge_eq_false]
    simp only [valueAdmitted_iff, forall_and]
  | map es ih =>
    rw [walk]
    by_cases hdepth : d + 1 ≥ maxItemNestingDepth
    · rw [if_pos hdepth]
      refine ⟨(fun h => by cases h), fun h => ?_⟩
      have hrefused := h.depth
      rw [checkAttributeValueDepth, if_pos hdepth] at hrefused
      cases hrefused
    rw [if_neg hdepth, walkEntries_eq_ok fun e he path => ih e he, valueAdmitted_iff,
      validateAttributeNumber, validateEntryNumbers_eq_ok, checkAttributeValueDepth,
      if_neg hdepth, checkEntriesDepth_eq_ok, nestedAttributeNameTooLarge,
      entryNameTooLarge_eq_false]
    simp only [valueAdmitted_iff, forall_and]
    tauto

/-! ## Key attributes -/

theorem resolveAttribute_eq_ok {attributeDefinitions element} (h : (attributeDefinitions.filter
      fun d => d.attributeName == element.attributeName).length = 1) :
    ∃ ty, RestorableKeySchema.resolveAttribute attributeDefinitions element =
        .ok ⟨element.attributeName, ty, element.keyType⟩ ∧
      declaredType attributeDefinitions element.attributeName = some ty := by
  obtain ⟨d, hd⟩ := length_eq_one_iff.mp h
  refine ⟨d.attributeType, ?_, ?_⟩
  · rw [RestorableKeySchema.resolveAttribute, hd]
  · rw [declaredType, ← head?_filter, hd]
    rfl

variable {ty : ScalarAttributeType} {value : AttributeValue}

theorem checkKeyValue_eq_ok {name} (hnormal : ∀ n, value = .n n → IsNormal n) :
    checkKeyValue name ty value = .ok () ↔
      ty.matches value = true ∧ validateNoEmptyKeyValue name value = .ok () := by
  have hmatches : scalarType value = some ty ↔ ty.matches value = true := by
    cases value <;> cases ty <;> simp [scalarType, ScalarAttributeType.matches]
  have hempty : checkNotEmpty name value = .ok () ↔ validateNoEmptyKeyValue name value = .ok () := by
    cases value with
    | s v | b v =>
      cases hv : v.isEmpty <;> simp [checkNotEmpty, validateNoEmptyKeyValue, emptyKeyKind, hv]
    | _ => simp [checkNotEmpty, validateNoEmptyKeyValue, emptyKeyKind]
  have hnumber : checkNormalNumber name value = .ok () := by
    cases value with
    | n t => exact checkNormalNumber_eq_ok.mpr (hnormal t rfl)
    | _ => rfl
  rw [checkKeyValue, check_then_eq_ok, check_then_eq_ok, checkScalarType_eq_ok, hempty, hmatches]
  exact ⟨fun h => ⟨h.2.1, h.1⟩, fun h => ⟨h.2, h.1, hnumber⟩⟩

/-- The key attribute of an element passes when the put checks of the element pass and its name is
short enough. -/
theorem checkKeyAttribute_eq_ok {item : Item} {attrDefs ks}
    (hdeclared : declaredType attrDefs ks.attributeName = some ty)
    (hnormal : ∀ n, get? item ks.attributeName = some (.n n) → IsNormal n) :
    checkKeyAttribute (.ofConfig limits) item ⟨ks.attributeName, ty, ks.keyType⟩ = .ok () ↔
      ks.attributeName.utf8ByteSize ≤ limits.maxAttributeNameBytes ∧
      ∃ value, get? item ks.attributeName = some value ∧
        validateKeyAttributeType ks.attributeName value attrDefs = .ok () ∧
        validateNoEmptyKeyValue ks.attributeName value = .ok () ∧
        checkKeySize ks value limits = .ok () := by
  rw [checkKeyAttribute, check_then_eq_ok, checkName_eq_ok]
  cases hget : get? item ks.attributeName with
  | none => simp
  | some value =>
    have htype : validateKeyAttributeType ks.attributeName value attrDefs = .ok () ↔
        ty.matches value = true := by
      rw [validateKeyAttributeType, hdeclared]
      cases hm : ty.matches value <;> simp [hm]
    have hsize : checkKeySize ks value limits = .ok () ↔
        keyValueByteSize value ≤ (match ks.keyType with
          | .hash => limits.maxPartitionKeySizeBytes
          | .range => limits.maxSortKeySizeBytes) := by
      rw [checkKeySize]
      cases ks.keyType <;> simp
    simp only [check_then_eq_ok, mapError_eq_ok, Option.some.injEq, exists_eq_left']
    rw [checkKeyValue_eq_ok fun n hn => hnormal n (hn ▸ hget), htype, hsize, and_assoc]
    cases ks.keyType <;> simp [RestorableLimits.ofConfig]

theorem valueAdmitted_of_matches
    (hmatches : ty.matches value = true) (hnormal : ∀ n, value = .n n → IsNormal n) :
    ValueAdmitted limits 0 value := by
  cases value with
  | s v | b v => exact ⟨rfl, rfl, rfl⟩
  | n v =>
    refine ⟨?_, rfl, rfl⟩
    rw [validateAttributeNumber_eq_ok, allNumbers_n]
    exact (hnormal v rfl).isValidNumber
  | _ => cases ty <;> cases hmatches

theorem validateAttributeNameSizes_eq_ok {item form} :
    validateAttributeNameSizes item limits form = .ok () ↔ ∀ e ∈ item,
      e.1.utf8ByteSize ≤ limits.maxAttributeNameBytes ∧
        nestedAttributeNameTooLarge e.2 limits = false := by
  rw [validateAttributeNameSizes, forM_eq_ok]
  refine forall₂_congr fun e _ => ?_
  rw [check_then_eq_ok, checkAttributeNameSize, checkNestedAttributeNameSizes]
  refine and_congr ?_ ?_
  · simp
  · cases nestedAttributeNameTooLarge e.2 limits <;> simp

end

/-! ## Restore and PutItem -/

section

variable {keyInfo : TableKeyInfo} {item : Item}

theorem keyChecks_eq_ok :
    (validateItemKeys item keyInfo.keySchema keyInfo.attributeDefinitions = .ok () ∧
      validateKeySizes item keyInfo.keySchema limits = .ok ()) ↔
    ∀ ks ∈ keyInfo.keySchema, ∃ value, get? item ks.attributeName = some value ∧
      validateKeyAttributeType ks.attributeName value keyInfo.attributeDefinitions = .ok () ∧
      validateNoEmptyKeyValue ks.attributeName value = .ok () ∧
      checkKeySize ks value limits = .ok () := by
  rw [validateItemKeys, validateKeySizes, forPresentKeys, forM_eq_ok, forM_eq_ok, ← forall₂_and]
  refine forall₂_congr fun ks _ => ?_
  cases hget : get? item ks.attributeName with
  | none => simp [requireKey, hget]
  | some value => simp [requireKey, hget, check_then_eq_ok]

theorem resolve_eq_ok (hdefined : ∀ ks ∈ keyInfo.keySchema, (keyInfo.attributeDefinitions.filter
      fun d => d.attributeName == ks.attributeName).length = 1) :
    ∃ ty : KeySchemaElement → ScalarAttributeType,
      RestorableKeySchema.resolve keyInfo.keySchema keyInfo.attributeDefinitions =
        .ok ⟨keyInfo.keySchema.map fun ks => ⟨ks.attributeName, ty ks, ks.keyType⟩⟩ ∧
      ∀ ks ∈ keyInfo.keySchema,
        declaredType keyInfo.attributeDefinitions ks.attributeName = some (ty ks) := by
  have hdeclared : ∀ ks ∈ keyInfo.keySchema,
      declaredType keyInfo.attributeDefinitions ks.attributeName =
        some ((declaredType keyInfo.attributeDefinitions ks.attributeName).getD .s) := by
    intro ks hks
    obtain ⟨ty, -, hty⟩ := resolveAttribute_eq_ok (hdefined ks hks)
    rw [hty]
    rfl
  refine ⟨fun ks => (declaredType keyInfo.attributeDefinitions ks.attributeName).getD .s, ?_, hdeclared⟩
  refine bind_eq_ok.mpr ⟨_, mapM_eq_ok.mpr ?_, rfl⟩
  rw [forall₂_map_right_iff, forall₂_same]
  intro ks hks
  obtain ⟨ty, hresolve, hty⟩ := resolveAttribute_eq_ok (hdefined ks hks)
  rw [hresolve]
  dsimp only
  rw [hty]
  rfl

/-- A restore admits an item exactly when the checks of PutItem do. -/
theorem validateRestorableItem_iff_put (hitem : OrdMap.Ascending item)
    (hdefined : ∀ ks ∈ keyInfo.keySchema, (keyInfo.attributeDefinitions.filter
      fun d => d.attributeName == ks.attributeName).length = 1)
    (hnormal : ∀ ks ∈ keyInfo.keySchema, ∀ n,
      get? item ks.attributeName = some (.n n) → IsNormal n) :
    ∃ key, RestorableKeySchema.resolve keyInfo.keySchema keyInfo.attributeDefinitions = .ok key ∧
      (validateRestorableItem (.ofConfig limits) item key = .ok () ↔
        validateAttributeNameSizes item limits .singleItem = .ok () ∧
          validatePutItem item limits keyInfo = .ok ()) := by
  obtain ⟨ty, hresolve, hdeclared⟩ := resolve_eq_ok hdefined
  refine ⟨_, hresolve, ?_⟩
  have hkeys : (∀ ks ∈ keyInfo.keySchema,
      checkKeyAttribute (.ofConfig limits) item ⟨ks.attributeName, ty ks, ks.keyType⟩ = .ok ()) ↔
      (∀ ks ∈ keyInfo.keySchema, ks.attributeName.utf8ByteSize ≤ limits.maxAttributeNameBytes) ∧
        (validateItemKeys item keyInfo.keySchema keyInfo.attributeDefinitions = .ok () ∧
          validateKeySizes item keyInfo.keySchema limits = .ok ()) := by
    rw [keyChecks_eq_ok, ← forall₂_and]
    exact forall₂_congr fun ks hks => checkKeyAttribute_eq_ok (hdeclared ks hks) (hnormal ks hks)
  have hother (e : String × AttributeValue) : checkOther (.ofConfig limits)
        ⟨keyInfo.keySchema.map fun ks => ⟨ks.attributeName, ty ks, ks.keyType⟩⟩ e = .ok () ↔
      ((∀ ks ∈ keyInfo.keySchema, ks.attributeName ≠ e.1) →
        e.1.utf8ByteSize ≤ limits.maxAttributeNameBytes ∧ ValueAdmitted limits 0 e.2) := by
    rw [checkOther]
    split
    · rename_i hkey
      refine ⟨fun _ hnot => ?_, fun _ => rfl⟩
      obtain ⟨a, ha, hname⟩ := any_eq_true.mp hkey
      obtain ⟨ks, hks, rfl⟩ := mem_map.mp ha
      exact absurd (beq_iff_eq.mp hname) (hnot ks hks)
    · rename_i hkey
      rw [check_then_eq_ok, mapError_eq_ok, checkName_eq_ok, walk_eq_ok]
      refine ⟨fun h _ => h, fun h => h fun ks hks hname => hkey ?_⟩
      exact any_eq_true.mpr ⟨_, mem_map.mpr ⟨ks, hks, rfl⟩, beq_iff_eq.mpr hname⟩
  have hnodup : (item.map Prod.fst).Nodup :=
    pairwise_map.mpr (hitem.imp fun hlt => hlt.ne)
  have hsize : validateItemSize item limits.maxItemSizeBytes = .ok () ↔
      itemSizeBytes item ≤ limits.maxItemSizeBytes := by
    rw [validateItemSize]
    simp
  have hrestore : validateRestorableItem (.ofConfig limits) item
      ⟨keyInfo.keySchema.map fun ks => ⟨ks.attributeName, ty ks, ks.keyType⟩⟩ = .ok () ↔
      ((∀ ks ∈ keyInfo.keySchema, ks.attributeName.utf8ByteSize ≤ limits.maxAttributeNameBytes) ∧
        (validateItemKeys item keyInfo.keySchema keyInfo.attributeDefinitions = .ok () ∧
          validateKeySizes item keyInfo.keySchema limits = .ok ())) ∧
      (∀ e ∈ item, (∀ ks ∈ keyInfo.keySchema, ks.attributeName ≠ e.1) →
        e.1.utf8ByteSize ≤ limits.maxAttributeNameBytes ∧ ValueAdmitted limits 0 e.2) ∧
      itemSizeBytes item ≤ limits.maxItemSizeBytes := by
    rw [validateRestorableItem, mapError_eq_ok, check_then_eq_ok, check_then_eq_ok, forM_eq_ok,
      forM_eq_ok, forall_mem_map]
    simp only [mapError_eq_ok]
    rw [hkeys, forall₂_congr fun e _ => hother e]
    refine and_congr_right fun _ => and_congr_right fun _ => ?_
    simp [RestorableLimits.ofConfig]
  rw [hrestore, validatePutItem, check_then_eq_ok, check_then_eq_ok, check_then_eq_ok,
    check_then_eq_ok, validateAttributeNameSizes_eq_ok, hsize]
  constructor
  · rintro ⟨⟨hnames, hitemKeys, hkeySizes⟩, hothers, hitemSize⟩
    -- every entry is under a key attribute, which was checked, or was walked
    have hentries : ∀ e ∈ item, e.1.utf8ByteSize ≤ limits.maxAttributeNameBytes ∧
        ValueAdmitted limits 0 e.2 := by
      intro e he
      by_cases hkey : ∃ ks ∈ keyInfo.keySchema, ks.attributeName = e.1
      · obtain ⟨ks, hks, hname⟩ := hkey
        have hget : get? item ks.attributeName = some e.2 :=
          hname ▸ get?_eq_of_mem hnodup he
        obtain ⟨value, hvalue, htype, -⟩ := keyChecks_eq_ok.mp ⟨hitemKeys, hkeySizes⟩ ks hks
        obtain rfl : e.2 = value := Option.some.inj (hget.symm.trans hvalue)
        have hmatches : (ty ks).matches e.2 = true := by
          rw [validateKeyAttributeType, hdeclared ks hks] at htype
          dsimp only at htype
          split at htype
          · assumption
          · cases htype
        exact ⟨hname ▸ hnames ks hks, valueAdmitted_of_matches hmatches
          fun n hn => hnormal ks hks n (hn ▸ hget)⟩
      · exact hothers e he fun ks hks hname => hkey ⟨ks, hks, hname⟩
    refine ⟨fun e he => ⟨(hentries e he).1, (hentries e he).2.names⟩, hitemKeys, ?_, ?_, hitemSize,
      hkeySizes⟩
    · exact validateEntryNumbers_eq_ok.mpr fun e he => (hentries e he).2.numbers
    · exact checkEntriesDepth_eq_ok.mpr fun e he => (hentries e he).2.depth
  · rintro ⟨hnames, hitemKeys, hnumbers, hdepth, hitemSize, hkeySizes⟩
    refine ⟨⟨fun ks hks => ?_, hitemKeys, hkeySizes⟩, fun e he _ => ?_, hitemSize⟩
    · obtain ⟨value, hvalue, -⟩ := keyChecks_eq_ok.mp ⟨hitemKeys, hkeySizes⟩ ks hks
      exact (hnames _ (mem_of_get? hvalue)).1
    · exact ⟨(hnames e he).1, validateEntryNumbers_eq_ok.mp hnumbers e he,
        checkEntriesDepth_eq_ok.mp hdepth e he, (hnames e he).2⟩

/-- The check accepts an item of a table with one key attribute, as PutItem does. -/
theorem validateRestorableItem_iff_put_single :
    ∃ key, RestorableKeySchema.resolve singleKeyTable.keySchema
        singleKeyTable.attributeDefinitions = .ok key ∧
      (validateRestorableItem (.ofConfig .default) [("pk", .s "a"), ("x", .n "1")] key = .ok () ↔
        validateAttributeNameSizes [("pk", .s "a"), ("x", .n "1")] .default .singleItem = .ok () ∧
          validatePutItem [("pk", .s "a"), ("x", .n "1")] .default singleKeyTable = .ok ()) := by
  refine validateRestorableItem_iff_put ?_ ?_ ?_
  · exact pairwise_cons.mpr
      ⟨by simp only [mem_singleton, forall_eq]; decide +kernel, pairwise_singleton ..⟩
  · decide
  intro ks hks n hn
  simp only [singleKeyTable, mem_singleton] at hks
  subst hks
  cases hn

end

end ExtendDb
