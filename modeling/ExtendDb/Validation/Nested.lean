import ExtendDb.Validation.Item

/-!
# Checks at every depth of a value

Numbers, nesting depth and attribute-name sizes are checked through lists and maps.
-/

namespace ExtendDb

/-! ## Numbers -/

mutual

def validateAttributeNumber : AttributeValue → Result Unit
  | .n v => do
    let _ ← validateAndNormalizeNumber v
    .ok ()
  | .ns vs => vs.forM fun v => do
    let _ ← validateAndNormalizeNumber v
    .ok ()
  | .l vs => validateListNumbers vs
  | .m es => validateEntryNumbers es
  | _ => .ok ()

def validateListNumbers : List AttributeValue → Result Unit
  | [] => .ok ()
  | v :: vs => do
    validateAttributeNumber v
    validateListNumbers vs

def validateEntryNumbers : List (String × AttributeValue) → Result Unit
  | [] => .ok ()
  | (_, v) :: es => do
    validateAttributeNumber v
    validateEntryNumbers es

end

def validateItemNumbers (item : Item) : Result Unit := validateEntryNumbers item

/-! ## Nesting depth -/

/-- The largest number of levels, the leaf included. -/
def maxItemNestingDepth : Nat := 32

def nestingDepthError : DynamoDbError :=
  .validationException
    ("Nesting Levels have exceeded supported limits: Attributes in the item have nested levels " ++
      "beyond supported limit")

mutual

def checkAttributeValueDepth : AttributeValue → Nat → Result Unit
  | .m es, currentDepth =>
    if currentDepth + 1 ≥ maxItemNestingDepth then .error nestingDepthError
    else checkEntriesDepth es (currentDepth + 1)
  | .l vs, currentDepth =>
    if currentDepth + 1 ≥ maxItemNestingDepth then .error nestingDepthError
    else checkListDepth vs (currentDepth + 1)
  | _, _ => .ok ()

def checkListDepth : List AttributeValue → Nat → Result Unit
  | [], _ => .ok ()
  | v :: vs, depth => do
    checkAttributeValueDepth v depth
    checkListDepth vs depth

def checkEntriesDepth : List (String × AttributeValue) → Nat → Result Unit
  | [], _ => .ok ()
  | (_, v) :: es, depth => do
    checkAttributeValueDepth v depth
    checkEntriesDepth es depth

end

def validateItemNestingDepth (item : Item) : Result Unit := checkEntriesDepth item 0

def validateAttributeValuesNestingDepth (values : List AttributeValue) : Result Unit :=
  checkListDepth values 0

/-! ## Attribute-name sizes -/

inductive AttributeNameRequestForm where
  | singleItem
  | transactionMember
  | batchRequest
deriving DecidableEq

def attributeNameTooLarge (limits : LimitsConfig) (form : AttributeNameRequestForm) : String :=
  let sentence := "Attribute name is too large, must be less than " ++
    toString (limits.maxAttributeNameBytes + 1) ++ " bytes"
  match form with
  | .singleItem => "1 validation error detected: " ++ sentence
  | .transactionMember | .batchRequest => sentence

mutual

/-- A map key inside the value, at any depth, exceeds the limit. -/
def nestedAttributeNameTooLarge : AttributeValue → LimitsConfig → Bool
  | .m es, limits => entryNameTooLarge es limits
  | .l vs, limits => listNameTooLarge vs limits
  | _, _ => false

def listNameTooLarge : List AttributeValue → LimitsConfig → Bool
  | [], _ => false
  | v :: vs, limits => nestedAttributeNameTooLarge v limits || listNameTooLarge vs limits

def entryNameTooLarge : List (String × AttributeValue) → LimitsConfig → Bool
  | [], _ => false
  | (name, v) :: es, limits =>
    decide (name.utf8ByteSize > limits.maxAttributeNameBytes) ||
      nestedAttributeNameTooLarge v limits || entryNameTooLarge es limits

end

def checkAttributeNameSize (name : String) (limits : LimitsConfig)
    (form : AttributeNameRequestForm) : Result Unit :=
  if name.utf8ByteSize > limits.maxAttributeNameBytes then
    .error (.validationException (attributeNameTooLarge limits form))
  else
    .ok ()

def checkNestedAttributeNameSizes (value : AttributeValue) (limits : LimitsConfig)
    (form : AttributeNameRequestForm) : Result Unit :=
  if nestedAttributeNameTooLarge value limits then
    .error (.validationException (attributeNameTooLarge limits form))
  else
    .ok ()

def validateAttributeNameSizes (item : Item) (limits : LimitsConfig)
    (form : AttributeNameRequestForm) : Result Unit :=
  item.forM fun e => do
    checkAttributeNameSize e.1 limits form
    checkNestedAttributeNameSizes e.2 limits form

/-! ## What the checks say -/

open Fallible AttributeValue

variable {vs : List AttributeValue}

theorem validateListNumbers_eq_ok :
    validateListNumbers vs = .ok () ↔ ∀ v ∈ vs, validateAttributeNumber v = .ok () := by
  induction vs with
  | nil => simp [validateListNumbers]
  | cons v vs ih => rw [validateListNumbers, check_then_eq_ok, ih, List.forall_mem_cons]

variable {es : List (String × AttributeValue)}

theorem validateEntryNumbers_eq_ok :
    validateEntryNumbers es = .ok () ↔ ∀ e ∈ es, validateAttributeNumber e.2 = .ok () := by
  induction es with
  | nil => simp [validateEntryNumbers]
  | cons e es ih => rw [validateEntryNumbers, check_then_eq_ok, ih, List.forall_mem_cons]

private theorem discard_eq_ok {x : Result String} :
    (do let _ ← x; (.ok () : Result Unit)) = .ok () ↔ ∃ t, x = .ok t := by
  rw [bind_eq_ok]
  exact exists_congr fun t => and_iff_left rfl

variable {v : AttributeValue}

theorem validateAttributeNumber_eq_ok :
    validateAttributeNumber v = .ok () ↔ v.AllNumbers IsValidNumber := by
  induction v using nested_induction with
  | leaf v hl hm =>
    cases v with
    | l vs => exact absurd rfl (hl vs)
    | m es => exact absurd rfl (hm es)
    | n t => rw [validateAttributeNumber, discard_eq_ok, allNumbers_n]; rfl
    | ns ts =>
      rw [validateAttributeNumber, forM_eq_ok]
      exact forall₂_congr fun t _ => discard_eq_ok
    | _ => simp [validateAttributeNumber, AttributeValue.AllNumbers, numbers]
  | list vs ih =>
    rw [validateAttributeNumber, validateListNumbers_eq_ok, allNumbers_l]
    exact forall₂_congr ih
  | map es ih =>
    rw [validateAttributeNumber, validateEntryNumbers_eq_ok, allNumbers_m]
    exact forall₂_congr ih

theorem validateItemNumbers_eq_ok {item} :
    validateItemNumbers item = .ok () ↔ item.AllNumbers IsValidNumber := by
  rw [validateItemNumbers, validateEntryNumbers_eq_ok]
  exact forall₂_congr fun _ _ => validateAttributeNumber_eq_ok

mutual

def AttributeValue.depth : AttributeValue → Nat
  | .l vs => listDepth vs + 1
  | .m es => entriesDepth es + 1
  | _ => 0

def listDepth : List AttributeValue → Nat
  | [] => 0
  | v :: vs => max v.depth (listDepth vs)

def entriesDepth : List (String × AttributeValue) → Nat
  | [] => 0
  | (_, v) :: es => max v.depth (entriesDepth es)

end

theorem listDepth_le {k} : listDepth vs ≤ k ↔ ∀ v ∈ vs, v.depth ≤ k := by
  induction vs with
  | nil => simp [listDepth]
  | cons v vs ih => simp [listDepth, ih]

theorem entriesDepth_le {k} : entriesDepth es ≤ k ↔ ∀ e ∈ es, e.2.depth ≤ k := by
  induction es with
  | nil => simp [entriesDepth]
  | cons e es ih => simp [entriesDepth, ih]

variable {d : Nat}

theorem checkListDepth_eq_ok :
    checkListDepth vs d = .ok () ↔ ∀ v ∈ vs, checkAttributeValueDepth v d = .ok () := by
  induction vs with
  | nil => simp [checkListDepth]
  | cons v vs ih => rw [checkListDepth, check_then_eq_ok, ih, List.forall_mem_cons]

theorem checkEntriesDepth_eq_ok :
    checkEntriesDepth es d = .ok () ↔ ∀ e ∈ es, checkAttributeValueDepth e.2 d = .ok () := by
  induction es with
  | nil => simp [checkEntriesDepth]
  | cons e es ih => rw [checkEntriesDepth, check_then_eq_ok, ih, List.forall_mem_cons]

/-- From level `d` on, a value passes when its innermost container stays above the limit. -/
theorem checkAttributeValueDepth_eq_ok :
    checkAttributeValueDepth v d = .ok () ↔ v.depth = 0 ∨ d + v.depth < maxItemNestingDepth := by
  induction v using nested_induction generalizing d with
  | leaf v hl hm =>
    cases v with
    | l vs => exact absurd rfl (hl vs)
    | m es => exact absurd rfl (hm es)
    | _ => simp [checkAttributeValueDepth, depth]
  | list vs ih =>
    rw [checkAttributeValueDepth, depth]
    split
    · simp
      omega
    rw [checkListDepth_eq_ok, forall₂_congr fun v hv => ih v hv]
    have hle := @listDepth_le vs (maxItemNestingDepth - 1 - (d + 1))
    constructor
    · intro h
      have := hle.mpr fun v hv => by have := h v hv; omega
      omega
    · intro h v hv
      have := hle.mp (by omega) v hv
      omega
  | map es ih =>
    rw [checkAttributeValueDepth, depth]
    split
    · simp
      omega
    rw [checkEntriesDepth_eq_ok, forall₂_congr fun e he => ih e he]
    have hle := @entriesDepth_le es (maxItemNestingDepth - 1 - (d + 1))
    constructor
    · intro h
      have := hle.mpr fun e he => by have := h e he; omega
      omega
    · intro h e he
      have := hle.mp (by omega) e he
      omega

theorem validateItemNestingDepth_eq_ok {item} :
    validateItemNestingDepth item = .ok () ↔ ∀ e ∈ item, e.2.depth ≤ maxItemNestingDepth - 1 := by
  rw [validateItemNestingDepth, checkEntriesDepth_eq_ok]
  refine forall₂_congr fun e _ => ?_
  rw [checkAttributeValueDepth_eq_ok]
  omega

end ExtendDb
