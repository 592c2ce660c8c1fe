import ExtendDb.Expression.UpdateEvaluator
import ExtendDb.Validation.Item

/-!
# The rows of the tables

What a storage engine does with a put, an update, a delete and a transaction.  A row is found by the
key attributes of its item.  Besides the rows, the store records every item handed to it for
writing.
-/

namespace ExtendDb

open Fallible List

abbrev Condition := Item → Result Bool

structure Store where
  rows : String → Item → Option Item
  /-- The items handed to the store, in order. -/
  upserted : List Item

def emptyStore : Store := ⟨fun _ _ => none, []⟩

/-- What the storage engine is configured with, and the code it calls that is not modelled here:
the crate for decimals, float parsing and the byte count of an update statement. -/
structure StorageConfig where
  bigDecimal : BigDecimalCrate
  floatText : FloatText
  maxItemSizeBytes : Nat
  updateStatementSize : List UpdateAction → ExpressionMaps → Item → Result Nat

namespace Store

def setRow (s : Store) (tableName : String) (key : Item) (row : Option Item) : Store :=
  { s with rows := fun t k => if t = tableName ∧ k = key then row else s.rows t k }

def fetchItem (s : Store) (keyInfo : TableKeyInfo) (key : Item) : Option Item :=
  s.rows keyInfo.tableName (extractKey key keyInfo.keySchema)

def upsertItem (s : Store) (keyInfo : TableKeyInfo) (item : Item) : Store :=
  { s.setRow keyInfo.tableName (extractKey item keyInfo.keySchema) (some item) with
    upserted := s.upserted ++ [item] }

def removeItem (s : Store) (keyInfo : TableKeyInfo) (key : Item) : Store :=
  s.setRow keyInfo.tableName (extractKey key keyInfo.keySchema) none

end Store

def checkCondition (condition : Option Condition) (existing : Option Item) : Result Unit :=
  match condition with
  | none => .ok ()
  | some cond => do
    if ← cond (existing.getD []) then pure ()
    else throw (.conditionalCheckFailedException "The conditional request failed")

def vectorSnapshot (item : Item) (vectorIndexes : List VectorIndexKeyInfo) : Item :=
  (vectorIndexes.flatMap fun index =>
    index.vectorAttributeName :: index.searchSchema.map (·.attributeName)).foldl (fun before name =>
        match OrdMap.get? item name with
        | some value => OrdMap.insert before name value
        | none => before) []

def applyUpdateValidated (cfg : StorageConfig) (actions : List UpdateAction) (item : Item)
    (maps : ExpressionMaps) (keyInfo : TableKeyInfo) : Result Item := do
  let item' ← applyUpdate cfg.bigDecimal maps actions item
  validateVectorWriteChanged cfg.floatText item' (vectorSnapshot item keyInfo.vectorIndexes)
    keyInfo.vectorIndexes keyInfo.attributeDefinitions
  pure item'

def itemSizeToUpdateExceeded : DynamoDbError :=
  .validationException "Item size to update has exceeded the maximum allowed size"

def validateUpdateItemSize (cfg : StorageConfig) (finished : Item) (actions : List UpdateAction)
    (maps : ExpressionMaps) : Result Unit := do
  let statement ← cfg.updateStatementSize actions maps finished
  if statement > cfg.maxItemSizeBytes ∨ itemSizeBytes finished > cfg.maxItemSizeBytes then
    throw itemSizeToUpdateExceeded

def validateTransactUpdateItemSize (cfg : StorageConfig) (finished : Item) : Result Unit :=
  if itemSizeBytes finished > cfg.maxItemSizeBytes then .error itemSizeToUpdateExceeded else .ok ()

section

variable (cfg : StorageConfig)

def putItem (s : Store) (keyInfo : TableKeyInfo) (item : Item) (condition : Option Condition) :
    Result Store := do
  checkCondition condition (s.fetchItem keyInfo item)
  pure (s.upsertItem keyInfo item)

def deleteItem (s : Store) (keyInfo : TableKeyInfo) (key : Item) (condition : Option Condition) :
    Result Store := do
  checkCondition condition (s.fetchItem keyInfo key)
  pure (s.removeItem keyInfo key)

def updateBase (s : Store) (keyInfo : TableKeyInfo) (key : Item) : Item :=
  (s.fetchItem keyInfo key).getD key

def updateItemWith (checkSize : Item → Result Unit) (s : Store) (keyInfo : TableKeyInfo)
    (key : Item) (actions : List UpdateAction) (maps : ExpressionMaps)
    (condition : Option Condition) : Result Store := do
  checkCondition condition (s.fetchItem keyInfo key)
  let item ← applyUpdateValidated cfg actions (updateBase s keyInfo key) maps keyInfo
  checkSize item
  if (s.fetchItem keyInfo key).isNone && removesOnly actions then pure s
  else pure (s.upsertItem keyInfo item)

def updateItem (s : Store) (keyInfo : TableKeyInfo) (key : Item) (actions : List UpdateAction)
    (maps : ExpressionMaps) (condition : Option Condition) : Result Store :=
  updateItemWith cfg (fun item => validateUpdateItemSize cfg item actions maps) s keyInfo key actions
    maps condition

/-! ## Transactions -/

inductive TransactWriteOp where
  | put (keyInfo : TableKeyInfo) (item : Item) (condition : Option Condition)
  | delete (keyInfo : TableKeyInfo) (key : Item) (condition : Option Condition)
  | update (keyInfo : TableKeyInfo) (key : Item) (actions : List UpdateAction)
      (maps : ExpressionMaps) (condition : Option Condition)
  | conditionCheck (keyInfo : TableKeyInfo) (key : Item) (condition : Condition)

def transactOpKeyChecks : TransactWriteOp → Result Unit
  | .put keyInfo item _ => validateItemKeys item keyInfo.keySchema keyInfo.attributeDefinitions
  | .delete keyInfo key _ | .update keyInfo key _ _ _ | .conditionCheck keyInfo key _ =>
    validateBatchKeyOnly key keyInfo.keySchema keyInfo.attributeDefinitions

def executeTransactWriteOp (s : Store) : TransactWriteOp → Result Store
  | .put keyInfo item condition => putItem s keyInfo item condition
  | .delete keyInfo key condition => deleteItem s keyInfo key condition
  | .update keyInfo key actions maps condition =>
    updateItemWith cfg (validateTransactUpdateItemSize cfg) s keyInfo key actions maps condition
  | .conditionCheck keyInfo key condition => do
    checkCondition (some condition) (s.fetchItem keyInfo key)
    pure s

/-- The reason a member's failure gives. -/
def cancellationReason : DynamoDbError → CancellationReason
  | .conditionalCheckFailedException _ => .conditionCheckFailed
  | e => .validationError e.message

def firstFault : List (Result Unit) → List CancellationReason
  | [] => []
  | .ok _ :: rest => .none :: firstFault rest
  | .error e :: rest => .validationError e.message :: rest.map fun _ => .none

/-- The members one after another on the transaction's view of the rows, with a reason each.  A
failed member leaves the view as it was. -/
def executeAll : List TransactWriteOp → Store → List CancellationReason × Store
  | [], s => ([], s)
  | op :: ops, s =>
    match executeTransactWriteOp cfg s op with
    | .ok s' => let r := executeAll ops s'; (.none :: r.1, r.2)
    | .error e => let r := executeAll ops s; (cancellationReason e :: r.1, r.2)

def transactWriteItems (s : Store) (ops : List TransactWriteOp) : Result Store :=
  let keyChecks := ops.map transactOpKeyChecks
  if keyChecks.any (fun r => !r.isOk) then
    .error (transactionCanceledErr (firstFault keyChecks))
  else
    let r := executeAll cfg ops s
    if r.1.any (· != .none) then .error (transactionCanceledErr r.1) else .ok r.2

end

/-! ## Properties of all items

Deletes and condition checks keep them; puts and updates do when the item they write has them. -/

structure Store.All (P : Item → Prop) (s : Store) : Prop where
  rows : ∀ t k item, s.rows t k = some item → P item
  upserted : ∀ item ∈ s.upserted, P item

variable {P : Item → Prop} {s s' : Store}

theorem Store.All.setRow (h : s.All P) (t k) {row} (hrow : ∀ item, row = some item → P item) :
    (s.setRow t k row).All P where
  rows t' k' item hitem := by
    have hrows : (if t' = t ∧ k' = k then row else s.rows t' k') = some item := hitem
    split at hrows
    · exact hrow item hrows
    · exact h.rows t' k' item hrows
  upserted := h.upserted

variable {item : Item}

theorem Store.All.upsertItem (h : s.All P) (keyInfo) (hitem : P item) :
    (s.upsertItem keyInfo item).All P where
  rows := by
    have hrow : ∀ new, some item = some new → P new := by
      rintro new ⟨⟩
      exact hitem
    exact (h.setRow _ _ hrow).rows
  upserted new hnew := by
    rcases mem_append.mp hnew with hold | hlast
    · exact h.upserted new hold
    · rw [mem_singleton.mp hlast]
      exact hitem

theorem Store.All.removeItem (h : s.All P) (keyInfo key) : (s.removeItem keyInfo key).All P :=
  h.setRow _ _ fun _ heq => by cases heq

variable {key : Item} {keyInfo : TableKeyInfo}

theorem Store.All.updateBase (h : s.All P)
    (hkey : s.fetchItem keyInfo key = none → P key) : P (updateBase s keyInfo key) := by
  unfold ExtendDb.updateBase
  cases hfetch : s.fetchItem keyInfo key with
  | none => exact hkey hfetch
  | some item => exact h.rows _ _ _ hfetch

structure Store.Extends (s s' : Store) : Prop where
  upserted : s.upserted ⊆ s'.upserted
  rows : ∀ t k item, s'.rows t k = some item → s.rows t k = some item ∨ item ∈ s'.upserted

theorem Store.Extends.refl (s : Store) : s.Extends s := ⟨List.Subset.refl _, fun _ _ _ h => .inl h⟩

theorem Store.Extends.trans {s₁ s₂ s₃ : Store} (h : s₁.Extends s₂) (h' : s₂.Extends s₃) :
    s₁.Extends s₃ where
  upserted := List.Subset.trans h.upserted h'.upserted
  rows t k item hitem := by
    rcases h'.rows t k item hitem with hrow | hnew
    · exact (h.rows t k item hrow).imp_right fun hmem => h'.upserted hmem
    · exact .inr hnew

theorem Store.extends_upsertItem (s : Store) (keyInfo item) :
    s.Extends (s.upsertItem keyInfo item) where
  upserted := subset_append_left _ _
  rows t k row hrow := by
    change (if _ then some item else s.rows t k) = some row at hrow
    split at hrow
    · cases hrow
      exact .inr (mem_append_right _ (mem_singleton_self _))
    · exact .inl hrow

theorem Store.extends_removeItem (s : Store) (keyInfo key) :
    s.Extends (s.removeItem keyInfo key) where
  upserted := List.Subset.refl _
  rows t k row hrow := by
    change (if _ then none else s.rows t k) = some row at hrow
    split at hrow
    · cases hrow
    · exact .inl hrow

theorem Store.All.of_extends {s₁ s₂ s₃ : Store} (h₁ : s₁.All P) (h : s₁.Extends s₂)
    (h' : s₂.Extends s₃) (h₃ : s₃.All P) : s₂.All P := by
  have hupserted : ∀ item ∈ s₂.upserted, P item := fun item hitem =>
    h₃.upserted item (h'.upserted hitem)
  refine ⟨fun t k item hitem => ?_, hupserted⟩
  rcases h.rows t k item hitem with hrow | hnew
  · exact h₁.rows t k item hrow
  · exact hupserted item hnew

theorem Store.upsertItem_all_iff (hs : s.All P) : (s.upsertItem keyInfo item).All P ↔ P item :=
  ⟨fun h => h.upserted item (mem_append_right _ (mem_singleton_self _)),
    fun h => hs.upsertItem keyInfo h⟩

variable {condition : Option Condition}

theorem putItem_all
    (hs : s.All P) (hitem : P item) (h : putItem s keyInfo item condition = .ok s') : s'.All P := by
  replace h := ok_of_check h
  cases h
  exact hs.upsertItem keyInfo hitem

theorem deleteItem_all
    (hs : s.All P) (h : deleteItem s keyInfo key condition = .ok s') : s'.All P := by
  replace h := ok_of_check h
  cases h
  exact hs.removeItem keyInfo key

variable {cfg : StorageConfig} {actions : List UpdateAction} {maps : ExpressionMaps}

theorem applyUpdateValidated_ok {item'}
    (h : applyUpdateValidated cfg actions item maps keyInfo = .ok item') :
    applyUpdate cfg.bigDecimal maps actions item = .ok item' := by
  obtain ⟨new, hnew, h⟩ := unbind h
  replace h := ok_of_check h
  cases h
  exact hnew

variable {checkSize : Item → Result Unit}

/-- An accepted update has stored the item it computed, unless it only removes from an item that is
not there. -/
theorem updateItemWith_ok
    (h : updateItemWith cfg checkSize s keyInfo key actions maps condition = .ok s') :
    ∃ item', applyUpdate cfg.bigDecimal maps actions (updateBase s keyInfo key) = .ok item' ∧
      s' = if (s.fetchItem keyInfo key).isNone && removesOnly actions then s
        else s.upsertItem keyInfo item' := by
  replace h := ok_of_check h
  obtain ⟨item', hitem', h⟩ := unbind h
  replace h := ok_of_check h
  refine ⟨item', applyUpdateValidated_ok hitem', ?_⟩
  split at h
  · rename_i hnone
    cases h
    rw [if_pos hnone]
  · rename_i hsome
    cases h
    rw [if_neg hsome]

theorem updateItemWith_all (hs : s.All P)
    (hupdate : ∀ item', applyUpdate cfg.bigDecimal maps actions (updateBase s keyInfo key) =
      .ok item' → P item')
    (h : updateItemWith cfg checkSize s keyInfo key actions maps condition = .ok s') :
    s'.All P := by
  obtain ⟨item', hitem', rfl⟩ := updateItemWith_ok h
  split
  · exact hs
  · exact hs.upsertItem keyInfo (hupdate item' hitem')

/-! ## Transactions -/

def TransactWriteOp.Writes (cfg : StorageConfig) (P : Item → Prop) (s : Store) :
    TransactWriteOp → Prop
  | .put _ item _ => P item
  | .update keyInfo key actions maps _ => ∀ item',
      applyUpdate cfg.bigDecimal maps actions (updateBase s keyInfo key) = .ok item' → P item'
  | .delete _ _ _ | .conditionCheck _ _ _ => True

variable {op : TransactWriteOp}

theorem executeTransactWriteOp_all (hs : s.All P)
    (hwrites : op.Writes cfg P s) (h : executeTransactWriteOp cfg s op = .ok s') : s'.All P := by
  cases op with
  | put keyInfo item condition => exact putItem_all hs hwrites h
  | delete keyInfo key condition => exact deleteItem_all hs h
  | update keyInfo key actions maps condition => exact updateItemWith_all hs hwrites h
  | conditionCheck keyInfo key condition =>
    replace h := ok_of_check h
    cases h
    exact hs

theorem executeTransactWriteOp_extends
    (h : executeTransactWriteOp cfg s op = .ok s') : s.Extends s' := by
  cases op with
  | put keyInfo item condition =>
    replace h := ok_of_check h
    cases h
    exact s.extends_upsertItem keyInfo item
  | delete keyInfo key condition =>
    replace h := ok_of_check h
    cases h
    exact s.extends_removeItem keyInfo key
  | update keyInfo key actions maps condition =>
    obtain ⟨item', -, rfl⟩ := updateItemWith_ok h
    split
    · exact .refl s
    · exact s.extends_upsertItem keyInfo item'
  | conditionCheck keyInfo key condition =>
    replace h := ok_of_check h
    cases h
    exact .refl s

variable {ops : List TransactWriteOp}

theorem foldlM_executeTransactWriteOp_extends
    (h : ops.foldlM (executeTransactWriteOp cfg) s = .ok s') : s.Extends s' :=
  foldlM_invariant (s.Extends ·) (fun _ _ _ _ hext hop =>
    hext.trans (executeTransactWriteOp_extends hop)) (.refl s) h

theorem cancellationReason_ne_none (e) : cancellationReason e ≠ .none := by
  cases e <;> simp [cancellationReason, CancellationReason.none,
    CancellationReason.conditionCheckFailed, CancellationReason.validationError]

theorem executeAll_ok (h : (executeAll cfg ops s).1.any (· != .none) = false) :
    ops.foldlM (executeTransactWriteOp cfg) s = .ok (executeAll cfg ops s).2 := by
  induction ops generalizing s with
  | nil => rfl
  | cons op ops ih =>
    rw [foldlM_cons]
    rw [executeAll] at h ⊢
    cases hop : executeTransactWriteOp cfg s op with
    | ok s₁ =>
      rw [hop] at h
      exact ih h
    | error e =>
      rw [hop] at h
      simp [cancellationReason_ne_none] at h

theorem transactWriteItems_ok (h : transactWriteItems cfg s ops = .ok s') :
    (∀ op ∈ ops, transactOpKeyChecks op = .ok ()) ∧
      ops.foldlM (executeTransactWriteOp cfg) s = .ok s' := by
  simp only [transactWriteItems] at h
  split at h
  · cases h
  rename_i hchecks
  split at h
  · cases h
  rename_i hnone
  cases h
  refine ⟨fun op hop => ?_, executeAll_ok (Bool.not_eq_true _ ▸ hnone)⟩
  cases hcheck : transactOpKeyChecks op with
  | ok _ => rfl
  | error e =>
    refine absurd (any_eq_true.mpr ⟨.error e, ?_, rfl⟩) hchecks
    exact mem_map.mpr ⟨op, hop, hcheck⟩

/-- An accepted transaction keeps the property when every member, on the rows it finds, writes an
item that has it. -/
theorem transactWriteItems_all (hs : s.All P)
    (hwrites : RunSatisfies (executeTransactWriteOp cfg) (fun t op => op.Writes cfg P t) ops s)
    (h : transactWriteItems cfg s ops = .ok s') : s'.All P :=
  foldlM_invariant_of_run (Store.All P) (fun _ _ _ ht hw hop => executeTransactWriteOp_all ht hw hop)
    hwrites hs (transactWriteItems_ok h).2

end ExtendDb
