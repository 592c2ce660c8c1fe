import ExtendDb.Engine.NestingDepth
import Mathlib.Data.List.Sort

/-!
# ImportTable

The loop over the items of an import file.  An item that fails one of the listed checks is counted
and skipped; the listed checks are those of PutItem without the one of the numbers.
-/

namespace ExtendDb

/-! ## Index keys -/

structure IndexKeyRef where
  indexName : String
  keySchema : List KeySchemaElement

def orderedIndexes (indexes : List IndexKeyRef) : List IndexKeyRef :=
  indexes.insertionSort fun a b => a.indexName ≤ b.indexName

def checkIndexKeys (fault : IndexKeyRef → String → AttributeValue → Option String) (item : Item)
    (indexes : List IndexKeyRef) : Result Unit :=
  (orderedIndexes indexes).forM fun idx => idx.keySchema.forM fun ks =>
    match (OrdMap.get? item ks.attributeName).bind (fault idx ks.attributeName) with
    | some msg => .error (.validationException msg)
    | none => .ok ()

def validateIndexKeyTypes (item : Item) (indexes : List IndexKeyRef)
    (attrDefs : List AttributeDefinition) : Result Unit :=
  checkIndexKeys (fun idx name value =>
    match declaredType attrDefs name with
    | some expected =>
      if expected.matches value then none
      else some ("One or more parameter values were invalid: Type mismatch for Index Key " ++ name ++
        " Expected: " ++ expected.typeTag ++ " Actual: " ++ value.typeTag ++ " IndexName: " ++
        idx.indexName)
    | none => none) item indexes

def validateIndexKeyNotEmpty (item : Item) (indexes : List IndexKeyRef) : Result Unit :=
  checkIndexKeys (fun idx name value => (emptyKeyKind value).map fun kind =>
    "One or more parameter values are not valid. A value specified for a secondary index key is " ++
      "not supported. The AttributeValue for a key attribute cannot contain an empty " ++ kind ++
      " value. IndexName: " ++ idx.indexName ++ ", IndexKey: " ++ name) item indexes

def validateIndexKeys (item : Item) (indexes : List IndexKeyRef)
    (attrDefs : List AttributeDefinition) : Result Unit := do
  validateIndexKeyTypes item indexes attrDefs
  validateIndexKeyNotEmpty item indexes

/-! ## The import -/

structure ImportTarget where
  keyInfo : TableKeyInfo
  indexes : List IndexKeyRef

def ImportTarget.putItem (target : ImportTarget) (s : Store) (item : Item) : Result Store := do
  validateIndexKeys item target.indexes target.keyInfo.attributeDefinitions
  ExtendDb.putItem s target.keyInfo item none

structure ImportProgress where
  store : Store
  importedCount : ℕ
  errorCount : ℕ

def importChecks (limits : LimitsConfig) (keyInfo : TableKeyInfo) (item : Item) : Result Unit := do
  validateItemKeys item keyInfo.keySchema keyInfo.attributeDefinitions
  validateItemNestingDepth item
  validateItemSize item limits.maxItemSizeBytes
  validateAttributeNameSizes item limits .singleItem
  validateKeySizes item keyInfo.keySchema limits

section

variable (limits : LimitsConfig) (target : ImportTarget)

def importItems : List Item → ImportProgress → Result ImportProgress
  | [], progress => .ok progress
  | item :: items, progress =>
    match importChecks limits target.keyInfo item with
    | .error _ => importItems items { progress with errorCount := progress.errorCount + 1 }
    | .ok () => do
      let store ← target.putItem progress.store item
      importItems items ⟨store, progress.importedCount + 1, progress.errorCount⟩

/-- The import of the items of a file, with the count of the items processed. -/
def handleImportTable (maxImportItemCount : ℕ) (items : List Item) (s : Store) :
    Result (ImportProgress × ℕ) :=
  if maxImportItemCount < items.length then
    .error (.validationException
      ("Import item count exceeds maximum (" ++ toString maxImportItemCount ++ ")"))
  else do
    let progress ← importItems limits target items ⟨s, 0, 0⟩
    pure (progress, items.length)

end

/-! ## PutItem of every item -/

section

variable (cfg : EngineConfig) (target : ImportTarget)

def putItemRequest (s : Store) (item : Item) : Result Store := do
  let s' ← handlePutItem cfg ⟨target.keyInfo.tableName, item, [], none, .ok ()⟩ s
  validateIndexKeys item target.indexes target.keyInfo.attributeDefinitions
  pure s'

/-- A PutItem request for one item after another. -/
def putEach : List Item → ImportProgress → ImportProgress
  | [], progress => progress
  | item :: items, progress =>
    match putItemRequest cfg target progress.store item with
    | .ok store => putEach items ⟨store, progress.importedCount + 1, progress.errorCount⟩
    | .error _ => putEach items { progress with errorCount := progress.errorCount + 1 }

end

section

open Fallible

variable {cfg : EngineConfig} {target : ImportTarget} {item : Item} {s : Store}

/-- What the import does not check itself. -/
def ImportTarget.Admits (target : ImportTarget) (item : Item) : Prop :=
  validateItemNumbers item = .ok () ∧
    validateIndexKeys item target.indexes target.keyInfo.attributeDefinitions = .ok ()

variable (hkeyInfo : cfg.tableKeyInfo target.keyInfo.tableName = .ok target.keyInfo)
include hkeyInfo

theorem putItemRequest_eq_ok (hvector : target.keyInfo.vectorIndexes = []) {s'} :
    putItemRequest cfg target s item = .ok s' ↔
      importChecks cfg.limits target.keyInfo item = .ok () ∧ target.Admits item ∧
        s.upsertItem target.keyInfo item = s' := by
  have hvectors : validateVectorWrite cfg.storage.floatText item target.keyInfo.vectorIndexes
      target.keyInfo.attributeDefinitions = .ok () := by
    rw [hvector]
    rfl
  have hput : putItem s target.keyInfo item none = .ok (s.upsertItem target.keyInfo item) := rfl
  have hvalues : validateAttributeValuesNestingDepth [] = .ok () := rfl
  rw [putItemRequest, bind_eq_ok]
  simp only [handlePutItem, validatePutItem, importChecks, hkeyInfo, ok_bind, check_then_eq_ok,
    hvectors, hput, hvalues, List.map_nil, pure_eq_ok, Except.ok.injEq]
  constructor
  · rintro ⟨_, ⟨hnames, ⟨hkeys, hnumbers, hdepth, hsize, hkeySizes⟩, rfl⟩, hindex, rfl⟩
    exact ⟨⟨hkeys, hdepth, hsize, hnames, hkeySizes⟩, ⟨hnumbers, hindex⟩, rfl⟩
  · rintro ⟨⟨hkeys, hdepth, hsize, hnames, hkeySizes⟩, ⟨hnumbers, hindex⟩, rfl⟩
    exact ⟨_, ⟨hnames, ⟨hkeys, hnumbers, hdepth, hsize, hkeySizes⟩, rfl⟩, hindex, rfl⟩

/-- The loop does with every item what a PutItem request for it does. -/
theorem importItems_eq (hvector : target.keyInfo.vectorIndexes = []) (items)
    (hadmits : ∀ item ∈ items, importChecks cfg.limits target.keyInfo item = .ok () →
      target.Admits item) (progress) :
    importItems cfg.limits target items progress = .ok (putEach cfg target items progress) := by
  induction items generalizing progress with
  | nil => rfl
  | cons item items ih =>
    have hlater := ih fun item hitem => hadmits item (.tail _ hitem)
    have hrequest (s' : Store) : putItemRequest cfg target progress.store item = .ok s' ↔ _ :=
      putItemRequest_eq_ok hkeyInfo hvector
    rw [importItems, putEach]
    cases hchecks : importChecks cfg.limits target.keyInfo item with
    | error e =>
      cases hput : putItemRequest cfg target progress.store item with
      | ok s' => cases hchecks.symm.trans ((hrequest s').mp hput).1
      | error e' => exact hlater _
    | ok _ =>
      have haccepted := hadmits item (.head _) hchecks
      rw [(hrequest _).mpr ⟨hchecks, haccepted, rfl⟩, ImportTarget.putItem, haccepted.2]
      exact hlater _

/-- The import counts at least the items that the requests count, and more once it has stored one
that a request refuses. -/
theorem importItems_count (hvector : target.keyInfo.vectorIndexes = []) {items p P}
    (hrun : importItems cfg.limits target items p = .ok P) {q : ImportProgress}
    (hle : q.importedCount ≤ p.importedCount) :
    (putEach cfg target items q).importedCount ≤ P.importedCount ∧
    ((putEach cfg target items q).importedCount = P.importedCount →
      q.importedCount = p.importedCount ∧ ∀ item ∈ items,
        importChecks cfg.limits target.keyInfo item = .ok () → target.Admits item) := by
  induction items generalizing p q with
  | nil =>
    cases hrun
    exact ⟨hle, fun heq => ⟨heq, fun _ hitem => absurd hitem List.not_mem_nil⟩⟩
  | cons item items ih =>
    have hrequest (s' : Store) : putItemRequest cfg target q.store item = .ok s' ↔ _ :=
      putItemRequest_eq_ok hkeyInfo hvector
    rw [importItems] at hrun
    rw [putEach, List.forall_mem_cons]
    cases hchecks : importChecks cfg.limits target.keyInfo item with
    | error e =>
      rw [hchecks] at hrun
      cases hput : putItemRequest cfg target q.store item with
      | ok s' => cases hchecks.symm.trans ((hrequest s').mp hput).1
      | error e' =>
        obtain ⟨hcount, heq⟩ := ih hrun (q := { q with errorCount := q.errorCount + 1 }) hle
        exact ⟨hcount, fun h => ⟨(heq h).1, nofun, (heq h).2⟩⟩
    | ok _ =>
      rw [hchecks] at hrun
      obtain ⟨store, -, hrun⟩ := unbind hrun
      cases hput : putItemRequest cfg target q.store item with
      | ok s' =>
        obtain ⟨hcount, heq⟩ := ih hrun (q := ⟨s', q.importedCount + 1, q.errorCount⟩)
          (Nat.succ_le_succ hle)
        exact ⟨hcount, fun h => ⟨Nat.succ.inj (heq h).1, fun _ => ((hrequest s').mp hput).2.1,
          (heq h).2⟩⟩
      | error e' =>
        obtain ⟨hcount, heq⟩ := ih hrun (q := { q with errorCount := q.errorCount + 1 })
          (Nat.le_succ_of_le hle)
        exact ⟨hcount, fun h => absurd (heq h).1 (Nat.ne_of_lt (Nat.lt_succ_of_le hle))⟩

end

theorem putEach_counts (cfg : EngineConfig) (target : ImportTarget) (items progress) :
    (putEach cfg target items progress).importedCount +
        (putEach cfg target items progress).errorCount =
      progress.importedCount + progress.errorCount + items.length := by
  induction items generalizing progress with
  | nil => rfl
  | cons item items ih =>
    rw [putEach, List.length_cons]
    split <;> rw [ih] <;> simp only <;> omega

def importedTable : ImportTarget where
  keyInfo := { singleKeyTable with attributeDefinitions := [⟨"pk", .s⟩, ⟨"color", .s⟩] }
  indexes := [⟨"byColor", [⟨"color", .hash⟩]⟩]

def importingEngine : EngineConfig :=
  { singleTableEngine with tableKeyInfo := fun _ => .ok importedTable.keyInfo }

end ExtendDb
