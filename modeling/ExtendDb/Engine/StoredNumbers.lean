import ExtendDb.Engine.BatchWriteItem
import ExtendDb.Engine.NestingDepth

/-!
# Numbers handed to storage

A number that does not parse passes through deserialization as it is and has to be refused by the
operation.
-/

namespace ExtendDb

open Fallible Journal List OrdMap

abbrev Item.ValidNumbers (item : Item) : Prop := item.AllNumbers IsValidNumber

def applyStorageWrite (w : StorageWrite) (s : Store) : Result Unit × Store :=
  let outcome := match w with
    | .put keyInfo item => putItem s keyInfo item none
    | .delete keyInfo key => deleteItem s keyInfo key none
  match outcome with
  | .ok s' => (.ok (), s')
  | .error e => (.error e, s)

def EngineConfig.context (cfg : EngineConfig) : OperationContext Store where
  limits := cfg.limits
  floatText := cfg.storage.floatText
  tableKeyInfo := cfg.tableKeyInfo
  storage := applyStorageWrite

inductive ItemRequest where
  | write (op : WriteOperation)
  | batchWriteItem (requestItems : RequestItems)

def ItemRequest.handle (cfg : EngineConfig) (s : Store) : ItemRequest → Result Store
  | .write op => op.handle cfg s
  | .batchWriteItem requestItems =>
    match exec (handleBatchWriteItem cfg.context requestItems) ⟨s, []⟩ with
    | (.ok _, w) => .ok w.state
    | (.error (.rejected e), _) => .error e
    | (.error (.store e), _) => .error e

/-! ## What a request has to supply -/

def UpdateCreates (s : Store) (keyInfo : TableKeyInfo) (key : Item) (actions : List UpdateAction) :
    Prop :=
  s.fetchItem keyInfo key = none ∧ removesOnly actions = false

def TransactWriteOp.SuppliesValidNumbers (cfg : StorageConfig) (s : Store) : TransactWriteOp → Prop
  | .put _ item _ => item.ValidNumbers
  | .update keyInfo key actions maps _ =>
    (UpdateCreates s keyInfo key actions → key.ValidNumbers) ∧
      StatementStores cfg.bigDecimal maps IsValidNumber actions (updateBase s keyInfo key)
  | .delete _ _ _ | .conditionCheck _ _ _ => True

/-- The numbers that no check looks at are valid: those of the items a batch or a transaction puts,
of the values a transacted update stores, and of a key that an update makes a new item of. -/
def ItemRequest.SuppliesValidNumbers (cfg : EngineConfig) (s : Store) : ItemRequest → Prop
  | .write (.putItem _) => True
  | .write (.updateItem input) => ∀ actions maps keyInfo,
      input.update.effective = .ok (actions, maps) → cfg.tableKeyInfo input.tableName = .ok keyInfo →
      UpdateCreates s keyInfo input.key actions → input.key.ValidNumbers
  | .write (.transactWriteItems items) => ∀ ops, prepareAll cfg items = .ok ops →
      RunSatisfies (executeTransactWriteOp cfg.storage)
        (TransactWriteOp.SuppliesValidNumbers cfg.storage) ops s
  | .batchWriteItem requestItems => ∀ table ∈ requestItems, ∀ wr ∈ table.2, ∀ item,
      wr.putRequest = some item → item.ValidNumbers

def TransactWriteItem.SingleAction (twi : TransactWriteItem) : Prop :=
  match twi.operation with
  | .update _ _ actions _ _ => actions.length ≤ 1
  | _ => True

def ItemRequest.SingleActions : ItemRequest → Prop
  | .write (.transactWriteItems items) => ∀ twi ∈ items, twi.SingleAction
  | _ => True

def EngineConfig.DistinctKeyNames (cfg : EngineConfig) : Prop :=
  ∀ name keyInfo, cfg.tableKeyInfo name = .ok keyInfo →
    (keyInfo.keySchema.map (·.attributeName)).Nodup

variable {cfg : EngineConfig} {s s' : Store}

/-! ## Updates -/

variable {e : String × AttributeValue}

theorem validateKeyOnly_mem {key keySchema attrDefs}
    (h : validateKeyOnly key keySchema attrDefs = .ok ())
    (hnames : (keySchema.map (·.attributeName)).Nodup) (he : e ∈ key) :
    e.1 ∈ keySchema.map (·.attributeName) ∧ get? key e.1 = some e.2 := by
  rw [validateKeyOnly] at h
  split at h
  · cases h
  rename_i hlength
  rw [not_not] at hlength
  have hsub : keySchema.map (·.attributeName) ⊆ key.map Prod.fst := by
    intro name hname
    obtain ⟨ks, hks, rfl⟩ := mem_map.mp hname
    obtain ⟨v, hv, -⟩ := unbind (forM_eq_ok.mp h ks hks)
    have hget : get? key ks.attributeName = some v := by
      rw [requireKey] at hv
      split at hv
      · cases hv
        assumption
      · cases hv
    exact mem_map_of_mem (mem_of_get? hget)
  -- as many attributes as the schema, all of the schema among them
  have hperm : (keySchema.map (·.attributeName)).Perm (key.map Prod.fst) :=
    (subperm_of_subset hnames hsub).perm_of_length_le (by simp [hlength])
  exact ⟨hperm.mem_iff.mpr (mem_map_of_mem he), get?_eq_of_mem (hperm.nodup_iff.mp hnames) he⟩

variable {actions : List UpdateAction} {maps : ExpressionMaps} {keyInfo : TableKeyInfo}

theorem validateNoKeyUpdates_avoids (h : validateNoKeyUpdates actions keyInfo maps = .ok ()) {name}
    (hname : name ∈ keyInfo.keySchema.map (·.attributeName)) :
    ∀ a ∈ actions, Avoids maps name a.path := by
  rintro a ha first rest hpath hfirst
  have hcheck := forM_eq_ok.mp h a ha
  rw [hpath] at hcheck
  cases first with
  | index idx => cases hfirst
  | attr ref =>
    obtain ⟨resolved, hresolved, hcheck⟩ := unbind hcheck
    cases hfirst.symm.trans hresolved
    obtain ⟨ks, hks, rfl⟩ := mem_map.mp hname
    have := forM_eq_ok.mp hcheck ks hks
    rw [if_pos rfl] at this
    cases this

section

variable {checkSize : Item → Result Unit} {keyInfo : TableKeyInfo} {key : Item}
  {maps : ExpressionMaps} {condition : Option Condition}

/-- An update keeps the numbers of the store valid when the key it creates an item from has valid
numbers and what it stores does. -/
theorem updateItemWith_validNumbers (hs : s.All Item.ValidNumbers)
    (hkey : UpdateCreates s keyInfo key actions → key.ValidNumbers)
    (hstored : (updateBase s keyInfo key).ValidNumbers → ∀ item',
      applyUpdate cfg.storage.bigDecimal maps actions (updateBase s keyInfo key) = .ok item' →
      item'.ValidNumbers)
    (h : updateItemWith cfg.storage checkSize s keyInfo key actions maps condition = .ok s') :
    s'.All Item.ValidNumbers := by
  obtain ⟨item', hitem', rfl⟩ := updateItemWith_ok h
  split
  · exact hs
  · rename_i hwrites
    refine hs.upsertItem keyInfo (hstored (hs.updateBase fun hnone => hkey ⟨hnone, ?_⟩) item' hitem')
    simpa [hnone] using hwrites

theorem validNumbers_of_updateCreates (hnames : (keyInfo.keySchema.map (·.attributeName)).Nodup)
    (hkeyOnly : validateKeyOnly key keyInfo.keySchema keyInfo.attributeDefinitions = .ok ())
    (hactions : validateNoKeyUpdates actions keyInfo maps = .ok ())
    (h : updateItemWith cfg.storage checkSize s keyInfo key actions maps condition = .ok s')
    (hs' : s'.All Item.ValidNumbers) (hcreates : UpdateCreates s keyInfo key actions) :
    key.ValidNumbers := by
  obtain ⟨item', hitem', rfl⟩ := updateItemWith_ok h
  rw [if_neg (by simp [hcreates.2])] at hs'
  have hvalid : item'.ValidNumbers :=
    hs'.upserted item' (mem_append_right _ (mem_singleton_self _))
  have hbase : updateBase s keyInfo key = key := by rw [updateBase, hcreates.1, Option.getD_none]
  rw [hbase] at hitem'
  intro e he
  obtain ⟨hname, hget⟩ := validateKeyOnly_mem hkeyOnly hnames he
  rw [← applyUpdate_get? (validateNoKeyUpdates_avoids hactions hname) hitem'] at hget
  exact hvalid _ (mem_of_get? hget)

theorem statementStores_of_all (hsingle : actions.length ≤ 1)
    (h : updateItemWith cfg.storage checkSize s keyInfo key actions maps condition = .ok s')
    (hs' : s'.All Item.ValidNumbers) :
    StatementStores cfg.storage.bigDecimal maps IsValidNumber actions
      (updateBase s keyInfo key) := by
  obtain ⟨item', hitem', rfl⟩ := updateItemWith_ok h
  split at hs'
  · rename_i hnothing
    exact statementStores_of_removesOnly (Bool.and_eq_true_iff.mp hnothing).2
  have hvalid : item'.ValidNumbers :=
    hs'.upserted item' (mem_append_right _ (mem_singleton_self _))
  match actions, hsingle with
  | [], _ => exact ⟨fun _ _ _ hmem => by simp at hmem, fun _ _ _ _ => trivial⟩
  | [action], _ => exact statementStores_of_singleton hitem' hvalid

end

/-! ## PutItem and UpdateItem -/

theorem handlePutItem_validNumbers {input} (hs : s.All Item.ValidNumbers)
    (h : handlePutItem cfg input s = .ok s') : s'.All Item.ValidNumbers := by
  obtain ⟨hnumbers, -, keyInfo, h⟩ := handlePutItem_ok h
  exact putItem_all hs (validateItemNumbers_eq_ok.mp hnumbers) h

theorem mem_desugarAttributeUpdates {updates}
    (h : desugarAttributeUpdates updates = .ok (actions, maps)) (he : e ∈ maps.values) :
    e.2 ∈ updates.filterMap (·.2.value) := by
  obtain ⟨_, -, h⟩ := unbind h
  cases h
  obtain ⟨u, hu, hv⟩ := mem_filterMap.mp (mem_ofList he)
  obtain ⟨v, hvalue, rfl⟩ := Option.map_eq_some_iff.mp hv
  exact mem_filterMap.mpr ⟨u.1, (mem_zipIdx' hu).2 ▸ getElem_mem _, hvalue⟩

theorem UpdateDirective.allNumbers_valid {update key limits}
    (heffective : update.effective = .ok (actions, maps))
    (h : validateUpdateItem key update limits keyInfo = .ok ()) :
    maps.AllNumbers IsValidNumber := by
  replace h := ok_of_check h
  replace h := ok_of_check h
  cases update with
  | expression actions' maps' =>
    cases heffective
    intro e he
    have hcheck := forM_eq_ok.mp h e he
    refine validateAttributeNumber_eq_ok.mp ?_
    cases hnumber : validateAttributeNumber e.2 with
    | ok _ => rfl
    | error err =>
      rw [hnumber] at hcheck
      cases err <;> cases hcheck
  | attributeUpdates updates =>
    replace h := ok_of_check h
    intro e he
    exact validateAttributeNumber_eq_ok.mp
      (validateListNumbers_eq_ok.mp h _ (mem_desugarAttributeUpdates heffective he))

/-! ## Transactions -/

structure TransactWriteOp.PreparedFrom (cfg : EngineConfig) (twi : TransactWriteItem)
    (op : TransactWriteOp) : Prop where
  table : ∃ name, cfg.tableKeyInfo name = .ok op.keyInfo
  update : ∀ keyInfo key actions maps condition, op = .update keyInfo key actions maps condition →
    validateNoKeyUpdates actions keyInfo maps = .ok () ∧
      ∃ name, twi.operation = .update name key actions maps condition

variable {op : TransactWriteOp} {twi : TransactWriteItem}

theorem prepareWriteOp_preparedFrom
    (h : prepareWriteOp cfg twi = .ok op) : op.PreparedFrom cfg twi := by
  unfold prepareWriteOp at h
  split at h
  · obtain ⟨keyInfo, hkeyInfo, h⟩ := unbind h
    simp only [check_then_eq_ok] at h
    obtain ⟨-, -, -, -, h⟩ := h
    cases h
    exact ⟨⟨_, hkeyInfo⟩, fun _ _ _ _ _ heq => by cases heq⟩
  · obtain ⟨keyInfo, hkeyInfo, h⟩ := unbind h
    simp only [check_then_eq_ok] at h
    obtain ⟨-, -, h⟩ := h
    cases h
    exact ⟨⟨_, hkeyInfo⟩, fun _ _ _ _ _ heq => by cases heq⟩
  · rename_i name key actions maps condition hoperation
    obtain ⟨keyInfo, hkeyInfo, h⟩ := unbind h
    simp only [check_then_eq_ok] at h
    obtain ⟨-, hkeys, -, -, h⟩ := h
    cases h
    refine ⟨⟨_, hkeyInfo⟩, fun _ _ _ _ _ heq => ?_⟩
    cases heq
    exact ⟨hkeys, name, hoperation⟩
  · obtain ⟨keyInfo, hkeyInfo, h⟩ := unbind h
    simp only [check_then_eq_ok] at h
    obtain ⟨-, -, h⟩ := h
    cases h
    exact ⟨⟨_, hkeyInfo⟩, fun _ _ _ _ _ heq => by cases heq⟩

theorem executeTransactWriteOp_validNumbers (hs : s.All Item.ValidNumbers)
    (hsupplies : op.SuppliesValidNumbers cfg.storage s)
    (h : executeTransactWriteOp cfg.storage s op = .ok s') : s'.All Item.ValidNumbers := by
  cases op with
  | put keyInfo item condition => exact putItem_all hs hsupplies h
  | delete keyInfo key condition => exact deleteItem_all hs h
  | update keyInfo key actions maps condition =>
    exact updateItemWith_validNumbers hs hsupplies.1
      (fun hbase _ happly => hsupplies.2.allNumbers hbase happly) h
  | conditionCheck keyInfo key condition =>
    replace h := ok_of_check h
    cases h
    exact hs

theorem TransactWriteOp.suppliesValidNumbers_of_all (hcfg : cfg.DistinctKeyNames)
    (hop : op.PreparedFrom cfg twi) (hsingle : twi.SingleAction)
    (hkey : transactOpKeyChecks op = .ok ())
    (h : executeTransactWriteOp cfg.storage s op = .ok s') (hs' : s'.All Item.ValidNumbers) :
    op.SuppliesValidNumbers cfg.storage s := by
  cases op with
  | put keyInfo item condition =>
    replace h := ok_of_check h
    cases h
    exact hs'.upserted item (mem_append_right _ (mem_singleton_self _))
  | delete keyInfo key condition | conditionCheck keyInfo key condition => trivial
  | update keyInfo key actions maps condition =>
    obtain ⟨table, htable⟩ := hop.table
    obtain ⟨hactions, name, hoperation⟩ := hop.update _ _ _ _ _ rfl
    rw [TransactWriteItem.SingleAction, hoperation] at hsingle
    have hkeyOnly : validateKeyOnly key keyInfo.keySchema keyInfo.attributeDefinitions =
        .ok () := by
      rw [transactOpKeyChecks, validateBatchKeyOnly] at hkey
      cases hcheck : validateKeyOnly key keyInfo.keySchema keyInfo.attributeDefinitions with
      | ok _ => rfl
      | error e =>
        rw [hcheck] at hkey
        cases hkey
    exact ⟨validNumbers_of_updateCreates (hcfg table keyInfo htable) hkeyOnly hactions h hs',
      statementStores_of_all hsingle h hs'⟩

theorem transactWriteItems_supplied (hcfg : cfg.DistinctKeyNames) {ops}
    (hops : ∀ op ∈ ops, ∃ twi, op.PreparedFrom cfg twi ∧ twi.SingleAction)
    (hkeys : ∀ op ∈ ops, transactOpKeyChecks op = .ok ()) (hs : s.All Item.ValidNumbers)
    (h : ops.foldlM (executeTransactWriteOp cfg.storage) s = .ok s')
    (hs' : s'.All Item.ValidNumbers) :
    RunSatisfies (executeTransactWriteOp cfg.storage)
      (TransactWriteOp.SuppliesValidNumbers cfg.storage) ops s := by
  induction ops generalizing s with
  | nil => trivial
  | cons op ops ih =>
    obtain ⟨s₁, hop, h⟩ := unbind h
    have hs₁ : s₁.All Item.ValidNumbers :=
      hs.of_extends (executeTransactWriteOp_extends hop)
        (foldlM_executeTransactWriteOp_extends h) hs'
    obtain ⟨twi, hprepared, hsingle⟩ := hops op (by simp)
    refine ⟨TransactWriteOp.suppliesValidNumbers_of_all hcfg hprepared hsingle
      (hkeys op (by simp)) hop hs₁, fun s₂ hs₂ => ?_⟩
    cases hop.symm.trans hs₂
    exact ih (fun op' hop' => hops op' (.tail _ hop'))
      (fun op' hop' => hkeys op' (.tail _ hop')) hs₁ h

/-! ## Batches -/

def afterWrites (s : Store) (ws : List StorageWrite) : Store :=
  ws.foldl (fun s w => (applyStorageWrite w s).2) s

theorem afterWrites_extends (s : Store) (ws) : s.Extends (afterWrites s ws) := by
  induction ws generalizing s with
  | nil => exact .refl s
  | cons w ws ih =>
    refine .trans ?_ (ih _)
    cases w with
    | put keyInfo item => exact s.extends_upsertItem keyInfo item
    | delete keyInfo key => exact s.extends_removeItem keyInfo key

theorem afterWrites_validNumbers_iff (hs : s.All Item.ValidNumbers) (ws : List StorageWrite) :
    (afterWrites s ws).All Item.ValidNumbers ↔
      ∀ keyInfo item, .put keyInfo item ∈ ws → item.ValidNumbers := by
  induction ws generalizing s with
  | nil => simpa [afterWrites] using hs
  | cons w ws ih =>
    cases w with
    | put keyInfo item =>
      constructor
      · intro hall
        have hfirst := hs.of_extends (s.extends_upsertItem keyInfo item)
          (afterWrites_extends _ ws) hall
        rintro keyInfo' item' hmem
        rcases mem_cons.mp hmem with heq | hmem
        · cases heq
          exact (Store.upsertItem_all_iff hs).mp hfirst
        · exact (ih hfirst).mp hall keyInfo' item' hmem
      · intro hputs
        refine (ih (hs.upsertItem keyInfo (hputs keyInfo item (by simp)))).mpr ?_
        exact fun keyInfo' item' hmem => hputs keyInfo' item' (.tail _ hmem)
    | delete keyInfo key =>
      have hstep : afterWrites s (.delete keyInfo key :: ws) =
          afterWrites (s.removeItem keyInfo key) ws := rfl
      rw [hstep, ih (hs.removeItem keyInfo key)]
      simp

variable {requestItems : RequestItems}

theorem mem_writes_batchSteps {σ : Type} {ctx} {t : σ}
    (h : Accepted ctx.storage (batchSteps ctx requestItems) t) (item) :
    (∃ keyInfo, .put keyInfo item ∈ writes (batchSteps ctx requestItems)) ↔
      ∃ table ∈ requestItems, ∃ wr ∈ table.2, wr.putRequest = some item := by
  simp only [mem_writes]
  constructor
  · rintro ⟨keyInfo, hput⟩
    simp only [batchSteps, mem_cons, reduceCtorEq, mem_flatMap, false_or] at hput
    obtain ⟨table, htable, hput⟩ := hput
    refine ⟨table, htable, ?_⟩
    unfold tableSteps at hput
    split at hput
    · simp at hput
    simp only [mem_cons, reduceCtorEq, mem_flatMap, false_or] at hput
    obtain ⟨wr, hwr, hput⟩ := hput
    refine ⟨wr, hwr, ?_⟩
    unfold requestSteps at hput
    split at hput
    · rename_i put _ hrequest
      simp only [mem_cons, reduceCtorEq, not_mem_nil, or_false, false_or] at hput
      cases hput
      exact hrequest
    · simp at hput
    · cases hput
  · rintro ⟨table, htable, wr, hwr, hput⟩
    have hmem {step : BatchStep} (hstep : step ∈ tableSteps ctx table) :
        step ∈ batchSteps ctx requestItems :=
      mem_cons_of_mem _ (mem_flatMap.mpr ⟨table, htable, hstep⟩)
    cases hinfo : ctx.tableKeyInfo table.1 with
    | error e => cases h.fetch_ok (r := .error e) (hmem (by simp [tableSteps, hinfo]))
    | ok keyInfo =>
      refine ⟨keyInfo, hmem ?_⟩
      simp only [tableSteps, hinfo]
      exact .tail _ (mem_flatMap.mpr ⟨wr, hwr, by simp [requestSteps, hput]⟩)

theorem handleBatchWriteItem_validNumbers_iff (hs : s.All Item.ValidNumbers)
    (h : (ItemRequest.batchWriteItem requestItems).handle cfg s = .ok s') :
    s'.All Item.ValidNumbers ↔
      (ItemRequest.batchWriteItem requestItems).SuppliesValidNumbers cfg s := by
  rw [ItemRequest.handle] at h
  split at h
  · rename_i w hexec
    cases h
    rw [handleBatchWriteItem_eq] at hexec
    obtain ⟨haccepted, hstate⟩ := accepted_of_exec hexec
    have hafter : w.state = afterWrites s (writes (batchSteps cfg.context requestItems)) := hstate
    rw [hafter, afterWrites_validNumbers_iff hs]
    constructor
    · intro hputs table htable wr hwr item hitem
      obtain ⟨keyInfo, hput⟩ :=
        (mem_writes_batchSteps haccepted item).mpr ⟨table, htable, wr, hwr, hitem⟩
      exact hputs keyInfo item hput
    · intro hitems keyInfo item hput
      obtain ⟨table, htable, wr, hwr, hitem⟩ :=
        (mem_writes_batchSteps haccepted item).mp ⟨keyInfo, hput⟩
      exact hitems table htable wr hwr item hitem
  all_goals cases h

/-! ## All requests -/

theorem handleTransactWriteItems_validNumbers {items} (hs : s.All Item.ValidNumbers)
    (hsupplies : (ItemRequest.write (.transactWriteItems items)).SuppliesValidNumbers cfg s)
    (h : handleTransactWriteItems cfg items s = .ok s') : s'.All Item.ValidNumbers := by
  obtain ⟨ops, hops, h⟩ := handleTransactWriteItems_ok h
  exact foldlM_invariant_of_run (Store.All Item.ValidNumbers)
    (fun _ _ _ ht hsup hop => executeTransactWriteOp_validNumbers ht hsup hop)
    (hsupplies ops hops) hs (transactWriteItems_ok h).2

theorem handleUpdateItem_validNumbers {input} (hs : s.All Item.ValidNumbers)
    (hsupplies : (ItemRequest.write (.updateItem input)).SuppliesValidNumbers cfg s)
    (h : handleUpdateItem cfg input s = .ok s') : s'.All Item.ValidNumbers := by
  obtain ⟨actions, maps, keyInfo, heffective, hkeyInfo, hvalid, -, h⟩ := handleUpdateItem_ok h
  have hvalues := UpdateDirective.allNumbers_valid heffective hvalid
  exact updateItemWith_validNumbers hs (hsupplies actions maps keyInfo heffective hkeyInfo)
    (fun hbase _ happly => applyUpdate_validNumbers hbase hvalues happly) h

/-- An accepted request from a store of valid numbers leaves one when it supplies valid numbers where
nothing checks them; and, transacted updates being of one action each, only then. -/
theorem handle_validNumbers (cfg : EngineConfig) (req : ItemRequest) (s s' : Store)
    (hs : s.All Item.ValidNumbers) (h : req.handle cfg s = .ok s') :
    (req.SuppliesValidNumbers cfg s → s'.All Item.ValidNumbers) ∧
      (cfg.DistinctKeyNames → req.SingleActions →
        (s'.All Item.ValidNumbers ↔ req.SuppliesValidNumbers cfg s)) := by
  have hsufficient : req.SuppliesValidNumbers cfg s → s'.All Item.ValidNumbers := by
    intro hsupplies
    match req with
    | .write (.putItem input) => exact handlePutItem_validNumbers hs h
    | .write (.updateItem input) => exact handleUpdateItem_validNumbers hs hsupplies h
    | .write (.transactWriteItems items) =>
      exact handleTransactWriteItems_validNumbers hs hsupplies h
    | .batchWriteItem requestItems =>
      exact (handleBatchWriteItem_validNumbers_iff hs h).mpr hsupplies
  refine ⟨hsufficient, fun hcfg hsingle => ⟨fun hs' => ?_, hsufficient⟩⟩
  match req with
  | .write (.putItem input) => trivial
  | .write (.updateItem input) =>
    intro actions maps keyInfo heffective hkeyInfo hcreates
    obtain ⟨actions', maps', keyInfo', heffective', hkeyInfo', hvalid, hkeys, h⟩ :=
      handleUpdateItem_ok h
    cases heffective.symm.trans heffective'
    cases hkeyInfo.symm.trans hkeyInfo'
    exact validNumbers_of_updateCreates (hcfg _ keyInfo hkeyInfo) (check_then_eq_ok.mp hvalid).1
      hkeys h hs' hcreates
  | .write (.transactWriteItems items) =>
    intro ops hops
    obtain ⟨ops', hops', h⟩ := handleTransactWriteItems_ok h
    cases hops.symm.trans hops'
    obtain ⟨hkeys, h⟩ := transactWriteItems_ok h
    refine transactWriteItems_supplied hcfg ?_ hkeys hs h hs'
    exact prepareAll_forall (fun twi htwi op hop =>
      ⟨twi, prepareWriteOp_preparedFrom hop, hsingle twi htwi⟩) hops
  | .batchWriteItem requestItems => exact (handleBatchWriteItem_validNumbers_iff hs h).mp hs'

/-! ## Numbers that nothing checks -/

theorem emptyStore_validNumbers : emptyStore.All Item.ValidNumbers where
  rows _ _ _ h := by cases h
  upserted := by simp [emptyStore]

def batchPutNumber (v : String) : ItemRequest :=
  .batchWriteItem [("t", [⟨some [("pk", .s "k"), ("v", .n v)], none⟩])]

def transactPutNumber (v : String) : ItemRequest :=
  .write (.transactWriteItems [⟨.put "t" [("pk", .s "k"), ("v", .n v)] none, .ok ()⟩])

def transactSetNumber (v : String) : ItemRequest :=
  .write (.transactWriteItems [⟨.update "t" [("pk", .s "k")]
    [.set [.attr "v"] (.placeholder "v")] ⟨[], [("v", .n v)]⟩ none, .ok ()⟩])

/-- A valid number in a batch stays valid. -/
theorem handle_validNumbers_batchPut :
    ∃ s', (batchPutNumber "1.5").handle singleTableEngine emptyStore = .ok s' ∧
      s'.upserted = [[("pk", .s "k"), ("v", .n "1.5")]] ∧ s'.All Item.ValidNumbers := by
  refine ⟨_, rfl, rfl, (handle_validNumbers singleTableEngine (batchPutNumber "1.5") emptyStore _
    emptyStore_validNumbers rfl).1 ?_⟩
  intro table htable wr hwr item hitem
  cases mem_singleton.mp htable
  cases mem_singleton.mp hwr
  cases hitem
  decide

/-- A batch, a transacted put and a transacted update store the number text `abc`. -/
theorem handle_stores_malformed_number : emptyStore.All Item.ValidNumbers ∧
      ∀ req ∈ [batchPutNumber "abc", transactPutNumber "abc", transactSetNumber "abc"],
        ∃ s', req.handle singleTableEngine emptyStore = .ok s' ∧
          s'.upserted = [[("pk", .s "k"), ("v", .n "abc")]] ∧ ¬ s'.All Item.ValidNumbers := by
  have hinvalid {s' : Store} (h : s'.upserted = [[("pk", .s "k"), ("v", .n "abc")]]) :
      ¬ s'.All Item.ValidNumbers := by
    intro hall
    have hitem := hall.upserted [("pk", .s "k"), ("v", .n "abc")] (by simp [h])
    revert hitem
    decide
  refine ⟨emptyStore_validNumbers, ?_⟩
  simp only [forall_mem_cons, not_mem_nil, false_imp_iff, implies_true, and_true]
  exact ⟨⟨_, rfl, rfl, hinvalid rfl⟩, ⟨_, rfl, rfl, hinvalid rfl⟩, ⟨_, rfl, rfl, hinvalid rfl⟩⟩

end ExtendDb
