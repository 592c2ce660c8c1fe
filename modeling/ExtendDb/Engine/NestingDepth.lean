import ExtendDb.Engine.WriteItems
import ExtendDb.Expression.UpdateDepth
import ExtendDb.BigDecimal.Reference

/-!
# Nesting depth of stored items

PutItem and the puts of a transaction check the whole item.  An update checks the values of the
request only: where they end up in the stored item is not checked again.
-/

namespace ExtendDb

open Fallible

inductive WriteOperation where
  | putItem (input : PutItemInput)
  | updateItem (input : UpdateItemInput)
  | transactWriteItems (items : List TransactWriteItem)

def WriteOperation.handle (cfg : EngineConfig) (s : Store) : WriteOperation → Result Store
  | .putItem input => handlePutItem cfg input s
  | .updateItem input => handleUpdateItem cfg input s
  | .transactWriteItems items => handleTransactWriteItems cfg items s

/-- An update hangs nothing below the limit: neither the key it may create an item from, nor any of
its actions on the image it starts from. -/
structure UpdateKeepsDepth (s : Store) (keyInfo : TableKeyInfo) (key : Item)
    (actions : List UpdateAction) (maps : ExpressionMaps) : Prop where
  creates : s.fetchItem keyInfo key = none → key.WithinDepth
  keeps : ∀ a ∈ actions, a.KeepsDepth (updateBase s keyInfo key) maps

def TransactWriteOp.KeepsDepth (s : Store) : TransactWriteOp → Prop
  | .update keyInfo key actions maps _ => UpdateKeepsDepth s keyInfo key actions maps
  | _ => True

/-- Every update the operation makes hangs nothing below the limit, each member of a transaction on
the rows it finds. -/
def WriteOperation.KeepsDepth (cfg : EngineConfig) (s : Store) : WriteOperation → Prop
  | .putItem _ => True
  | .updateItem input => ∀ actions maps keyInfo, input.update.effective = .ok (actions, maps) →
      cfg.tableKeyInfo input.tableName = .ok keyInfo →
      UpdateKeepsDepth s keyInfo input.key actions maps
  | .transactWriteItems items => ∀ ops, prepareAll cfg items = .ok ops →
      RunSatisfies (executeTransactWriteOp cfg.storage) TransactWriteOp.KeepsDepth ops s

variable {cfg : EngineConfig} {s s' : Store}

/-! ## Single items -/

theorem UpdateKeepsDepth.writes {keyInfo key actions maps bd}
    (h : UpdateKeepsDepth s keyInfo key actions maps) (hs : s.All Item.WithinDepth) (item')
    (happly : applyUpdate bd maps actions (updateBase s keyInfo key) = .ok item') :
    item'.WithinDepth :=
  applyUpdate_withinDepth (hs.updateBase h.creates) h.keeps happly

theorem handlePutItem_ok {input} (h : handlePutItem cfg input s = .ok s') :
    validateItemNumbers input.item = .ok () ∧ validateItemNestingDepth input.item = .ok () ∧
      ∃ keyInfo, putItem s keyInfo input.item input.condition = .ok s' := by
  replace h := ok_of_check h
  replace h := ok_of_check h
  obtain ⟨keyInfo, -, h⟩ := unbind h
  simp only [check_then_eq_ok, validatePutItem] at h
  obtain ⟨⟨-, hnumbers, hdepth, -⟩, -, -, h⟩ := h
  exact ⟨hnumbers, hdepth, keyInfo, h⟩

theorem handlePutItem_withinDepth {input} (hs : s.All Item.WithinDepth)
    (h : handlePutItem cfg input s = .ok s') : s'.All Item.WithinDepth := by
  obtain ⟨-, hdepth, keyInfo, h⟩ := handlePutItem_ok h
  exact putItem_all hs hdepth h

theorem handleUpdateItem_ok {input} (h : handleUpdateItem cfg input s = .ok s') :
    ∃ actions maps keyInfo, input.update.effective = .ok (actions, maps) ∧
      cfg.tableKeyInfo input.tableName = .ok keyInfo ∧
      validateUpdateItem input.key input.update cfg.limits keyInfo = .ok () ∧
      validateNoKeyUpdates actions keyInfo maps = .ok () ∧
      updateItem cfg.storage s keyInfo input.key actions maps input.condition = .ok s' := by
  obtain ⟨⟨actions, maps⟩, heffective, h⟩ := unbind h
  replace h := ok_of_check h
  obtain ⟨keyInfo, hkeyInfo, h⟩ := unbind h
  obtain ⟨hvalid, h⟩ := check_then_eq_ok.mp h
  replace h := ok_of_check h
  obtain ⟨hkeys, h⟩ := check_then_eq_ok.mp h
  exact ⟨actions, maps, keyInfo, heffective, hkeyInfo, hvalid, hkeys, h⟩

/-! ## Transactions -/

variable {items : List TransactWriteItem}

theorem prepareAll_forall {Q : TransactWriteOp → Prop} {ops}
    (hQ : ∀ twi ∈ items, ∀ op, prepareWriteOp cfg twi = .ok op → Q op)
    (h : prepareAll cfg items = .ok ops) : ∀ op ∈ ops, Q op := by
  refine foldlM_invariant (fun prepared => ∀ op ∈ prepared, Q op) ?_ (fun _ hmem => by cases hmem) h
  intro prepared twi prepared' htwi hprepared hstep
  obtain ⟨op, hop, hstep⟩ := unbind hstep
  split at hstep
  · cases hstep
  · cases hstep
    exact List.forall_mem_append.mpr ⟨hprepared, by simpa using hQ twi htwi op hop⟩

theorem prepareWriteOp_put {twi op} (h : prepareWriteOp cfg twi = .ok op) :
    ∀ keyInfo item condition, op = .put keyInfo item condition → item.WithinDepth := by
  rintro keyInfo item condition rfl
  unfold prepareWriteOp at h
  split at h
  · obtain ⟨keyInfo', -, h⟩ := unbind h
    obtain ⟨hdepth, h⟩ := check_then_eq_ok.mp h
    replace h := ok_of_check h
    replace h := ok_of_check h
    replace h := ok_of_check h
    cases h
    exact hdepth
  all_goals
    obtain ⟨keyInfo', -, h⟩ := unbind h
    simp only [check_then_eq_ok] at h
    simp at h

theorem handleTransactWriteItems_ok (h : handleTransactWriteItems cfg items s = .ok s') :
    ∃ ops, prepareAll cfg items = .ok ops ∧ transactWriteItems cfg.storage s ops = .ok s' := by
  replace h := ok_of_check h
  replace h := ok_of_check h
  obtain ⟨ops, hops, h⟩ := unbind h
  refine ⟨ops, hops, ?_⟩
  split at h
  · cases h
  · replace h := ok_of_check h
    replace h := ok_of_check h
    exact h

theorem handleTransactWriteItems_withinDepth (hs : s.All Item.WithinDepth)
    (hkeeps : (WriteOperation.transactWriteItems items).KeepsDepth cfg s)
    (h : handleTransactWriteItems cfg items s = .ok s') : s'.All Item.WithinDepth := by
  obtain ⟨ops, hops, h⟩ := handleTransactWriteItems_ok h
  have hput := prepareAll_forall (fun _ _ _ => prepareWriteOp_put) hops
  have himp : ∀ t op, op ∈ ops → t.All Item.WithinDepth → op.KeepsDepth t →
      op.Writes cfg.storage Item.WithinDepth t := by
    intro t op hmem ht hop
    cases op with
    | put keyInfo item condition => exact hput _ hmem keyInfo item condition rfl
    | update keyInfo key actions maps condition => exact hop.writes ht
    | delete keyInfo key condition | conditionCheck keyInfo key condition => trivial
  refine transactWriteItems_all hs (.imp (Store.All Item.WithinDepth) ?_ himp hs
    (hkeeps ops hops)) h
  exact fun t op t' hmem ht hop => executeTransactWriteOp_all ht (himp t op hmem ht hop)

/-! ## Runs -/

theorem WriteOperation.handle_withinDepth {op : WriteOperation} (hs : s.All Item.WithinDepth)
    (hkeeps : op.KeepsDepth cfg s) (h : op.handle cfg s = .ok s') : s'.All Item.WithinDepth := by
  cases op with
  | putItem input => exact handlePutItem_withinDepth hs h
  | updateItem input =>
    obtain ⟨actions, maps, keyInfo, heffective, hkeyInfo, -, -, hupdate⟩ := handleUpdateItem_ok h
    exact updateItemWith_all hs ((hkeeps actions maps keyInfo heffective hkeyInfo).writes hs)
      hupdate
  | transactWriteItems items => exact handleTransactWriteItems_withinDepth hs hkeeps h

/-- Along every run of accepted writes whose updates hang nothing below the limit, every stored item
passes the depth check. -/
theorem run_stored_withinDepth (cfg : EngineConfig) (ops : List WriteOperation) (s s' : Store)
    (hs : s.All Item.WithinDepth)
    (hrun : RunSatisfies (WriteOperation.handle cfg) (WriteOperation.KeepsDepth cfg) ops s)
    (h : ops.foldlM (WriteOperation.handle cfg) s = .ok s') : s'.All Item.WithinDepth :=
  foldlM_invariant_of_run (Store.All Item.WithinDepth)
    (fun _ _ _ hs hkeeps hop => WriteOperation.handle_withinDepth hs hkeeps hop) hrun hs h

/-! ## Grafting below a stored map -/

def nestedLists : Nat → AttributeValue
  | 0 => .s "leaf"
  | n + 1 => .l [nestedLists n]

def singleTableEngine : EngineConfig where
  limits := .default
  tableKeyInfo _ := .ok singleKeyTable
  storage :=
    { bigDecimal := .reference
      floatText := ⟨fun _ => true, fun _ => none⟩
      maxItemSizeBytes := 409600
      updateStatementSize := fun _ _ finished => .ok (itemSizeBytes finished) }

def emptyMapStore : Store where
  rows t k := if t = "t" ∧ k = [("pk", .s "k")] then some [("a", .m []), ("pk", .s "k")] else none
  upserted := []

theorem emptyMapStore_withinDepth : emptyMapStore.All Item.WithinDepth where
  rows t k item h := by
    have hrow : (if t = "t" ∧ k = [("pk", .s "k")] then some [("a", .m []), ("pk", .s "k")]
      else none) = some item := h
    split at hrow
    · cases hrow
      rfl
    · cases hrow
  upserted := by simp [emptyMapStore]

def graftLists (n : Nat) : UpdateItemInput where
  tableName := "t"
  key := [("pk", .s "k")]
  update := .expression [.set [.attr "a", .attr "b"] (.placeholder "v")] ⟨[], [("v", nestedLists n)]⟩
  condition := none
  requestChecks := .ok ()

private theorem exists_store_of_upserted (r : Result Store) (items)
    (h : r.toOption.map Store.upserted = some items) : ∃ s', r = .ok s' ∧ s'.upserted = items := by
  cases r with
  | error e => cases h
  | ok s' =>
    cases h
    exact ⟨s', rfl, rfl⟩

def graftThenPut : List WriteOperation :=
  [.updateItem (graftLists 30), .putItem ⟨"t", [("pk", .s "j")], [], none, .ok ()⟩]

theorem run_graftThenPut_withinDepth :
    ∃ s', graftThenPut.foldlM (WriteOperation.handle singleTableEngine) emptyMapStore = .ok s' ∧
      s'.upserted = [[("a", .m [("b", nestedLists 30)]), ("pk", .s "k")], [("pk", .s "j")]] ∧
      s'.All Item.WithinDepth := by
  obtain ⟨s', hs', hupserted⟩ := exists_store_of_upserted
    (graftThenPut.foldlM (WriteOperation.handle singleTableEngine) emptyMapStore)
    [[("a", .m [("b", nestedLists 30)]), ("pk", .s "k")], [("pk", .s "j")]] (by decide +kernel)
  have hgraft : (WriteOperation.updateItem (graftLists 30)).KeepsDepth singleTableEngine
      emptyMapStore := by
    rintro actions maps keyInfo heffective hkeyInfo
    cases heffective
    cases hkeyInfo
    refine ⟨fun hnone => ?_, ?_⟩
    · cases hnone
    · decide +kernel
  exact ⟨s', hs', hupserted, run_stored_withinDepth singleTableEngine graftThenPut _ s'
    emptyMapStore_withinDepth ⟨hgraft, fun _ _ => ⟨trivial, fun _ _ => trivial⟩⟩ hs'⟩

/-- A value of 31 lists passes the check of the request; grafted below a stored map it makes an
attribute that does not. -/
theorem handleUpdateItem_graft_31_too_deep :
    validateAttributeValuesNestingDepth [nestedLists 31] = .ok () ∧
      emptyMapStore.All Item.WithinDepth ∧
      ∃ s', handleUpdateItem singleTableEngine (graftLists 31) emptyMapStore = .ok s' ∧
        ¬ s'.All Item.WithinDepth := by
  refine ⟨by decide +kernel, emptyMapStore_withinDepth, ?_⟩
  obtain ⟨s', hs', hupserted⟩ := exists_store_of_upserted
    (handleUpdateItem singleTableEngine (graftLists 31) emptyMapStore)
    [[("a", .m [("b", nestedLists 31)]), ("pk", .s "k")]] (by decide +kernel)
  refine ⟨s', hs', fun hall => ?_⟩
  have hdeep : Item.WithinDepth [("a", .m [("b", nestedLists 31)]), ("pk", .s "k")] :=
    hall.upserted _ (by rw [hupserted]; exact List.mem_singleton_self _)
  revert hdeep
  unfold Item.WithinDepth
  decide +kernel

end ExtendDb
