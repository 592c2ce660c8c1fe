import ExtendDb.Expression.Multipart
import ExtendDb.Storage.ColumnOrder

/-!
# Rows a key condition keeps

The partition text of a condition is that of a row exactly when the equalities of the partition
hold of the row, and the comparisons of its columns pass exactly when the sort key conditions do.
-/

namespace ExtendDb

open Fallible List Option KeyCondition RowFilter

def SortKeyCondition.Holds (maps : ExpressionMaps) (cond : SortKeyCondition) (item : Item) : Prop :=
  ∃ name v t, resolvePathAttr cond.path maps.names = .ok name ∧ OrdMap.get? item name = some v ∧
    cond.test maps = some t ∧ t.Passes v

variable {maps : ExpressionMaps}

theorem WrittenClause.holds_iff {c : WrittenClause} (hplain : c.attr.token.PlainIdent) (item) :
    c.Holds maps item ↔ c.condition.Holds maps item := by
  simp only [Holds, SortKeyCondition.Holds, passesOn_iff, condition_path,
    resolvePathAttr_iff hplain]
  constructor
  · rintro ⟨name, v, hname, hv, t, ht, hpass⟩
    exact ⟨name, v, t, hname, hv, ht, hpass⟩
  · rintro ⟨name, v, t, hname, hv, ht, hpass⟩
    exact ⟨name, v, hname, hv, t, ht, hpass⟩

structure ValidRow (keySchema : List KeySchemaElement) (attrDefs : List AttributeDefinition)
    (item : Item) : Prop where
  keys : validateItemKeys item keySchema attrDefs = .ok ()
  normal : ∀ ks ∈ keySchema, ∀ v, OrdMap.get? item ks.attributeName = some v → NormalKeyValue v

def ExpressionMaps.NormalValues (maps : ExpressionMaps) : Prop :=
  ∀ e ∈ maps.values, NormalKeyValue e.2

/-! ## The partition -/

variable {ty : ScalarAttributeType}

theorem sameKeyValue_iff {v w} (hv : ty.matches v = true) (hw : ty.matches w = true)
    (hnv : NormalKeyValue v) (hnw : NormalKeyValue w) : SameKeyValue v w ↔ KeyRelated .eq v w := by
  cases ty with
  | s =>
    cases v <;> cases hv
    cases w <;> cases hw
    simp [SameKeyValue, KeyRelated, keyCompare, CompareOp.accepts,
      (Utf8.compareBytes_compares _ _).eq_eq, String.toList_inj]
  | n =>
    cases v <;> cases hv
    cases w <;> cases hw
    rename_i x y
    obtain ⟨a, -, -, ha⟩ :=
      BigDecimalCrate.reference_documented.parse_numberValue (hnv x rfl)
    obtain ⟨b, -, -, hb⟩ :=
      BigDecimalCrate.reference_documented.parse_numberValue (hnw y rfl)
    simp [SameKeyValue, KeyRelated, keyCompare, CompareOp.accepts, ha, hb]
  | b =>
    cases v <;> cases hv
    cases w <;> cases hw
    simp [SameKeyValue, KeyRelated, keyCompare, CompareOp.accepts]

def equalityText (base64 : Base64Engine) (maps : ExpressionMaps) (e : KeyEquality) :
    Except StorageError String := do
  pkToText base64 (← resolveExprToAv e.2 maps)

variable {base64 : Base64Engine} {kc : KeyCondition}

theorem conditionPkText_ok {t} (h : conditionPkText base64 kc maps = .ok t) :
    ∃ first rest, equalityText base64 maps (kc.pkPath, kc.pkValue) = .ok first ∧
      kc.extraPkConditions.mapM (equalityText base64 maps) = .ok rest ∧
      t = if kc.extraPkConditions = [] then first
        else encodeNetstringComposite (first :: rest) := by
  obtain ⟨value, hvalue, h⟩ := unbind h
  obtain ⟨first, hfirst, h⟩ := unbind h
  have hpk : equalityText base64 maps (kc.pkPath, kc.pkValue) = .ok first :=
    bind_eq_ok.mpr ⟨value, hvalue, hfirst⟩
  by_cases hextra : kc.extraPkConditions = []
  · simp only [hextra, isEmpty_nil] at h
    cases h
    exact ⟨_, [], hpk, by rw [hextra]; rfl, by simp [hextra]⟩
  simp only [List.isEmpty_iff, hextra, if_false] at h
  obtain ⟨rest, hrest, h⟩ := unbind h
  cases h
  exact ⟨first, rest, hpk, hrest, by simp [hextra]⟩

theorem conditionPkText_values {t} (h : conditionPkText base64 kc maps = .ok t) :
    ∀ e ∈ kc.pkEqualities, ∃ w, resolveExprToAv e.2 maps = .ok w := by
  obtain ⟨first, rest, hfirst, hrest, -⟩ := conditionPkText_ok h
  have hvalue {e : KeyEquality} {text : String} (he : equalityText base64 maps e = .ok text) :
      ∃ w, resolveExprToAv e.2 maps = .ok w := by
    obtain ⟨w, hw, -⟩ := unbind he
    exact ⟨w, hw⟩
  rw [pkEqualities, forall_mem_cons]
  refine ⟨hvalue hfirst, fun e he => ?_⟩
  obtain ⟨text, -, htext⟩ := forall₂_mem_left (mapM_eq_ok.mp hrest) he
  exact hvalue htext

variable {attrDefs : List AttributeDefinition} {keySchema : List KeySchemaElement} {item : Item}

/-- An equality on a HASH attribute with a value of its type: the texts of the row and of the value
agree exactly when the equality holds. -/
theorem equalityText_iff (hbase64 : Function.Injective base64.encode) (hmaps : maps.NormalValues)
    (hitem : ValidRow keySchema attrDefs item) {ks} (hks : ks ∈ keySchema)
    (hty : declaredType attrDefs ks.attributeName = some ty) {e}
    (hname : resolvePathAttr e.1 maps.names = .ok ks.attributeName) {w}
    (hvalue : resolveExprToAv e.2 maps = .ok w) (hw : ty.matches w = true) (missing) :
    ∃ t u, equalityText base64 maps e = .ok t ∧ hashPart base64 item missing ks = .ok u ∧
      (t = u ↔ e.condition.Holds maps item) := by
  obtain ⟨v, hget, hv⟩ := validateItemKeys_ok hitem.keys hks hty
  obtain ⟨path, expr⟩ := e
  obtain ⟨name, rfl, hplaceholder⟩ := resolveExprToAv_ok hvalue
  have hnormal := hitem.normal ks hks v hget
  have hnormal' := hmaps _ (OrdMap.mem_of_get? hplaceholder)
  obtain ⟨u, t, hu, ht, hut⟩ := pkToText_eq_iff hbase64 hv hw hnormal hnormal'
  refine ⟨t, u, ?_, ?_, ?_⟩
  · rw [equalityText, hvalue]
    exact ht
  · rw [hashPart, hget]
    exact hu
  · rw [eq_comm, hut, sameKeyValue_iff hv hw hnormal hnormal']
    simp [SortKeyCondition.Holds, KeyEquality.condition, SortKeyCondition.path,
      SortKeyCondition.test, hname, hget, hplaceholder, KeyTest.Passes]

/-- One equality for each HASH attribute: the partition text of the condition is that of the row
exactly when they all hold. -/
theorem partition_iff (hparts : ∀ missing : KeySchemaElement → String,
      List.Forall₂ (fun e ks => ∃ t u, equalityText base64 maps e = .ok t ∧
        hashPart base64 item (missing ks) ks = .ok u ∧ (t = u ↔ e.condition.Holds maps item))
        kc.pkEqualities (hashKeyElements keySchema)) {t u}
    (ht : conditionPkText base64 kc maps = .ok t)
    (hu : compositePkToText base64 item keySchema = .ok u) :
    u = t ↔ ∀ e ∈ kc.pkEqualities, e.condition.Holds maps item := by
  have hlength := (hparts fun _ => "").length_eq
  obtain ⟨first, rest, hfirst, hrest, ht⟩ := conditionPkText_ok ht
  by_cases hextra : kc.extraPkConditions = []
  · have hpk : kc.pkEqualities = [(kc.pkPath, kc.pkValue)] := by
      rw [pkEqualities, hextra]
    rw [hpk] at hlength
    obtain ⟨ks, hks⟩ := length_eq_one_iff.mp hlength.symm
    have hone := hparts fun _ => "missing partition key"
    rw [hpk, hks, forall₂_cons] at hone
    obtain ⟨⟨t', u', ht', hu', hiff⟩, -⟩ := hone
    obtain rfl : first = t' := Except.ok.inj (hfirst.symm.trans ht')
    have huu : u = u' := by
      rw [compositePkToText, hks] at hu
      exact (Except.ok.inj (hu'.symm.trans hu)).symm
    rw [hpk, ht, if_pos hextra, huu, eq_comm, hiff]
    simp
  · have hmany := hparts fun ks => "missing partition key attribute " ++ ks.attributeName
    obtain ⟨ts, us, hts, hus, hiff⟩ := mapM_agree_iff hmany
    obtain rfl : first :: rest = ts := by
      have : kc.pkEqualities.mapM (equalityText base64 maps) = .ok (first :: rest) := by
        rw [pkEqualities, mapM_cons, hfirst, hrest]
        rfl
      exact Except.ok.inj (this.symm.trans hts)
    rw [if_neg hextra] at ht
    have hne : ∀ ks, hashKeyElements keySchema ≠ [ks] := by
      intro ks hks
      rw [hks, pkEqualities] at hlength
      simp at hlength
      exact hextra hlength
    unfold compositePkToText at hu
    split at hu
    · rename_i ks hks
      exact absurd hks (hne ks)
    · rw [hus] at hu
      cases hu
      rw [ht, encodeNetstringComposite_inj, eq_comm, hiff]

/-! ## The columns -/

def SortKeyCondition.PassesAt (maps : ExpressionMaps) (cond : SortKeyCondition) (item : Item)
    (name : String) : Prop :=
  ∃ v t, OrdMap.get? item name = some v ∧ cond.test maps = some t ∧ t.Passes v ∧ ¬t.CutOff v

variable {path : List PathElement} {name : String}

theorem resolveAttrName_iff :
    resolveAttrName path maps = some name ↔ resolvePathAttr path maps.names = .ok name := by
  unfold resolveAttrName resolvePathAttr
  cases path.head? with
  | none => simp
  | some element =>
    cases element with
    | index => simp
    | attr bare =>
      cases hstrip : stripPrefix '#' bare with
      | none => simp [hstrip]
      | some ref => cases hget : OrdMap.get? maps.names ref <;> simp [hstrip, hget]

theorem mem_allSortKeyInfo : (name, ty) ∈ allSortKeyInfo keySchema attrDefs ↔
      ∃ ks ∈ rangeKeyElements keySchema, ks.attributeName = name ∧
        declaredType attrDefs name = some ty := by
  rw [allSortKeyInfo, mem_filterMap]
  constructor
  · rintro ⟨ks, hks, h⟩
    obtain ⟨_, hty, heq⟩ := map_eq_some_iff.mp h
    cases heq
    exact ⟨ks, hks, rfl, hty⟩
  · rintro ⟨ks, hks, rfl, hty⟩
    exact ⟨ks, hks, by rw [hty]; rfl⟩

theorem storeRow_ok {bd row} (h : storeRow bd base64 keySchema attrDefs item = .ok row) :
    row.item = item ∧ compositePkToText base64 item keySchema = .ok row.pk ∧
      ∀ (pos : Nat) (name : String) (ty : ScalarAttributeType),
        (allSortKeyInfo keySchema attrDefs)[pos]? = some (name, ty) →
        ∃ v vk, OrdMap.get? item name = some v ∧ parseSk bd v ty = .ok vk ∧
          row.sks[pos]? = some (skBound bd vk) := by
  obtain ⟨pk, hpk, h⟩ := unbind h
  obtain ⟨sks, hsks, h⟩ := unbind h
  cases h
  refine ⟨rfl, hpk, fun pos name ty hpos => ?_⟩
  have hforall := mapM_eq_ok.mp hsks
  obtain ⟨hlt, heq⟩ := List.getElem?_eq_some_iff.mp hpos
  have hlt' : pos < sks.length := hforall.length_eq ▸ hlt
  have hstored := hforall.get hlt hlt'
  simp only [get_eq_getElem, heq] at hstored
  split at hstored
  · cases hstored
  · rename_i v hget
    obtain ⟨vk, hvk, hbound⟩ := map_eq_ok.mp hstored
    exact ⟨v, vk, hget, hvk, by rw [getElem?_eq_getElem hlt', hbound]⟩

variable {sks : List (String × ScalarAttributeType)}

theorem rangeColumn_some {pos} (h : rangeColumn sks maps path = some (pos, ty)) :
    ∃ name, resolvePathAttr path maps.names = .ok name ∧ sks[pos]? = some (name, ty) := by
  obtain ⟨name, hname, h⟩ := bind_eq_some_iff.mp h
  obtain ⟨pos', hidx, h⟩ := bind_eq_some_iff.mp h
  obtain ⟨⟨name', ty'⟩, hsk, h⟩ := bind_eq_some_iff.mp h
  cases h
  obtain ⟨hlt, hpass, -⟩ := findIdx?_eq_some_iff_getElem.mp hidx
  obtain ⟨_, hget⟩ := List.getElem?_eq_some_iff.mp hsk
  rw [hget, beq_iff_eq] at hpass
  exact ⟨name, resolveAttrName_iff.mp hname, by rw [hsk, ← hpass]⟩

theorem rangeColumn_isSome
    (hname : resolvePathAttr path maps.names = .ok name) (hmem : (name, ty) ∈ sks) :
    (rangeColumn sks maps path).isSome = true := by
  rw [rangeColumn, resolveAttrName_iff.mpr hname]
  cases hidx : sks.findIdx? (fun sk => sk.1 == name) with
  | none =>
    have := findIdx?_eq_none_iff.mp hidx _ hmem
    simp at this
  | some pos =>
    obtain ⟨hlt, -, -⟩ := findIdx?_eq_some_iff_getElem.mp hidx
    simp [hidx, hlt]

theorem forall_mem_flatten_iff {α β : Type} {R} {P : β → Prop} {Q : α → Prop} {xs yss}
    (hforall : List.Forall₂ R xs yss) (h : ∀ x ∈ xs, ∀ ys, R x ys → ((∀ y ∈ ys, P y) ↔ Q x)) :
    (∀ y ∈ yss.flatten, P y) ↔ ∀ x ∈ xs, Q x := by
  induction hforall with
  | nil => simp
  | cons hxy _ ih =>
    rw [flatten_cons, forall_mem_append, forall_mem_cons,
      ih fun x hx => h x (.tail _ hx), h _ (mem_cons_self ..) _ hxy]

section

variable {bd : BigDecimalCrate} (hbd : bd.Documented) (hmaps : maps.NormalValues)
  (hitem : ValidRow keySchema attrDefs item) {row : StoredRow}
  (hrow : storeRow bd base64 keySchema attrDefs item = .ok row)
include hbd hmaps hitem hrow

/-- The comparisons of a condition pass on a row exactly when it passes on the attribute of their
column. -/
theorem columnTests_iff {cond : SortKeyCondition} {pos name ty tests}
    (hpos : (allSortKeyInfo keySchema attrDefs)[pos]? = some (name, ty))
    (htests : columnTests bd maps cond (some (pos, ty)) = .ok tests) :
    (∀ test ∈ tests, columnPasses row test = true) ↔ cond.PassesAt maps item name := by
  obtain ⟨-, -, hcolumns⟩ := storeRow_ok hrow
  obtain ⟨v, vk, hget, hvk, hcolumn⟩ := hcolumns pos name ty hpos
  obtain ⟨built, hbuilt, h⟩ := unbind htests
  cases h
  obtain ⟨ks, hks, rfl, -⟩ := mem_allSortKeyInfo.mp (mem_of_getElem? hpos)
  have hnormal := hitem.normal ks (mem_of_mem_filter hks) v hget
  have hiff := buildSkSqlAndBinds_iff hbd hbuilt hvk hnormal hmaps
  simp only [List.forall_mem_map, columnPasses, hcolumn, hiff, SortKeyCondition.PassesAt, hget]
  simp

/-- Conditions that all name a RANGE attribute: the filter passes the columns of a row exactly when
each condition passes on the attribute it names. -/
theorem tests_iff_of_named {kc : KeyCondition} {filter : RowFilter}
    (hfilter : queryFilter bd base64 keySchema attrDefs kc maps = .ok filter)
    (hnamed : ∀ cond ∈ kc.sortConditions, ∃ name ty,
      resolvePathAttr cond.path maps.names = .ok name ∧
        (name, ty) ∈ allSortKeyInfo keySchema attrDefs) :
    (∀ test ∈ filter.tests, columnPasses row test = true) ↔
      ∀ cond ∈ kc.sortConditions, ∃ name, resolvePathAttr cond.path maps.names = .ok name ∧
        cond.PassesAt maps item name := by
  obtain ⟨pk, -, h⟩ := unbind hfilter
  simp only [bind_eq_ok] at h
  obtain ⟨skTests, hsk, extraTests, hextra, h⟩ := h
  cases h
  have hone : ∀ cond ∈ kc.sortConditions, ∀ tests, columnTests bd maps cond
        (rangeColumn (allSortKeyInfo keySchema attrDefs) maps cond.path) = .ok tests →
      ((∀ test ∈ tests, columnPasses row test = true) ↔
        ∃ name, resolvePathAttr cond.path maps.names = .ok name ∧
          cond.PassesAt maps item name) := by
    intro cond hcond tests htests
    obtain ⟨name, ty, hname, hmem⟩ := hnamed cond hcond
    obtain ⟨⟨pos, ty'⟩, hcolumn⟩ :=
      isSome_iff_exists.mp (rangeColumn_isSome hname hmem)
    obtain ⟨name', hname', hpos⟩ := rangeColumn_some hcolumn
    rw [hcolumn] at htests
    rw [columnTests_iff hbd hmaps hitem hrow hpos htests, hname']
    simp
  simp only [forall_mem_append, sortConditions] at hone hnamed ⊢
  refine and_congr ?_ ?_
  · refine forall_mem_flatten_iff (mapM_eq_ok.mp hsk) fun cond hcond tests htests => ?_
    obtain ⟨name, ty, hname, hmem⟩ := hnamed.1 cond hcond
    obtain ⟨column, hcolumn⟩ := isSome_iff_exists.mp (rangeColumn_isSome hname hmem)
    rw [sortColumn, hcolumn, some_or, ← hcolumn] at htests
    exact hone.1 cond hcond tests htests
  · rw [List.forall_mem_map]
    refine forall_mem_flatten_iff (mapM_eq_ok.mp hextra) fun e he tests htests => ?_
    exact hone.2 _ (mem_map_of_mem he) tests htests

end

end ExtendDb
